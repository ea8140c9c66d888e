import LoginServerChat.SlotReuse

/-!
No packet is left behind in `sendQ`: whoever adds one posts a `SENDPOST` job, and a worker that
leaves `SendPost` without the lock has seen somebody else with it, who looks at the queue again
after giving it back.
-/

namespace LoginServerChat.SlotWake

open NetPacket NetState NetStep SlotStep SlotView SlotRun SlotRefs SlotPhase SlotLive SlotRelease
  SlotJoin SlotSock SlotSend SendPath SlotReuse Runs

/-! ### What `accept` returns -/

/-- The client that `accept` has returned and the slot does not know yet. -/
def pcSock : Pc → Option Sock
  | .acc (.full h) | .acc (.request h) | .acc (.refuse h) | .acc (.incNow h) | .acc (.count h)
  | .acc (.pop h) | .accOn _ (.init h _) => some h
  | _ => none

variable {m m' : Mem} {l l' : Local} {i : ℕ} {ch : Choice}

/-- The step gives the thread no invalid socket. -/
def SockKept (l l' : Local) : Prop :=
  ∀ h, pcSock l'.pc = some h → pcSock l.pc = some h ∨ h ≠ invalidSocket

lemma SockKept.of_pc (h : l'.pc = l.pc) : SockKept l l' := fun _ hs => .inl (h ▸ hs)

lemma SockKept.of_none (h : pcSock l'.pc = none) : SockKept l l' := by
  intro s hs
  rw [h] at hs
  exact absurd hs nofun

lemma apiStep_pc {id : SessionID} {p : ApiPc} (h : apiStep m l i id p ch = some (m', l')) :
    l'.pc = l.pc := by
  revert h
  fun_cases apiStep m l i id p ch <;>
    simp only [Option.some.injEq, Prod.mk.injEq, reduceCtorEq, false_implies, and_imp]
  all_goals
    rintro rfl rfl
    rfl

lemma sendStep_sock {p : SendPc} (h : sendStep m l i p ch = some (m', l')) : pcSock l'.pc = none := by
  revert h
  fun_cases sendStep m l i p ch <;>
    simp only [Option.some.injEq, Prod.mk.injEq, reduceCtorEq, false_implies, and_imp]
  all_goals
    rintro rfl rfl
    rfl

lemma postStep_sock {p : PostPc} (h : postStep m l i p ch = some (m', l')) : pcSock l'.pc = none := by
  revert h
  fun_cases postStep m l i p ch <;>
    simp only [Option.some.injEq, Prod.mk.injEq, reduceCtorEq, false_implies, and_imp]
  all_goals
    rintro rfl rfl
    rfl

lemma contentsStep_pc (h : contentsStep m l ch = some (m', l')) : l'.pc = l.pc :=
  (contentsStep_sess h).2

lemma recvStep_sock {p : RecvPc} (hp : l.pc = .work i (.recv p))
    (h : recvStep m l i p ch = some (m', l')) : pcSock l'.pc = none := by
  revert h
  fun_cases recvStep m l i p ch <;>
    try simp only [Option.some.injEq, Prod.mk.injEq, reduceCtorEq, false_implies, and_imp]
  case case9 =>
    simp only [allocPacket]
    split <;> simp only [Option.some.injEq, Prod.mk.injEq, reduceCtorEq, false_implies, and_imp]
    rintro rfl rfl
    rfl
  case case16 =>
    intro h
    rw [contentsStep_pc h, hp]
    rfl
  case case17 | case18 =>
    intro h
    obtain ⟨-, rfl⟩ := Prod.mk.inj h
    split <;> rfl
  all_goals
    rintro rfl rfl
    rfl

lemma workStep_sock {p : WorkPc} (hp : l.pc = .work i p) (h : workStep m l i p ch = some (m', l')) :
    pcSock l'.pc = none := by
  revert h
  fun_cases workStep m l i p ch <;>
    try simp only [Option.some.injEq, Prod.mk.injEq, reduceCtorEq, false_implies, and_imp]
  case case1 j _ =>
    rintro rfl rfl
    cases j <;> rfl
  case case5 =>
    intro h
    obtain ⟨-, rfl⟩ := Prod.mk.inj h
    split <;> rfl
  case case8 => exact sendStep_sock
  case case9 => exact recvStep_sock hp
  case case10 => exact postStep_sock
  all_goals
    rintro rfl rfl
    rfl

lemma relStep_sock {p : RelPc} {x : Bool} (hp : l.pc = .rel i p x)
    (h : relStep m l i x p ch = some (m', l')) : pcSock l'.pc = none := by
  rcases (relStep_ioCount hp h).2 with (h | ⟨_, _, h⟩) | h
  · rw [h]
    rfl
  · rw [h]
    rfl
  · rw [h]
    cases x <;> rfl

lemma accOnStep_sock {p : AccOn} (hp : l.pc = .accOn i p)
    (h : accOnStep m l i p ch = some (m', l')) : SockKept l l' := by
  revert h
  fun_cases accOnStep m l i p ch <;>
    try simp only [Option.some.injEq, Prod.mk.injEq, reduceCtorEq, false_implies, and_imp]
  case case1 s p =>
    intro h
    obtain ⟨-, rfl⟩ := Prod.mk.inj h
    cases p
    case recvQ => exact .of_none rfl
    all_goals exact fun _ hs => .inl (by rw [hp]; exact hs)
  case case6 => exact fun h => .of_pc (contentsStep_pc h)
  all_goals
    rintro rfl rfl
    exact .of_none rfl

lemma acceptStep_sock {p : AccPc} (hp : l.pc = .acc p)
    (h : acceptStep m l p ch = some (m', l')) : SockKept l l' := by
  revert h
  fun_cases acceptStep m l p ch <;>
    try simp only [Option.some.injEq, Prod.mk.injEq, reduceCtorEq, false_implies, and_imp]
  case case2 s hs =>
    rintro rfl rfl s' hs'
    cases hs'
    exact .inr hs.1
  case case8 => exact fun h => .of_pc (contentsStep_pc h)
  case case12 => exact fun _ h => .of_pc (by rw [← h])
  all_goals
    rintro rfl rfl
    first
      | exact .of_none rfl
      | exact fun _ hs => .inl (by rw [hp]; exact hs)

lemma lstep_sock (h : lstep m l ch = some (m', l')) : SockKept l l' := by
  unfold lstep at h
  split at h
  case h_1 =>
    split at h <;> simp only [Option.some.injEq, Prod.mk.injEq, reduceCtorEq] at h
    exact .of_pc (by rw [← h.2])
  case h_2 =>
    split at h
    case h_1 => exact .of_pc (apiStep_pc h)
    case h_2 =>
      split at h
      case h_1 => exact .of_pc (contentsStep_pc h)
      case h_2 hp => exact acceptStep_sock hp h
      case h_3 hp => exact accOnStep_sock hp h
      case h_4 =>
        split at h <;> simp only [Option.some.injEq, Prod.mk.injEq, reduceCtorEq] at h
        exact .of_none (by rw [← h.2]; rfl)
      case h_5 hp => exact .of_none (workStep_sock hp h)
      case h_6 hp => exact .of_none (relStep_sock hp h)

variable {τ : Type*} [DecidableEq τ]
variable {b : Boot} {a : τ} {w : τ → Bool} {c : Config τ} {ok : Config τ → Act τ → Prop} {k : ℕ}

theorem reach_sock (h : Reach step ok (boot b a w) c) (t : τ) (s : Sock)
    (hs : pcSock (c.loc t).pc = some s) : s ≠ invalidSocket := by
  revert t s hs
  refine Reach.inv (I := fun c => ∀ t s, pcSock (c.loc t).pc = some s → s ≠ invalidSocket)
    (fun t s hs => ?_) (fun c c' x _ hi _ hstep => ?_) h
  · simp only [boot] at hs
    split at hs
    · cases hs
    · split at hs <;> cases hs
  · cases x with
    | run t ch =>
      simp only [step, Option.map_eq_some_iff] at hstep
      obtain ⟨⟨m', l'⟩, hl, rfl⟩ := hstep
      intro u s hs
      by_cases hut : u = t
      · subst hut
        simp only [Function.update_self] at hs
        exact (lstep_sock hl s hs).elim (hi u s) id
      · simp only [Function.update_of_ne hut] at hs
        exact hi u s hs
    | complete io n d =>
      simp only [step] at hstep
      split at hstep <;> simp only [Option.some.injEq, reduceCtorEq] at hstep
      subst hstep
      exact hi
    | give t u p =>
      simp only [step] at hstep
      split at hstep <;> simp only [Option.some.injEq, reduceCtorEq] at hstep
      subst hstep
      intro v s hs
      refine hi v s ?_
      by_cases hv : v = u
      · subst hv
        simpa using hs
      · by_cases hv' : v = t
        · subst hv'
          simpa [hv] using hs
        · simpa [hv, hv'] using hs

variable {e : Ev} {V V' : View} {x x' : LV} {bad : List Ev}

lemma sstep_handle_ne (h : SStep k e V x V' x')
    (hx : ∀ s, x.role = .acc (.init s .socket) → s ≠ invalidSocket)
    (hV : V.h.handle ≠ invalidSocket) : V'.h.handle ≠ invalidSocket := by
  cases h
  case initSocket => exact hx _ rfl
  case entrySkip j _ _ => cases j <;> exact hV
  all_goals exact hV

/-- The handle of a session is one that `accept` has returned. -/
theorem reach_handle (h : Reach step ok (boot b a w) c) :
    (c.mem.hist k).handle ≠ invalidSocket := by
  have h' : Reach step (avoids []) (boot b a w) c := h.mono fun _ _ _ => List.not_mem_nil
  refine slot_inv (I := fun S => S.V.h.handle ≠ invalidSocket) List.not_mem_nil (fun S hf => ?_)
    (fun c e S' hc hi _ hn => ?_) h'
  · rw [hf.h]
    decide
  · have hs : ∀ t s, ((slot c k).L t).role = .acc (.init s .socket) → s ≠ invalidSocket := by
      intro t s ht
      refine reach_sock hc t s ?_
      change pcRole k (c.loc t).pc = _ at ht
      unfold pcRole at ht
      split at ht
      case h_1 i p hp =>
        split at ht <;> simp only [Role.acc.injEq, reduceCtorEq] at ht
        rw [hp, ht]
        rfl
      all_goals first
        | exact Role.noConfusion ht
        | split at ht <;> exact Role.noConfusion ht
    generalize slot c k = S at hn hi hs
    cases hn with
    | thread t h => exact sstep_handle_ne h (hs t) hi
    | complete => exact hi

/-! ### Who looks at the queue -/

def SendPc.wakes : SendPc → ℕ
  | .pend _ | .cancel _ | .fail => 0
  | _ => 1

def Job.wakes : Job → ℕ
  | .sendPost | .sendDone _ => 1
  | _ => 0

def WorkPc.wakes : WorkPc → ℕ
  | .entry j => Job.wakes j
  | .readCnt | .zeroCnt _ | .freeArr _ _ | .unlock => 1
  | .send p => SendPc.wakes p
  | _ => 0

def Role.wakes : Role → ℕ
  | .work p => WorkPc.wakes p
  | _ => 0

def ApiPc.wakes : ApiPc → ℕ
  | .post => 1
  | _ => 0

/-- The thread is about to post a `SENDPOST` job, has taken one or a completed send, or is in
`SendPost` and has not handed a batch to `WSASend`. -/
def LV.wakes (l : LV) : ℕ := Role.wakes l.role + (l.api.elim 0 fun y => ApiPc.wakes y.2)

/-- The `SENDPOST` jobs and the sends that are posted or completed. -/
def View.wakes (V : View) : ℕ := (V.ios.map IoReq.locks).sum + (V.jobs.map Job.wakes).sum

lemma LV.locks_le_wakes (l : LV) : LV.locks l ≤ LV.wakes l := by
  obtain ⟨r, y⟩ := l
  have : LV.locks ⟨r, y⟩ ≤ Role.wakes r := by
    rcases r with _ | p | p | p
    · rfl
    · rfl
    · rcases p with j | _ | _ | _ | _ | p | _ | _ | _
      · cases j <;> simp [LV.locks, Role.wakes, WorkPc.wakes, Job.wakes]
      all_goals try simp [LV.locks, Role.wakes, WorkPc.wakes]
      cases p <;> simp [SendPc.locks, SendPc.wakes]
    · rfl
  simp only [LV.wakes]
  omega

lemma View.locks_le_wakes (V : View) : View.locks V ≤ View.wakes V + V.h.latch := by
  have : (V.jobs.map Job.locks).sum ≤ (V.jobs.map Job.wakes).sum :=
    List.sum_le_sum fun j _ => by cases j <;> simp [Job.locks, Job.wakes]
  simp only [View.locks, View.wakes]
  omega

/-- The session is up: announced, and neither disconnected nor with a send that failed. -/
structure Up (V : View) : Prop where
  live : V.h.phase = .live
  joined : V.h.joined = true
  marked : V.h.marked = false
  failed : V.h.failed = false

/-- A session that is up after a step was up before, or is announced by it. -/
lemma sstep_up (h : SStep k e V x V' x') (hA : JoinedAt V x) (hV : Up V') :
    Up V ∨ ∃ s, x.role = .acc (.join s) ∧ V' = { V with
      h := { V.h with joined := true }, issued := V.s.sessionID :: V.issued } := by
  obtain ⟨h1, h2, h3, h4⟩ := hV
  cases h
  case join => exact .inr ⟨_, rfl, rfl⟩
  case initSocket => exact Phase.noConfusion ((hA.init Nat.one_pos).symm.trans h1)
  case initReleaseFlag => exact Bool.noConfusion ((hA.unmet Nat.one_pos).symm.trans h2)
  case pop | cas | push => exact Phase.noConfusion h1
  case xchg => exact Bool.noConfusion h3
  case sendError => exact Bool.noConfusion h4
  case entrySkip j _ _ =>
    cases j
    case sendDone n =>
      simp only [skipHist, Bool.or_eq_false_iff] at h4
      exact .inl ⟨h1, h2, h3, h4.1⟩
    all_goals exact .inl ⟨h1, h2, h3, h4⟩
  all_goals exact .inl ⟨h1, h2, h3, h4⟩

/-- No send of a session that is up has been given up. -/
lemma sstep_latch (h : SStep k e V x V' x') (hV' : Up V')
    (hs : LV.past x → V.s.socket ≠ invalidSocket) (hi : V.h.latch = 0) : V'.h.latch = 0 := by
  cases h
  case initSendFlag => rfl
  case sendError => exact Bool.noConfusion hV'.failed
  case entrySkip j hj hsk =>
    cases j
    case sendDone n =>
      -- neither did the send come back empty nor is the socket invalid
      have h4 := hV'.failed
      simp only [skipHist, Bool.or_eq_false_iff, beq_eq_false_iff_ne] at h4
      rcases hsk with hsk | hsk
      · exact absurd hsk h4.2
      · exact absurd hsk (hs (.inr trivial))
    all_goals exact hi
  all_goals exact hi

/-- As long as `sendQ` holds a packet somebody is going to look at it; `n` counts the other
threads. Who leaves because the lock is taken relies on who has it. -/
lemma sstep_wakes {n : ℕ} (h : SStep k e V x V' x') (hp : e ≠ .lostSend) (hu : e ≠ .loadedUnlock)
    (hV' : Up V') (hs : LV.past x → V.s.socket ≠ invalidSocket)
    (hbusy : V.s.sendFlag = 1 → LV.locks x = 0 → 0 < View.wakes V + n)
    (hi : V.s.sendQ ≠ [] → 0 < View.wakes V + (n + LV.wakes x)) (hq : V'.s.sendQ ≠ []) :
    0 < View.wakes V' + (n + LV.wakes x') := by
  cases h
  case postFail => exact absurd rfl hp
  case giveUp => exact absurd (if_neg hq) hu
  case enqueue => simp only [LV.wakes, ApiPc.wakes, Option.elim]; omega
  case chkID c _ => cases c <;> exact hi hq
  case entryPass j _ _ => cases j <;> exact hi hq
  case entrySkip j hj hsk =>
    cases j
    case release => exact absurd rfl hj
    case recvDone => exact hi hq
    case sendPost =>
      rcases hsk with hsk | hsk
      · exact absurd hsk Nat.one_ne_zero
      · exact absurd hsk (hs (.inr trivial))
    case sendDone n =>
      have h4 := hV'.failed
      simp only [skipHist, Bool.or_eq_false_iff, beq_eq_false_iff_ne] at h4
      rcases hsk with hsk | hsk
      · exact absurd hsk h4.2
      · exact absurd hsk (hs (.inr trivial))
  case sizeEmpty h0 => exact absurd (List.length_eq_zero_iff.mp h0) hq
  case flagBusy hf =>
    have := hbusy hf rfl
    simp only [View.wakes] at this ⊢
    omega
  case sendError => exact Bool.noConfusion hV'.failed
  case gqcs j js hj =>
    have := hi hq
    simp only [View.wakes, hj, List.map_cons, List.sum_cons] at this ⊢
    cases j <;> simp only [LV.wakes, Role.wakes, WorkPc.wakes, Job.wakes] at this ⊢ <;> omega
  case gather hq' =>
    simp only [LV.wakes, Role.wakes, WorkPc.wakes, SendPc.wakes]
    omega
  case drain hq' => exact hi (by simp [hq'])
  case relWalk p p' hw => cases p <;> cases p' <;> first | exact hw.elim | exact hi hq
  all_goals
    have := hi hq
    simp only [View.wakes, LV.wakes, Role.wakes, WorkPc.wakes, SendPc.wakes, ApiPc.wakes, Job.wakes,
      IoReq.locks, cancelAll_locks, List.map_append, List.sum_append, List.map_cons, List.map_nil,
      List.sum_cons, List.sum_nil, Option.elim, if_true, Bool.false_eq_true, if_false] at this ⊢
    omega

variable [Fintype τ]

/-- A session that is up has given up no send, and somebody looks after its packets. -/
def Woken (S : Slot τ) : Prop :=
  Up S.V → S.V.h.latch = 0 ∧
    (S.V.s.sendQ ≠ [] → 0 < View.wakes S.V + ∑ t, LV.wakes (S.L t))

lemma next_woken {S S' : Slot τ} (h : Next k e S S') (hp : e ≠ .lostSend) (hu : e ≠ .loadedUnlock)
    (hG : Good S) (hS : Sends S)
    (hs : Up S.V → ∀ t, LV.past (S.L t) → S.V.s.socket ≠ invalidSocket) (hi : Woken S) :
    Woken S' := by
  cases h with
  | @thread e V L V' l' t h =>
    intro hV'
    rcases sstep_up h (hG.at' t) hV' with hV | ⟨s, ht, rfl⟩
    · obtain ⟨hl, hw⟩ := hi hV
      refine ⟨sstep_latch h hV' (hs hV t) hl, ?_⟩
      obtain ⟨n, hn, hn'⟩ := sum_split LV.wakes L t
      obtain ⟨m, hm, hm'⟩ := sum_split LV.locks L t
      simp only [hn, hn'] at hw ⊢
      refine sstep_wakes h hp hu hV' (hs hV t) (fun hf h0 => ?_) hw
      -- the lock is with a send or with another thread
      have h1 := (hS.locked hV.live hV.joined).1
      have h2 := View.locks_le_wakes V
      have h3 : m ≤ n := by
        have := Finset.sum_le_sum fun u (_ : u ∈ Finset.univ) =>
          LV.locks_le_wakes (Function.update L t ⟨.none, none⟩ u)
        rwa [hn', hm'] at this
      dsimp only at h1 hl
      omega
    · have hj := (hG.at' t).unmet (by simp [LV.unmet, ht])
      have hpr := hS.prepared t
      simp only [Prepared, ht] at hpr
      exact ⟨hpr.2.1, fun hq => absurd (hS.blank (.inr (.inr hj))).1 hq⟩
  | @complete V L io n d hio =>
    intro hV'
    obtain ⟨hl, hw⟩ := hi ⟨hV'.live, hV'.joined, hV'.marked, hV'.failed⟩
    refine ⟨hl, fun hq => ?_⟩
    have h1 := hw hq
    have h2 := List.sum_map_erase IoReq.locks hio
    have h3 : Job.wakes (IoReq.done io n d) = IoReq.locks io := by
      simp only [IoReq.done, IoReq.locks]
      split <;> rfl
    simp only [View.wakes, List.map_append, List.sum_append, List.map_cons, List.map_nil,
      List.sum_cons, List.sum_nil, h3] at h1 ⊢
    omega

omit [DecidableEq τ] [Fintype τ] in
lemma socket_of_up (hk : SockOk V) (hne : V.h.handle ≠ invalidSocket) (hV : Up V) :
    V.s.socket ≠ invalidSocket := by
  rw [SockOk, hV.marked] at hk
  rw [hk]
  exact hne

theorem reach_woken (hok : .ok ∉ bad) (hr : .skipRelease ∈ bad) (hl : .lateEnter ∈ bad)
    (hp : .lostSend ∈ bad) (hu : .loadedUnlock ∈ bad)
    (h : Reach step (avoids bad) (boot b a w) c) : Woken (slot c k) := by
  refine slot_inv (I := Woken) hok (fun S hf hV => ?_) (fun c e S' hc hi he hn => ?_) h
  · have := hV.live
    simp [hf.h, freshHist] at this
  · refine next_woken hn (fun h => he (h ▸ hp)) (fun h => he (h ▸ hu))
      (reach_good hok hr hl hc) (reach_sends hok hr hl hc) (fun hV t ht => ?_) hi
    have hev := ((reach_named hc k).2 t).ever ht
    exact socket_of_up ((reach_socks hc).ever hev) (reach_handle hc) hV

/-- Nothing is under way on the send path of the session on slot `k`, which is announced and
neither disconnected nor released, and none of whose sends has failed: no call of `SendPacket`
is between its `Enqueue` and its job, no `SENDPOST` job and no completed send is queued, no send
is posted, and no worker has one of these in hand or is in `SendPost`, other than to test the
socket after a send that pends or to take back the reference of one that failed. -/
structure Quiet (c : Config τ) (k : ℕ) : Prop where
  live : (c.mem.hist k).phase = .live
  marked : (c.mem.hist k).marked = false
  failed : (c.mem.hist k).failed = false
  calls : ∀ t id, (lview (c.loc t) k).api ≠ some (id, .post)
  posts : (k, .sendPost) ∉ c.mem.queue
  dones : ∀ n, (k, .sendDone n) ∉ c.mem.queue
  sends : ∀ io ∈ c.mem.inflight, io.slot = k → io.send = false
  works : ∀ t p, (lview (c.loc t) k).role = .work p → WorkPc.wakes p = 0

/-- **No lost wake-up.** In every run in which `SENDPOST` jobs can be posted, no `SendPost` gives
up after its second pass while `sendQ` holds a packet, no worker takes a `RELEASE` job for a slot
whose `socket` is `INVALID_SOCKET` and no `EnterSession` succeeds with an id that the slot's
session has not been announced with, a quiet session has an empty `sendQ`. -/
theorem no_lost_wakeup
    (h : Reach step (avoids [.skipRelease, .lateEnter, .lostSend, .loadedUnlock]) (boot b a w) c)
    (hq : Quiet c k) : (c.mem.sess k).sendQ = [] := by
  have hW := reach_woken (k := k) (by decide) (by decide) (by decide) (by decide) (by decide) h
  have hS := reach_sends (k := k) (by decide) (by decide) (by decide) h
  by_cases hj : (c.mem.hist k).joined = true
  · by_contra hne
    have hw := (hW ⟨hq.live, hj, hq.marked, hq.failed⟩).2 hne
    have h1 : View.wakes (slot c k).V = 0 := by
      simp only [View.wakes, Nat.add_eq_zero_iff, List.sum_eq_zero_iff, List.mem_map,
        forall_exists_index, and_imp, forall_apply_eq_imp_iff₂]
      refine ⟨fun io hio => ?_, fun j hj => ?_⟩
      · simp only [slot, view, List.mem_filter, decide_eq_true_eq] at hio
        simp [IoReq.locks, hq.sends io hio.1 hio.2]
      · have hj' := mem_jobs.mp hj
        cases j
        case sendPost => exact absurd hj' hq.posts
        case sendDone n => exact absurd hj' (hq.dones n)
        all_goals rfl
    have h2 : ∑ t, LV.wakes ((slot c k).L t) = 0 := by
      refine Finset.sum_eq_zero fun t _ => ?_
      have h3 := hq.works t
      have h4 := hq.calls t
      change LV.wakes (lview (c.loc t) k) = 0
      generalize lview (c.loc t) k = y at h3 h4 ⊢
      obtain ⟨r, x⟩ := y
      have hr : Role.wakes r = 0 := by
        cases r <;> first
          | rfl
          | exact h3 _ rfl
      rcases x with _ | ⟨id, p⟩
      · exact hr
      · cases p <;> first
          | exact hr
          | exact absurd rfl (h4 id)
    omega
  · exact (hS.blank (.inr (.inr (Bool.eq_false_iff.mpr hj)))).1

/-- The thread is at the top of its loop. -/
def atTop (l : Local) : Bool :=
  match l.pc, l.api with
  | .ext, .idle | .acc .accept, .idle | .gqcs, .idle => true
  | _, _ => false

lemma lview_atTop {l : Local} (h : atTop l = true) : lview l k = ⟨.none, none⟩ := by
  unfold atTop at h
  split at h
  case h_4 => exact absurd h Bool.false_ne_true
  all_goals simp [lview, *, pcRole, apiRole]

/-- A session that is up with every thread at the top of its loop and nothing but receives and
releases queued or posted for it. -/
def idle (c : Config (Fin 4)) : Bool :=
  decide ((c.mem.hist 0).phase = .live) && !(c.mem.hist 0).marked && !(c.mem.hist 0).failed &&
    decide (∀ t, atTop (c.loc t) = true) && decide (c.mem.queue = []) &&
    c.mem.inflight.all fun io => !io.send

lemma quiet_of_idle {c : Config (Fin 4)} (h : idle c = true) : Quiet c 0 := by
  simp only [idle, Bool.and_eq_true, decide_eq_true_eq, Bool.not_eq_true', List.all_eq_true] at h
  obtain ⟨⟨⟨⟨⟨h1, h2⟩, h3⟩, h4⟩, h5⟩, h6⟩ := h
  refine ⟨h1, h2, h3, fun t id => ?_, ?_, fun n => ?_, fun io hio _ => h6 io hio, fun t p => ?_⟩
  · rw [lview_atTop (h4 t)]
    exact nofun
  · simp [h5]
  · simp [h5]
  · rw [lview_atTop (h4 t)]
    exact nofun

/-- Thread 3 sends packet `p`. -/
def sent (p : ℕ) : List (Act (Fin 4)) := sending firstID p ++ queued

/-- Worker `t` takes a `SENDPOST` job, sends the `j` packets that wait as operation `n`, and
handles its completion. -/
def flushed (t : Fin 4) (j n : ℕ) : List (Act (Fin 4)) :=
  ticks t (9 + j) ++ [.run t (.io .done)] ++ ticks t 1 ++
    [.complete ⟨n, 0, 1, true, 0x1A4, 0, false, false⟩ 1 []] ++ ticks t (8 + j)

/-- A packet has been sent. -/
theorem no_lost_wakeup_sent :
    ∃ c, Reach step (avoids [.skipRelease, .lateEnter, .lostSend, .loadedUnlock]) crew c ∧
      (c.mem.hist 0).sent = [[⟨0, firstID⟩]] ∧ Quiet c 0 ∧ (c.mem.sess 0).sendQ = [] := by
  obtain ⟨c, hr, hp⟩ := reach_avoids (B := [.skipRelease, .lateEnter, .lostSend, .loadedUnlock])
    (b := crew) (accepted 0x1A4 ++ sent 0 ++ flushed 1 1 1)
    (p := fun c => decide ((c.mem.hist 0).sent = [[⟨0, firstID⟩]]) && idle c) (by decide +kernel)
  simp only [Bool.and_eq_true, decide_eq_true_eq] at hp
  have hq := quiet_of_idle hp.2
  exact ⟨c, hr, hp.1, hq, no_lost_wakeup hr hq⟩

/-- Worker 1 sees packet 0 and is slow. Worker 2 sends packets 0 and 1, so that worker 1 takes the
lock for nothing; it starts over and sees packet 2, which worker 2 sends too. While worker 1 has
the lock for nothing again packet 3 is queued, and worker 2 turns away its job. -/
def late : List (Act (Fin 4)) :=
  accepted 0x1A4 ++ sent 0 ++ ticks 1 3 ++ sent 1 ++ flushed 2 2 1 ++ ticks 1 3 ++ sent 2 ++
    ticks 1 1 ++ flushed 2 1 2 ++ ticks 1 2 ++ sent 3 ++ ticks 2 5 ++ ticks 1 2

/-- Then worker 1 gives up, and nobody is left who would look at packet 3. -/
theorem wakeup_lost : ¬∀ c, Reach step (avoids [.lostSend]) crew c → ∀ k, Quiet c k →
    (c.mem.sess k).sendQ = [] := by
  intro h
  obtain ⟨c, hr, hp⟩ := reach_avoids (B := [.lostSend]) (b := crew) late
    (p := fun c => decide ((c.mem.sess 0).sendQ = [⟨3, firstID⟩]) && idle c) (by decide +kernel)
  simp only [Bool.and_eq_true, decide_eq_true_eq] at hp
  have := h c hr 0 (quiet_of_idle hp.2)
  rw [hp.1] at this
  exact absurd this (List.cons_ne_nil _ _)

end LoginServerChat.SlotWake
