import LoginServerChat.SendPath
import LoginServerChat.SlotSock

/-!
Sessions that follow each other on one slot. `AcceptThread` does not reset `sendQ`; that nothing
of one session reaches the next rests on the references and on the drain in `ReleaseSession`.
-/

namespace LoginServerChat.SlotReuse

open NetPacket NetState NetStep SlotStep SlotView SlotRun SlotRefs SlotPhase SlotLive SlotRelease
  SlotJoin SlotSock SlotSend SendPath Runs

variable {τ : Type*} [DecidableEq τ] [Fintype τ]

/-! ### Where bytes come from -/

/-- The socket is the session's, or what a `Disconnect` has made of it. -/
def OnSock (V : View) (s : Sock) : Prop := s = V.h.handle ∨ s = mark V.h.handle

/-- What is posted, completed and received is of the present session. -/
structure Tagged (V : View) : Prop where
  ios : ∀ io ∈ V.ios, io.ser = V.h.ser ∧ OnSock V io.sock
  jobs : ∀ d s, .recvDone d s ∈ V.jobs → s = V.h.ser
  recvQ : V.h.phase = .live → V.h.joined = true → ∀ x ∈ V.s.recvQ, x.2 = V.h.ser

/-- And so is what a thread has in hand. -/
def TaggedBy (V : View) (l : LV) : Prop :=
  match l.role with
  | .work (.entry (.recvDone _ s)) | .work (.recv (.moveRear _ s)) => s = V.h.ser
  | .work (.send (.send s _)) | .work (.post (.recv s)) => OnSock V s
  | .acc (.init _ .ioCount) | .acc (.init _ .socket) => True
  | .acc (.init s _) | .acc (.assoc s) | .acc (.join s) | .acc (.joining s) | .acc (.recv s) =>
    s = V.h.handle
  | _ => True

variable {k : ℕ} {e : Ev} {V V' : View} {l l' : LV}

lemma job_of_refs (h : View.refs V = 0) {j : Job} (hj : j ∈ V.jobs) : j = .release := by
  have := List.single_le_sum (l := V.jobs.map Job.refs) (by simp) _ (List.mem_map_of_mem hj)
  simp only [View.refs] at h
  cases j <;> first
    | rfl
    | simp only [Job.refs] at this; omega

lemma WorkPc.refs_pos {p : WorkPc} (hp : p ≠ .entry .release) : 0 < WorkPc.refs p := by
  rcases p with j | _ | _ | _ | _ | p | _ | p | _
  · cases j <;> first | exact absurd rfl hp | exact Nat.one_pos
  all_goals try exact Nat.one_pos
  · cases p <;> exact Nat.succ_pos _
  · cases p <;> exact Nat.succ_pos _

lemma Tagged.of_refs (h : View.refs V = 0)
    (hq : V.h.phase = .live → V.h.joined = true → ∀ x ∈ V.s.recvQ, x.2 = V.h.ser) : Tagged V := by
  refine ⟨fun io hio => ?_, fun d s hj => Job.noConfusion (job_of_refs h hj), hq⟩
  have := List.length_pos_of_mem hio
  simp only [View.refs] at h
  omega

lemma Tagged.append {io : IoReq} (hV : Tagged V) (h1 : io.ser = V.h.ser) (h2 : OnSock V io.sock) :
    Tagged { V with ios := V.ios ++ [io] } := by
  refine ⟨fun x hx => ?_, hV.jobs, hV.recvQ⟩
  rcases List.mem_append.mp hx with hx | hx
  · exact hV.ios x hx
  · rw [List.mem_singleton.mp hx]
    exact ⟨h1, h2⟩

lemma Tagged.cancelAll {s : Sock} (hV : Tagged V) :
    Tagged { V with ios := cancelAll s V.ios } := by
  refine ⟨fun x hx => ?_, hV.jobs, hV.recvQ⟩
  obtain ⟨y, hy, rfl⟩ := List.mem_map.mp hx
  have := hV.ios y hy
  split <;> exact this

lemma Tagged.queue {j : Job} (hV : Tagged V) (hj : ∀ d s, j = .recvDone d s → s = V.h.ser) :
    Tagged { V with jobs := V.jobs ++ [j] } := by
  refine ⟨hV.ios, fun d s h => ?_, hV.recvQ⟩
  rcases List.mem_append.mp h with h | h
  · exact hV.jobs d s h
  · exact hj d s (List.mem_singleton.mp h).symm

lemma refs_of_phase (hA : SoundAt V l) (hp : V.h.phase ≠ .live) : View.refs V = 0 :=
  Nat.eq_zero_of_not_pos fun hr => hp (hA.held hr)

lemma sstep_tagged (h : SStep k e V l V' l') (hA : JoinedAt V l) (hp : Prepared V l)
    (hl : TaggedBy V l) (hV : Tagged V) : Tagged V' := by
  cases h
  case foreign => exact hV.cancelAll
  case cancel => exact ⟨hV.cancelAll.ios, hV.jobs, hV.recvQ⟩
  case accCancel | sendCancel | postCancel => exact hV.cancelAll
  case post | request => exact hV.queue nofun
  case pop hs =>
    have h0 : View.refs V = 0 := refs_of_phase hA.toSoundAt (by simp [hA.stack (by omega)])
    exact .of_refs h0 nofun
  case initSocket =>
    have h0 : View.refs V = 0 := refs_of_phase hA.toSoundAt (by simp [hA.init Nat.one_pos])
    exact .of_refs h0 hV.recvQ
  case initReleaseFlag =>
    exact ⟨hV.ios, hV.jobs, fun _ hj => Bool.noConfusion ((hA.unmet Nat.one_pos).symm.trans hj)⟩
  case initRecvQ => exact ⟨hV.ios, hV.jobs, fun _ _ => nofun⟩
  case join =>
    refine ⟨hV.ios, hV.jobs, fun _ _ x hx => ?_⟩
    simp only [hp.2.2.2] at hx
    exact absurd hx List.not_mem_nil
  case cas | push => exact ⟨hV.ios, hV.jobs, nofun⟩
  case gqcs hj =>
    exact ⟨hV.ios, fun d s h => hV.jobs d s (hj ▸ List.mem_cons_of_mem _ h), hV.recvQ⟩
  case accRecv | accRecvPend => exact hV.append rfl (.inl hl)
  case recvDone | recvPend => exact hV.append rfl hl
  case sendDone | sendPend =>
    exact Tagged.append (V := { V with h := { V.h with sent := _, gath := [] } })
      ⟨hV.ios, hV.jobs, hV.recvQ⟩ rfl hl
  case moveRear =>
    refine ⟨hV.ios, hV.jobs, fun hph hj x hx => ?_⟩
    rcases List.mem_append.mp hx with hx | hx
    · exact hV.recvQ hph hj x hx
    · obtain ⟨y, -, rfl⟩ := List.mem_map.mp hx
      exact hl
  case dequeue =>
    exact ⟨hV.ios, hV.jobs, fun hph hj x hx => hV.recvQ hph hj x (List.mem_of_mem_drop hx)⟩
  case entrySkip j _ _ => cases j <;> exact ⟨hV.ios, hV.jobs, hV.recvQ⟩
  all_goals exact ⟨hV.ios, hV.jobs, hV.recvQ⟩

lemma sstep_taggedBy (h : SStep k e V l V' l') (hsock : LV.past l → OnSock V V.s.socket)
    (hV : Tagged V) (hl : TaggedBy V l) : TaggedBy V' l' := by
  cases h
  case initSocket => rfl
  case gqcs j js hj =>
    cases j <;> try trivial
    exact hV.jobs _ _ (hj ▸ List.mem_cons_self)
  case entryPass j _ _ => cases j <;> exact hl
  case load | postLoad => exact hsock (.inr trivial)
  case parse p p' hp hp' => cases p' <;> trivial
  case dequeue p p' n hp hp' => cases p' <;> trivial
  all_goals first
    | exact hl
    | trivial

/-- Only an accept changes whose bytes the slot has. -/
lemma sstep_origin (h : SStep k e V l V' l') :
    V'.h.ser = V.h.ser ∧ V'.h.handle = V.h.handle ∨ 0 < LV.inits l ∨ 0 < V.stack := by
  cases h
  case pop hs => exact .inr (.inr (by omega))
  case initSocket => exact .inr (.inl Nat.one_pos)
  case entrySkip j _ _ => cases j <;> exact .inl ⟨rfl, rfl⟩
  all_goals exact .inl ⟨rfl, rfl⟩

lemma taggedBy_of_idle (ha : LV.accepts l = 0) (hm : LV.met l = 0) : TaggedBy V l := by
  obtain ⟨r, x⟩ := l
  have hm : Role.met r = 0 := (Nat.add_eq_zero_iff.mp hm).1
  rcases r with _ | p | p | p
  · trivial
  · cases p <;> trivial
  · rcases p with j | _ | _ | _ | _ | p | p | p | _
    · cases j <;> trivial
    all_goals try trivial
    all_goals cases p <;> trivial
  · cases p <;> trivial

lemma others_tagged {L : τ → LV} {t u : τ} (hG : Good ⟨V, L⟩) (h : SStep k e V (L t) V' l')
    (hut : t ≠ u) (hu : TaggedBy V (L u)) : TaggedBy V' (L u) := by
  rcases sstep_origin h with ⟨h1, h2⟩ | ht | hs
  · unfold TaggedBy OnSock at hu ⊢
    rw [h1, h2]
    exact hu
  · have hph := (hG.at' t).init ht
    refine taggedBy_of_idle ?_ (Nat.eq_zero_of_not_pos fun hm => ?_)
    · have h1 := hG.accepts
      have h2 : View.busy V ≤ 1 := by unfold View.busy; split <;> omega
      have h3 := (LV.inits_le (L t)).trans (LV.unmet_le _)
      refine eq_zero_of_sum_le (f := fun v => LV.accepts (L v)) ?_ hut.symm
      dsimp only at h1
      omega
    · exact Phase.noConfusion (hph.symm.trans (hG.of_met hm).1)
  · have hph : V.h.phase = .free := (hG.at' t).stack hs
    refine taggedBy_of_idle ?_ (Nat.eq_zero_of_not_pos fun hm => ?_)
    · have h1 := hG.accepts
      have h2 := le_sum (fun v => LV.accepts (L v)) u
      simp only [View.busy, hph, reduceCtorEq, or_self, if_false] at h1
      omega
    · exact Phase.noConfusion (hph.symm.trans (hG.of_met hm).1)

variable {b : Boot} {a : τ} {w : τ → Bool} {c : Config τ} {bad : List Ev}

omit [DecidableEq τ] [Fintype τ] in
lemma onSock_socket (h : SockOk V) : OnSock V V.s.socket := by
  rw [SockOk] at h
  split at h
  · exact .inr h
  · exact .inl h

theorem reach_tagged (hok : .ok ∉ bad) (hr : .skipRelease ∈ bad) (hl : .lateEnter ∈ bad)
    (h : Reach step (avoids bad) (boot b a w) c) :
    Tagged (slot c k).V ∧ ∀ t, TaggedBy (slot c k).V ((slot c k).L t) := by
  refine slot_inv (I := fun S => Tagged S.V ∧ ∀ t, TaggedBy S.V (S.L t)) hok (fun S hf => ?_)
    (fun c e S' hc hi he hn => ?_) h
  · refine ⟨.of_refs (by simp [View.refs, hf.ios, hf.jobs]) fun hp => ?_, fun t => ?_⟩
    · simp [hf.h, freshHist] at hp
    · rw [hf.idle t]
      trivial
  · have hG := reach_good (k := k) hok hr hl hc
    have hS := reach_sends (k := k) hok hr hl hc
    have hK := reach_socks (k := k) hc
    have hN := (reach_named hc k).2
    generalize slot c k = S at hn hi hG hS hK hN
    obtain ⟨hV, hL⟩ := hi
    cases hn with
    | @thread e V L V' l' t hs =>
      refine ⟨sstep_tagged hs (hG.at' t) (hS.prepared t) (hL t) hV, fun u => ?_⟩
      by_cases hut : u = t
      · subst hut
        have := sstep_taggedBy hs (fun hp => onSock_socket (hK.ever ((hN u).ever hp))) hV (hL u)
        simpa using this
      · simpa [hut] using others_tagged hG hs (Ne.symm hut) (hL u)
    | @complete V L io n d hio =>
      refine ⟨⟨fun x hx => hV.ios x (List.mem_of_mem_erase hx), ?_, hV.recvQ⟩, hL⟩
      refine (hV.queue (j := IoReq.done io n d) fun d' s hj => ?_).jobs
      simp only [IoReq.done] at hj
      split at hj
      · exact Job.noConfusion hj
      · simp only [Job.recvDone.injEq] at hj
        rw [← hj.2]
        exact (hV.ios io hio).1

/-! ### Isolation -/

/-- Slot `k` keeps its sessions apart. When the accept thread has prepared the slot, its queues
are empty, `sendFlag` and `sendCnt` are 0 and no operation, completion or `SENDPOST` job is left
on it, posted, queued or with a worker; what is handed to `WSASend` was accepted by `SendPacket`
for the id that the session has, and goes to its socket; and the bytes in `recvQ` while a worker
parses it, and those it adds to it, were received by this session, on its socket. -/
structure Isolated (c : Config τ) (k : ℕ) : Prop where
  prepared : ∀ t s, (lview (c.loc t) k).role = .acc (.assoc s) ∨
      (lview (c.loc t) k).role = .acc (.join s) →
    (c.mem.sess k).sendQ = [] ∧ (c.mem.sess k).recvQ = [] ∧ (c.mem.sess k).sendFlag = 0 ∧
      (c.mem.sess k).sendCnt = 0
  cleared : ∀ t s, (lview (c.loc t) k).role = .acc (.assoc s) ∨
      (lview (c.loc t) k).role = .acc (.join s) →
    (∀ io ∈ c.mem.inflight, io.slot ≠ k) ∧ (∀ j, (k, j) ∈ c.mem.queue → j = .release) ∧
      ∀ u p, (lview (c.loc u) k).role = .work p → p = .entry .release
  sends : ∀ t s bufs, (lview (c.loc t) k).role = .work (.send (.send s bufs)) →
    (s = (c.mem.hist k).handle ∨ s = mark (c.mem.hist k).handle) ∧
      ∀ x ∈ bufs, x.1.sid = (c.mem.sess k).sessionID
  parses : ∀ t p, (lview (c.loc t) k).role = .work (.recv p) →
    (∀ x ∈ (c.mem.sess k).recvQ, x.2 = (c.mem.hist k).ser) ∧
      ∀ d s, p = .moveRear d s → s = (c.mem.hist k).ser
  posted : ∀ io ∈ c.mem.inflight, io.slot = k → io.ser = (c.mem.hist k).ser ∧
    (io.sock = (c.mem.hist k).handle ∨ io.sock = mark (c.mem.hist k).handle)

/-- **Isolation.** In every run in which no worker takes a `RELEASE` job for a slot whose
`socket` is `INVALID_SOCKET`, and no `EnterSession` succeeds with an id that the slot's session
has not been announced with, slots keep their sessions apart. -/
theorem isolated (h : Reach step (avoids [.skipRelease, .lateEnter]) (boot b a w) c) (k : ℕ) :
    Isolated c k := by
  have hG := reach_good (k := k) (by decide) (by decide) (by decide) h
  have hS := reach_sends (k := k) (by decide) (by decide) (by decide) h
  obtain ⟨hV, hL⟩ := reach_tagged (k := k) (by decide) (by decide) (by decide) h
  have hio : ∀ io ∈ c.mem.inflight, io.slot = k → io ∈ (slot c k).V.ios :=
    fun io hio hk => by simp [slot, view, hio, hk]
  have hjoined : ∀ t s, (lview (c.loc t) k).role = .acc (.assoc s) ∨
      (lview (c.loc t) k).role = .acc (.join s) → (slot c k).V.h.joined = false := by
    intro t s ht
    refine (hG.at' t).unmet ?_
    rw [show (slot c k).L t = lview (c.loc t) k from rfl, LV.unmet]
    rcases ht with ht | ht <;> simp [ht]
  refine ⟨fun t s ht => ?_, fun t s ht => ?_, fun t s bufs ht => ?_, fun t p ht => ?_,
    fun io h hk => hV.ios io (hio io h hk)⟩
  · have hj : (slot c k).V.h.joined = false := hjoined t s ht
    obtain ⟨h1, -, h2, h3⟩ : (slot c k).V.s.sendFlag = 0 ∧ (slot c k).V.h.latch = 0 ∧
        (slot c k).V.s.sendCnt = 0 ∧ (slot c k).V.s.recvQ = [] := by
      have := hS.prepared t
      rw [show (slot c k).L t = lview (c.loc t) k from rfl, Prepared] at this
      rcases ht with ht | ht <;> simpa only [ht] using this
    exact ⟨(hS.blank (.inr (.inr hj))).1, h3, h1, h2⟩
  · have hj : (slot c k).V.h.joined = false := hjoined t s ht
    have h0 : View.refs (slot c k).V = 0 := Nat.eq_zero_of_not_pos fun hr =>
      absurd (hj.symm.trans ((hG.at' t).heldJoined hr)) Bool.false_ne_true
    refine ⟨fun io h hk => ?_, fun j hq => ?_, fun u p hu => ?_⟩
    · have := List.length_pos_of_mem (hio io h hk)
      simp only [View.refs] at h0
      omega
    · exact job_of_refs h0 (mem_jobs.mpr hq)
    · by_contra hp
      have hm : 0 < LV.met ((slot c k).L u) := by
        rw [show (slot c k).L u = lview (c.loc u) k from rfl, LV.met, hu]
        exact Nat.add_pos_left (WorkPc.refs_pos hp) _
      exact absurd (hj.symm.trans ((hG.at' u).met hm)) Bool.false_ne_true
  · have hd := hS.data t
    have ht' := hL t
    have hp := hG.of_met (t := t)
    rw [show (slot c k).L t = lview (c.loc t) k from rfl] at hd ht'
    simp only [TaggedBy, ht, LV.met] at hd ht' hp
    refine ⟨ht', fun x hx => (hS.gathered_own (hp ?_).1 (Gathered.mem hd.1 hx)).2⟩
    exact Nat.add_pos_left Nat.two_pos _
  · have ht' := hL t
    have hp := hG.of_met (t := t)
    rw [show (slot c k).L t = lview (c.loc t) k from rfl] at ht'
    simp only [TaggedBy, ht, LV.met] at ht' hp
    obtain ⟨h1, h2⟩ := hp (Nat.add_pos_left Nat.one_pos _)
    refine ⟨hV.recvQ h1 h2, fun d s hd => ?_⟩
    subst hd
    exact ht'

/-- The thread is about to call `WSASend` for slot 0 with these packets. -/
def handing (pc : Pc) : List Entry :=
  match pc with
  | .work 0 (.send (.send _ bufs)) => bufs.map Prod.fst
  | _ => []

lemma role_of_handing {l : Local} {x : Entry} (h : x ∈ handing l.pc) :
    ∃ s bufs, (lview l 0).role = .work (.send (.send s bufs)) ∧ ∃ y ∈ bufs, y.1 = x := by
  unfold handing at h
  split at h
  · rename_i s bufs hpc
    refine ⟨s, bufs, ?_, List.mem_map.mp h⟩
    simp [lview, hpc, pcRole]
  · exact absurd h List.not_mem_nil

/-- A second client has the slot of a first one, who was disconnected, and is sent a packet. -/
theorem isolated_second : ∃ c, Reach step (avoids [.skipRelease, .lateEnter]) crew c ∧
    handing (c.loc 1).pc = [⟨0, makeID 2 0⟩] ∧ Isolated c 0 := by
  obtain ⟨c, hr, hp⟩ := reach_avoids (B := [.skipRelease, .lateEnter]) (b := crew)
    (disconnected 0x1A4 ++ ticks 1 8 ++ [.run 1 .ret] ++ ticks 1 2 ++ accepted 0x1B8 ++
      sending (makeID 2 0) 0 ++ queued ++ ticks 1 10)
    (p := fun c => decide (handing (c.loc 1).pc = [⟨0, makeID 2 0⟩])) (by decide +kernel)
  exact ⟨c, hr, of_decide_eq_true hp, isolated hr 0⟩

/-- A packet that was accepted for a client on a handle whose upper half is all ones is handed to
`WSASend` for the next client of the slot. -/
theorem isolated_broken : ¬∀ c, Reach step (fun _ _ => True) crew c → ∀ k, Isolated c k := by
  intro h
  obtain ⟨c, hr, hp⟩ := reach_free (b := crew)
    (overrun 0xFFFFFFFF80000004 0x1B8 ++ queued ++ ticks 1 10)
    (p := fun c => decide ((c.mem.sess 0).sessionID = makeID 2 0 ∧
      ⟨0, firstID⟩ ∈ handing (c.loc 1).pc)) (by decide +kernel)
  obtain ⟨h1, h2⟩ := of_decide_eq_true hp
  obtain ⟨s, bufs, hrole, y, hy, hx⟩ := role_of_handing h2
  have hid := ((h c hr 0).sends 1 s bufs hrole).2 y hy
  rw [hx, h1] at hid
  exact absurd hid (by decide)

end LoginServerChat.SlotReuse
