import LoginServerChat.SlotRun

/-!
References to a session. `ioCount` is to count the operations that are posted or completed and
not yet handled, the `SENDPOST` jobs, and the threads between an increment and its decrement.
-/

namespace LoginServerChat.SlotRefs

open NetPacket NetState NetStep SlotStep SlotView SlotRun Runs

variable {τ : Type*} [DecidableEq τ] [Fintype τ]

/-- Whether a job carries a reference: all but `RELEASE`. -/
def Job.refs : Job → ℕ
  | .release => 0
  | _ => 1

def AccOn.refs : AccOn → ℕ
  | .init _ .ioCount => 0
  | .pend _ | .cancel _ => 0
  | _ => 1

def SendPc.refs : SendPc → ℕ
  | .load _ | .send _ _ | .fail => 2
  | _ => 1

def PostPc.refs : PostPc → ℕ
  | .load | .recv _ | .fail => 2
  | _ => 1

def WorkPc.refs : WorkPc → ℕ
  | .entry j => Job.refs j
  | .send p => SendPc.refs p
  | .post p => PostPc.refs p
  | _ => 1

def Role.refs : Role → ℕ
  | .none => 0
  | .acc p => AccOn.refs p
  | .work p => WorkPc.refs p
  | .rel _ => 0

def ApiPc.refs : ApiPc → ℕ
  | .enter _ | .request => 0
  | _ => 1

/-- The references a thread holds. -/
def LV.refs (l : LV) : ℕ := Role.refs l.role + (l.api.elim 0 fun x => ApiPc.refs x.2)

/-- The references that are with no thread. -/
def View.refs (V : View) : ℕ := V.ios.length + (V.jobs.map Job.refs).sum

/-- All references to a session. -/
def refs (S : Slot τ) : ℕ := View.refs S.V + ∑ t, LV.refs (S.L t)

/-- The count agrees. -/
def Counted (S : Slot τ) : Prop := S.V.s.ioCount = refs S

variable {k : ℕ} {e : Ev} {V V' : View} {l l' : LV}

lemma cancelAll_length (s : Sock) (ios : List IoReq) : (cancelAll s ios).length = ios.length := by
  simp [cancelAll]

/-- A step moves `ioCount` and the references alike, except that a worker which skips a
`RELEASE` job goes on to a decrement that nobody has paid for. -/
lemma sstep_refs (h : SStep k e V l V' l') (he : e ≠ .skipRelease) :
    V'.s.ioCount + View.refs V + LV.refs l = V.s.ioCount + View.refs V' + LV.refs l' := by
  cases h
  case entrySkipRelease => exact absurd rfl he
  case chkID c _ => cases c <;> rfl
  case entryPass j _ _ => cases j <;> rfl
  case entrySkip j hj _ =>
    cases j
    case release => exact absurd rfl hj
    all_goals rfl
  case gqcs hj =>
    simp only [View.refs, LV.refs, Role.refs, WorkPc.refs, hj, List.map_cons, List.sum_cons,
      Option.elim]
    omega
  all_goals
    simp only [View.refs, LV.refs, Role.refs, AccOn.refs, WorkPc.refs, SendPc.refs, PostPc.refs,
      ApiPc.refs, Job.refs, cancelAll_length, List.map_append, List.sum_append, List.map_cons,
      List.map_nil, List.sum_cons, List.sum_nil, List.length_append, List.length_cons,
      List.length_nil, Option.elim]
  all_goals omega

lemma next_counted {S S' : Slot τ} (h : Next k e S S') (he : e ≠ .skipRelease)
    (hb : Counted S) : Counted S' := by
  cases h with
  | @thread e V L V' l' t h =>
    obtain ⟨n, h1, h2⟩ := sum_split LV.refs L t
    have := sstep_refs h he
    simp only [Counted, refs, h1, h2] at hb ⊢
    omega
  | @complete V L io n d hio =>
    have hj : Job.refs (IoReq.done io n d) = 1 := by
      simp only [IoReq.done]
      split <;> rfl
    have := List.length_erase_of_mem hio
    have := List.length_pos_of_mem hio
    simp only [Counted, refs, View.refs, List.map_append, List.sum_append, List.map_cons,
      List.map_nil, List.sum_cons, List.sum_nil, hj] at hb ⊢
    omega

variable {b : Boot} {a : τ} {w : τ → Bool} {c : Config τ} {bad : List Ev}

/-- In runs without a skipped `RELEASE` job `ioCount` counts the references. -/
theorem reach_counted (hok : .ok ∉ bad) (hr : .skipRelease ∈ bad)
    (h : Reach step (avoids bad) (boot b a w) c) : Counted (slot c k) := by
  refine slot_inv (I := Counted) hok (fun S hf => ?_) (fun c e S' _ hb he hn => ?_) h
  · simp [Counted, refs, View.refs, hf.ioCount, hf.ios, hf.jobs, hf.idle, LV.refs, Role.refs]
  · exact next_counted hn (fun h => he (h ▸ hr)) hb

/-! ### The count is exact -/

/-- The thread has taken a `RELEASE` job for slot `k`, or is in `ReleaseSession` on it. -/
def Releasing (k : ℕ) (pc : Pc) : Prop :=
  pc = .work k (.entry .release) ∨ ∃ p a, pc = .rel k p a

lemma contentsStep_sess {m m' : Mem} {l l' : Local} {ch : Choice}
    (h : contentsStep m l ch = some (m', l')) : m'.sess = m.sess ∧ l'.pc = l.pc := by
  revert h
  fun_cases contentsStep m l ch <;>
    try simp only [Option.some.injEq, Prod.mk.injEq, reduceCtorEq, false_implies, and_imp]
  case case1 p =>
    simp only [allocPacket]
    split <;> simp only [Option.some.injEq, Prod.mk.injEq, reduceCtorEq, false_implies, and_imp]
    rintro rfl rfl
    exact ⟨rfl, rfl⟩
  case case2 p _ =>
    intro h
    obtain ⟨rfl, rfl⟩ := Prod.mk.inj h
    refine ⟨rfl, ?_⟩
    split <;> rfl
  all_goals
    rintro rfl rfl
    exact ⟨rfl, rfl⟩

/-- `ReleaseSession` leaves `ioCount` alone. -/
lemma relStep_ioCount {m m' : Mem} {l l' : Local} {i : ℕ} {x : Bool} {p : RelPc} {ch : Choice}
    (hp : l.pc = .rel i p x) (h : relStep m l i x p ch = some (m', l')) :
    (m'.sess i).ioCount = (m.sess i).ioCount ∧ (Releasing i l'.pc ∨ l'.pc = relBack x) := by
  revert h
  fun_cases relStep m l i x p ch <;>
    try simp only [Option.some.injEq, Prod.mk.injEq, reduceCtorEq, false_implies, and_imp]
  case case5 | case7 =>
    intro h
    obtain ⟨rfl, rfl⟩ := Prod.mk.inj h
    refine ⟨rfl, .inl (.inr ?_)⟩
    split <;> exact ⟨_, _, rfl⟩
  case case12 =>
    intro h
    obtain ⟨hs, hl⟩ := contentsStep_sess h
    exact ⟨by rw [hs], .inl (.inr ⟨_, _, hl.trans hp⟩)⟩
  all_goals
    rintro rfl rfl
    first
      | exact ⟨rfl, .inr rfl⟩
      | exact ⟨rfl, .inl (.inr ⟨_, _, rfl⟩)⟩
      | exact ⟨by simp [Mem.onSess, Mem.onHist], .inl (.inr ⟨_, _, rfl⟩)⟩

/-- `ioCount` of slot `k` is the number of outstanding references and is not below zero. -/
def CountExact (c : Config τ) (k : ℕ) : Prop :=
  (c.mem.sess k).ioCount = refs (slot c k) ∧ 0 ≤ (c.mem.sess k).ioCount

/-- The step `x` of thread `t` is neutral: if the thread is handling a `RELEASE` job for slot
`k`, the step leaves `ioCount` alone and the thread goes on in `ReleaseSession` or is back at
the top of its loop, without the decrement of the worker. -/
def ReleaseNeutral (c : Config τ) (k : ℕ) (t : τ) (x : Choice) : Prop :=
  ∀ c', (c.loc t).drop = none → (c.loc t).api = .idle → Releasing k (c.loc t).pc →
    step c (.run t x) = some c' →
    (c'.mem.sess k).ioCount = (c.mem.sess k).ioCount ∧
      (Releasing k (c'.loc t).pc ∨ ∃ y, (c'.loc t).pc = relBack y)

omit [Fintype τ] in
lemma releaseNeutral {t : τ} {x : Choice} (hx : avoids [.skipRelease] c (.run t x)) :
    ReleaseNeutral c k t x := by
  intro c' hd ha hp h
  simp only [step, Option.map_eq_some_iff] at h
  obtain ⟨⟨m', l'⟩, h, rfl⟩ := h
  simp only [Function.update_self]
  rcases hp with hp | ⟨p, y, hp⟩
  · have hs : (c.mem.sess k).socket ≠ invalidSocket := by
      intro hs
      simp [avoids, ev, label, hd, ha, hp, hs] at hx
    simp only [lstep, hd, ha, hp] at h
    cases x <;> simp only [workStep, reduceCtorEq] at h
    rw [if_pos ⟨by decide, hs⟩] at h
    obtain ⟨rfl, rfl⟩ := Prod.mk.inj (Option.some.inj h)
    exact ⟨rfl, .inl (.inr ⟨_, _, rfl⟩)⟩
  · simp only [lstep, hd, ha, hp] at h
    obtain ⟨hio, hpc⟩ := relStep_ioCount hp h
    exact ⟨hio, hpc.imp id fun h => ⟨y, h⟩⟩

/-- **`ioCount` is exact.** In every run in which no worker takes a `RELEASE` job for a slot
whose `socket` is `INVALID_SOCKET`, `ioCount` of every slot is the number of outstanding
references and never below zero, and handling a `RELEASE` job does not change it. -/
theorem count_exact (h : Reach step (avoids [.skipRelease]) (boot b a w) c) :
    (∀ k, CountExact c k) ∧
      ∀ k t x, avoids [.skipRelease] c (.run t x) → ReleaseNeutral c k t x := by
  refine ⟨fun k => ?_, fun k t x => releaseNeutral⟩
  have hc := reach_counted (k := k) (by decide) (by decide) h
  refine ⟨hc, ?_⟩
  rw [show (c.mem.sess k).ioCount = _ from hc]
  exact Int.natCast_nonneg _

/-- A session with a receive posted and a `Disconnect` in progress. -/
theorem count_exact_accepted : ∃ c, Reach step (avoids [.skipRelease]) crew c ∧
    (c.mem.sess 0).ioCount = 2 ∧ (∀ k, CountExact c k) := by
  obtain ⟨c, hr, hp⟩ := reach_avoids (B := [.skipRelease]) (b := crew)
    (accepted 0x1A4 ++ [.run 3 (.disconnect firstID), .run 3 .tick])
    (p := fun c => decide ((c.mem.sess 0).ioCount = 2)) (by decide +kernel)
  exact ⟨c, hr, of_decide_eq_true hp, (count_exact hr).1⟩

/-- The receive of a session that `Disconnect` has cancelled. -/
def cancelledRecv (h : Sock) : IoReq := ⟨0, 0, 1, false, h, recvCap, true, true⟩

/-- A client on `h` is disconnected; the worker that handles the cancelled receive and the
`LeaveSession` of `Disconnect` take the count to zero, and a `RELEASE` job is posted. -/
def disconnected (h : Sock) : List (Act (Fin 4)) :=
  accepted h ++ [.run 3 (.disconnect firstID)] ++ ticks 3 5 ++
    [.complete (cancelledRecv h) 0 []] ++ ticks 1 3 ++ ticks 3 1 ++ [.run 3 (.ans true)]

/-- On a handle whose upper half is all ones the exchange of `Disconnect` leaves
`INVALID_SOCKET`, and the worker that takes the `RELEASE` job skips it and decrements. -/
theorem count_below_zero : ¬∀ c, Reach step (fun _ _ => True) crew c → ∀ k, CountExact c k := by
  intro h
  obtain ⟨c, hr, hp⟩ := reach_free (b := crew) (disconnected 0xFFFFFFFF80000004 ++ ticks 1 3)
    (p := fun c => decide ((c.mem.sess 0).ioCount = -1)) (by decide +kernel)
  have h0 := (h c hr 0).2
  have h1 := of_decide_eq_true hp
  omega

end LoginServerChat.SlotRefs
