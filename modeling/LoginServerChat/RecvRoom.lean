import LoginServerChat.AcceptBooks
import LoginServerChat.SlotRecv

/-!
The receives of a slot beside the other threads. A session has one receive at a time, posted, completed
or with a worker, and while a worker has it nobody else is at `recvQ`: the buffers that are posted stay
free until the receive is moved in, and what the worker has peeked at is what it takes out.
-/

namespace LoginServerChat.RecvRoom

open NetPacket NetState NetStep SlotStep SlotView SlotRun SlotRefs SlotPhase SlotLive SlotJoin SlotRecv
  AcceptBooks Runs

/-- The slot whose received bytes a thread has in hand, and where it is with them. -/
def receiving : Pc → Option (ℕ × WorkPc)
  | .work i (.recv p) => some (i, .recv p)
  | .work i (.entry (.recvDone d s)) => some (i, .entry (.recvDone d s))
  | _ => none

/-- What a step may leave posted: a receive that is new has buffers for what is free in `recvQ`. -/
def Posts (m m' : Mem) : Prop :=
  ∀ io' ∈ m'.inflight, (∃ io ∈ m.inflight, io'.slot = io.slot ∧ io'.send = io.send ∧ io'.len = io.len) ∨
    io'.send = true ∨ io'.len = freeSize m io'.slot

/-- The step takes in no bytes. -/
structure Apart (m m' : Mem) : Prop where
  recvQ : ∀ k, (m'.sess k).recvQ = (m.sess k).recvQ
  jobs : ∀ k d s, (k, .recvDone d s) ∈ m'.queue ↔ (k, .recvDone d s) ∈ m.queue
  ios : Posts m m'

variable {m m' : Mem} {l l' : Local} {i : ℕ} {ch : Choice}

lemma Posts.same (h : m'.inflight = m.inflight) : Posts m m' :=
  fun io hio => .inl ⟨io, h ▸ hio, rfl, rfl, rfl⟩

lemma Apart.of_eq (hs : ∀ k, (m'.sess k).recvQ = (m.sess k).recvQ) (hq : m'.queue = m.queue)
    (hi : m'.inflight = m.inflight) : Apart m m' :=
  ⟨hs, fun _ _ _ => by rw [hq], .same hi⟩

lemma recvQ_update {s : Session} (hs : m'.sess = Function.update m.sess i s) (hr : s.recvQ = (m.sess i).recvQ)
    (k : ℕ) : (m'.sess k).recvQ = (m.sess k).recvQ := by
  rw [hs]
  by_cases hk : k = i
  · subst hk
    rw [Function.update_self, hr]
  · rw [Function.update_of_ne hk]

lemma Apart.update {s : Session} (hs : m'.sess = Function.update m.sess i s) (hr : s.recvQ = (m.sess i).recvQ)
    (hq : m'.queue = m.queue) (hi : m'.inflight = m.inflight) : Apart m m' :=
  .of_eq (recvQ_update hs hr) hq hi

lemma Apart.enqueue {j : Job} (hj : Job.recvs j = 0) : Apart m (m.enqueue i j) := by
  refine ⟨fun _ => rfl, fun k d s => ⟨fun h => ?_, List.mem_append_left _⟩, .same rfl⟩
  rcases List.mem_append.mp h with h | h
  · exact h
  · obtain ⟨-, rfl⟩ := Prod.mk.inj (List.mem_singleton.mp h)
    cases hj

lemma Posts.cancel {s : Sock} : Posts m (m.cancelIoEx s) := by
  intro io' hio
  obtain ⟨io, hmem, rfl⟩ := List.mem_map.mp hio
  refine .inl ⟨io, hmem, ?_⟩
  split <;> exact ⟨rfl, rfl, rfl⟩

lemma Posts.post {n : Mem} {send pnd : Bool} {s : Sock} {len : ℕ} (hn : n.inflight = m.inflight)
    (h : send = true ∨ len = freeSize m i) : Posts m (n.postIo i send s len pnd) := by
  intro io' hio
  rcases List.mem_append.mp hio with hio | hio
  · exact .inl ⟨io', hn ▸ hio, rfl, rfl, rfl⟩
  · obtain rfl := List.mem_singleton.mp hio
    exact .inr h

/-- A step that is not one of the receive loop. -/
def Aside (m : Mem) (l : Local) (m' : Mem) (l' : Local) : Prop := Apart m m' ∧ receiving l'.pc = receiving l.pc

/-- The step is one on packets. -/
structure Calm (m m' : Mem) : Prop where
  sess : m'.sess = m.sess
  queue : m'.queue = m.queue
  inflight : m'.inflight = m.inflight

lemma Calm.apart (h : Calm m m') : Apart m m' := .of_eq (fun _ => by rw [h.sess]) h.queue h.inflight

lemma allocPacket_calm {p : ℕ} (h : allocPacket m l p = some (m', l')) : Calm m m' ∧ l'.pc = l.pc := by
  unfold allocPacket at h
  split at h
  · obtain ⟨rfl, rfl⟩ := Prod.mk.inj (Option.some.inj h)
    exact ⟨⟨rfl, rfl, rfl⟩, rfl⟩
  · cases h

lemma freePacket_calm {n : Mem} {p : ℕ} (h : freePacket n l p = (m', l')) (hn : Calm m n) :
    Calm m m' ∧ l'.pc = l.pc := by
  refine ⟨?_, (freePacket_books h).2⟩
  obtain ⟨rfl, -⟩ := Prod.mk.inj h
  exact ⟨hn.sess, hn.queue, hn.inflight⟩

lemma contentsStep_calm (h : contentsStep m l ch = some (m', l')) : Calm m m' ∧ l'.pc = l.pc := by
  refine ⟨?_, (contentsStep_books h).2⟩
  revert h
  fun_cases contentsStep m l ch
  case case1 => exact fun h => (allocPacket_calm h).1
  all_goals
    intro h
    simp only [Option.some.injEq, Prod.mk.injEq, reduceCtorEq] at h
  case case2 => exact (freePacket_calm h ⟨rfl, rfl, rfl⟩).1
  all_goals
    obtain ⟨rfl, rfl⟩ := h
    exact ⟨rfl, rfl, rfl⟩

lemma apiStep_apart {id : SessionID} {p : ApiPc} (h : apiStep m l i id p ch = some (m', l')) :
    Apart m m' ∧ l'.pc = l.pc := by
  refine ⟨?_, (apiStep_books h).2⟩
  revert h
  fun_cases apiStep m l i id p ch
  all_goals
    intro h
    simp only [Option.some.injEq, Prod.mk.injEq, reduceCtorEq] at h
  all_goals obtain ⟨rfl, -⟩ := h
  case case11 | case18 => exact .enqueue rfl
  all_goals first
    | exact .of_eq (fun _ => rfl) rfl rfl
    | exact .update rfl rfl rfl rfl
    | exact ⟨fun _ => rfl, fun _ _ _ => Iff.rfl, .cancel⟩

lemma Aside.of_calm (h : Calm m m' ∧ l'.pc = l.pc) : Aside m l m' l' := ⟨h.1.apart, congrArg receiving h.2⟩

lemma Aside.of_pc (h : Apart m m' ∧ l'.pc = l.pc) : Aside m l m' l' := ⟨h.1, congrArg receiving h.2⟩

lemma sendStep_aside {p : SendPc} (hp : l.pc = .work i (.send p)) (h : sendStep m l i p ch = some (m', l')) :
    Aside m l m' l' := by
  have hnone : receiving l.pc = none := by rw [hp]; rfl
  revert h
  fun_cases sendStep m l i p ch
  all_goals
    intro h
    simp only [Option.some.injEq, Prod.mk.injEq, reduceCtorEq] at h
  all_goals
    obtain ⟨rfl, rfl⟩ := h
    refine ⟨?_, hnone.symm⟩
  all_goals first
    | exact .of_eq (fun _ => rfl) rfl rfl
    | exact .update rfl rfl rfl rfl
    | exact ⟨fun _ => rfl, fun _ _ _ => Iff.rfl, .cancel⟩
    | exact ⟨fun _ => rfl, fun _ _ _ => Iff.rfl, .post rfl (.inl rfl)⟩

lemma postStep_aside {p : PostPc} (hp : l.pc = .work i (.post p)) (h : postStep m l i p ch = some (m', l')) :
    Aside m l m' l' := by
  have hnone : receiving l.pc = none := by rw [hp]; rfl
  revert h
  fun_cases postStep m l i p ch
  all_goals
    intro h
    simp only [Option.some.injEq, Prod.mk.injEq, reduceCtorEq] at h
  all_goals
    obtain ⟨rfl, rfl⟩ := h
    refine ⟨?_, hnone.symm⟩
  all_goals first
    | exact .of_eq (fun _ => rfl) rfl rfl
    | exact .update rfl rfl rfl rfl
    | exact ⟨fun _ => rfl, fun _ _ _ => Iff.rfl, .cancel⟩
    | exact ⟨fun _ => rfl, fun _ _ _ => Iff.rfl, .post rfl (.inr rfl)⟩

lemma relBack_receiving (x : Bool) : receiving (relBack x) = none := by cases x <;> rfl

lemma relStep_aside {p : RelPc} {x : Bool} (hp : l.pc = .rel i p x) (h : relStep m l i x p ch = some (m', l')) :
    Aside m l m' l' := by
  have hnone : receiving l.pc = none := by rw [hp]; rfl
  revert h
  fun_cases relStep m l i x p ch
  case case12 => exact fun h => .of_calm (contentsStep_calm h)
  all_goals
    intro h
    simp only [Option.some.injEq, Prod.mk.injEq, reduceCtorEq] at h
  case case5 | case7 =>
    obtain ⟨h1, h2⟩ := freePacket_calm (m := m) h ⟨rfl, rfl, rfl⟩
    exact ⟨h1.apart, by rw [h2, hnone]; rfl⟩
  all_goals obtain ⟨rfl, rfl⟩ := h
  case case2 | case14 => exact ⟨.of_eq (fun _ => rfl) rfl rfl, (relBack_receiving x).trans hnone.symm⟩
  all_goals
    refine ⟨?_, hnone.symm⟩
    first
      | exact .of_eq (fun _ => rfl) rfl rfl
      | exact .update rfl rfl rfl rfl

lemma acceptStep_aside {p : AccPc} (hp : l.pc = .acc p) (h : acceptStep m l p ch = some (m', l')) :
    Aside m l m' l' := by
  have hnone : receiving l.pc = none := by rw [hp]; rfl
  revert h
  fun_cases acceptStep m l p ch
  case case8 => exact fun h => .of_calm (contentsStep_calm h)
  all_goals
    intro h
    simp only [Option.some.injEq, Prod.mk.injEq, reduceCtorEq] at h
  all_goals obtain ⟨rfl, rfl⟩ := h
  case case12 => exact .of_pc ⟨.of_eq (fun _ => rfl) rfl rfl, rfl⟩
  all_goals exact ⟨.of_eq (fun _ => rfl) rfl rfl, hnone.symm⟩

/-- The accept thread empties `recvQ` when it prepares the slot. -/
lemma accOnStep_aside {p : AccOn} (hp : l.pc = .accOn i p) (h : accOnStep m l i p ch = some (m', l')) :
    Aside m l m' l' ∨ ∃ s, p = .init s .recvQ ∧ m' = m.onSess i (fun s => { s with recvQ := [] }) ∧
      receiving l'.pc = none := by
  have hnone : receiving l.pc = none := by rw [hp]; rfl
  revert h
  fun_cases accOnStep m l i p ch
  case case6 => exact fun h => .inl (.of_calm (contentsStep_calm h))
  all_goals
    intro h
    simp only [Option.some.injEq, Prod.mk.injEq, reduceCtorEq] at h
  case case1 s p =>
    cases p
    case recvQ =>
      obtain ⟨rfl, rfl⟩ := Prod.mk.inj h
      exact .inr ⟨s, rfl, rfl, rfl⟩
    all_goals
      obtain ⟨rfl, rfl⟩ := Prod.mk.inj h
      exact .inl ⟨.update rfl rfl rfl rfl, hnone.symm⟩
  all_goals
    obtain ⟨rfl, rfl⟩ := h
    refine .inl ⟨?_, hnone.symm⟩
    first
      | exact .of_eq (fun _ => rfl) rfl rfl
      | exact .update rfl rfl rfl rfl
      | exact ⟨fun _ => rfl, fun _ _ _ => Iff.rfl, .cancel⟩
      | exact ⟨fun _ => rfl, fun _ _ _ => Iff.rfl, .post rfl (.inr rfl)⟩

/-- A step of a thread, as the receives see it. -/
inductive Takes (m : Mem) (l : Local) (m' : Mem) (l' : Local) (ch : Choice) : Prop
  | aside (h : Aside m l m' l')
  | clear (i : ℕ) (s : Sock) (hp : l.pc = .accOn i (.init s .recvQ))
      (hm : m' = m.onSess i fun s => { s with recvQ := [] }) (hp' : receiving l'.pc = none)
  | take (i : ℕ) (d : List UInt8) (s : ℕ) (q : List (ℕ × Job)) (hq : m.queue = (i, .recvDone d s) :: q)
      (hm : m' = { m with queue := q }) (hp : receiving l.pc = none)
      (hp' : l'.pc = .work i (.entry (.recvDone d s)))
  | pass (i : ℕ) (d : List UInt8) (s : ℕ) (hp : l.pc = .work i (.entry (.recvDone d s))) (hm : m' = m)
      (hs : (m.sess i).socket ≠ invalidSocket) (hp' : l'.pc = .work i (.recv (.moveRear d s)))
  | skip (i : ℕ) (d : List UInt8) (s : ℕ) (hp : l.pc = .work i (.entry (.recvDone d s))) (hm : m' = m)
      (hs : d = [] ∨ (m.sess i).socket = invalidSocket) (hp' : receiving l'.pc = none)
  | recv (i : ℕ) (p : RecvPc) (hd : l.drop = none) (ha : l.api = .idle) (hp : l.pc = .work i (.recv p))
      (h : recvStep m l i p ch = some (m', l'))

lemma workStep_takes {p : WorkPc} (hd : l.drop = none) (ha : l.api = .idle) (hp : l.pc = .work i p)
    (h : workStep m l i p ch = some (m', l')) : Takes m l m' l' ch := by
  revert h
  fun_cases workStep m l i p ch
  case case8 => exact fun h => .aside (sendStep_aside hp h)
  case case9 => exact .recv i _ hd ha hp
  case case10 => exact fun h => .aside (postStep_aside hp h)
  all_goals
    intro h
    simp only [Option.some.injEq, Prod.mk.injEq, reduceCtorEq] at h
  case case5 =>
    obtain ⟨h1, h2⟩ := freePacket_calm (m := m) h ⟨rfl, rfl, rfl⟩
    exact .aside ⟨h1.apart, by rw [h2, hp]; rfl⟩
  all_goals obtain ⟨rfl, rfl⟩ := h
  case case1 j hj =>
    have hA : Apart m m := .of_eq (fun _ => rfl) rfl rfl
    cases j with
    | recvDone d s => exact .pass i d s hp rfl hj.2 rfl
    | _ => exact .aside ⟨hA, by rw [hp]; rfl⟩
  case case2 j hj =>
    cases j with
    | recvDone d s =>
      refine .skip i d s hp rfl ?_ rfl
      rw [not_and_or, not_not, not_not] at hj
      exact hj.imp List.length_eq_zero_iff.mp id
    | _ => exact .aside ⟨.of_eq (fun _ => rfl) rfl rfl, by rw [hp]; rfl⟩
  all_goals
    refine .aside ⟨?_, by rw [hp]; rfl⟩
    first
      | exact .of_eq (fun _ => rfl) rfl rfl
      | exact .update rfl rfl rfl rfl

/-- **A step of the server on the receives.** -/
theorem lstep_takes (h : lstep m l ch = some (m', l')) : Takes m l m' l' ch := by
  unfold lstep at h
  split at h
  case h_1 =>
    split at h
    · obtain ⟨rfl, rfl⟩ := Prod.mk.inj (Option.some.inj h)
      exact .aside (.of_pc ⟨.of_eq (fun _ => rfl) rfl rfl, rfl⟩)
    · cases h
  case h_2 hd =>
    split at h
    case h_1 => exact .aside (.of_pc (apiStep_apart h))
    case h_2 ha =>
      split at h
      case h_1 => exact .aside (.of_calm (contentsStep_calm h))
      case h_2 hp => exact .aside (acceptStep_aside hp h)
      case h_3 i p hp =>
        rcases accOnStep_aside hp h with h | ⟨s, rfl, hm, hp'⟩
        · exact .aside h
        · exact .clear i s hp hm hp'
      case h_4 hp =>
        split at h
        case h_1 i j q hq =>
          obtain ⟨rfl, rfl⟩ := Prod.mk.inj (Option.some.inj h)
          cases j with
          | recvDone d s => exact .take i d s q hq rfl (by rw [hp]; rfl) rfl
          | _ =>
            refine .aside ⟨⟨fun _ => rfl, fun _ _ _ => by simp [hq], .same rfl⟩, ?_⟩
            rw [hp]
            rfl
        case h_2 => cases h
      case h_5 hp => exact workStep_takes hd ha hp h
      case h_6 hp => exact .aside (relStep_aside hp h)

/-! ### The room -/

/-- The header at the front of `recvQ`. -/
def front (q : List (UInt8 × ℕ)) : NetHeader := NetHeader.ofBytes ((q.take headerSize).map Prod.fst)

/-- What a worker with received bytes knows of `recvQ`: there is room for the bytes, or it has looked at
the frame at the front. -/
def At (q : List (UInt8 × ℕ)) : WorkPc → Prop
  | .entry (.recvDone d _) | .recv (.moveRear d _) => q.length + d.length ≤ recvCap
  | .recv .peek => headerSize ≤ q.length
  | .recv (.full h) => headerSize ≤ q.length ∧ h = front q ∧ h.code = packetCode
  | .recv (.alloc h) | .recv (.dequeue h _) =>
    headerSize + h.len ≤ q.length ∧ h = front q ∧ h.code = packetCode
  | _ => True

variable {τ : Type*}

/-- What is posted on the slot, completed and in the hands of workers fits into `recvQ`. -/
structure Roomy (c : Config τ) (k : ℕ) : Prop where
  used : (c.mem.sess k).recvQ.length ≤ recvCap
  ios : ∀ io ∈ c.mem.inflight, io.slot = k → io.send = false →
    (c.mem.sess k).recvQ.length + io.len ≤ recvCap
  jobs : ∀ d s, (k, .recvDone d s) ∈ c.mem.queue → (c.mem.sess k).recvQ.length + d.length ≤ recvCap
  at' : ∀ t w, receiving (c.loc t).pc = some (k, w) → At (c.mem.sess k).recvQ w

/-- What the step of a worker at `recvQ` leaves. -/
structure Parsed (k : ℕ) (m m' : Mem) (l' : Local) : Prop where
  others : ∀ j ≠ k, (m'.sess j).recvQ = (m.sess j).recvQ
  queue : m'.queue = m.queue
  inflight : m'.inflight = m.inflight
  used : (m'.sess k).recvQ.length ≤ recvCap
  at' : ∀ w, receiving l'.pc = some (k, w) → At (m'.sess k).recvQ w
  here : ∀ j w, receiving l'.pc = some (j, w) → j = k

lemma recvQ_ne {s : Session} (hs : m'.sess = Function.update m.sess i s) (j : ℕ) (hj : j ≠ i) :
    (m'.sess j).recvQ = (m.sess j).recvQ := by rw [hs, Function.update_of_ne hj]

lemma recvQ_self {s : Session} (hs : m'.sess = Function.update m.sess i s) : (m'.sess i).recvQ = s.recvQ := by
  rw [hs, Function.update_self]

lemma receiving_work {l : Local} {w x : WorkPc} {j : ℕ} (hp : l.pc = .work i w)
    (h : receiving l.pc = some (j, x)) : j = i ∧ x = w := by
  rw [hp] at h
  unfold receiving at h
  split at h
  case h_3 => cases h
  all_goals
    rename_i he
    obtain ⟨rfl, rfl⟩ := Pc.work.inj he
    obtain ⟨rfl, rfl⟩ := Prod.mk.inj (Option.some.inj h)
    exact ⟨rfl, rfl⟩

lemma Parsed.of_work {w : WorkPc} (hp : l'.pc = .work i w) (hs : ∀ j ≠ i, (m'.sess j).recvQ = (m.sess j).recvQ)
    (hq : m'.queue = m.queue) (hi : m'.inflight = m.inflight) (hu : (m'.sess i).recvQ.length ≤ recvCap)
    (hA : At (m'.sess i).recvQ w) : Parsed i m m' l' := by
  refine ⟨hs, hq, hi, hu, fun x hx => ?_, fun j x hx => (receiving_work hp hx).1⟩
  obtain rfl := (receiving_work hp hx).2
  exact hA

/-- Steps that only look at `recvQ`. -/
lemma Parsed.of_calm {w : WorkPc} (hp : l'.pc = .work i w) (h : Calm m m') (hu : (m.sess i).recvQ.length ≤ recvCap)
    (hA : At (m.sess i).recvQ w) : Parsed i m m' l' :=
  .of_work hp (fun _ _ => by rw [h.sess]) h.queue h.inflight (h.sess ▸ hu) (h.sess ▸ hA)

lemma recvStep_parsed {p : RecvPc} (hp : l.pc = .work i (.recv p)) (hu : (m.sess i).recvQ.length ≤ recvCap)
    (hA : At (m.sess i).recvQ (.recv p)) (h : recvStep m l i p ch = some (m', l')) : Parsed i m m' l' := by
  revert h hA
  fun_cases recvStep m l i p ch
  case case9 =>
    intro hA h
    obtain ⟨h1, h2⟩ := allocPacket_calm h
    exact .of_calm h2 h1 hu hA
  case case16 =>
    intro hA h
    obtain ⟨h1, h2⟩ := contentsStep_calm h
    exact .of_calm (h2.trans hp) h1 hu hA
  all_goals
    intro hA h
    simp only [Option.some.injEq, Prod.mk.injEq, reduceCtorEq] at h
  case case17 | case18 =>
    obtain ⟨h1, h2⟩ := freePacket_calm (m := m) h ⟨rfl, rfl, rfl⟩
    exact .of_calm h2 h1 hu trivial
  all_goals obtain ⟨rfl, rfl⟩ := h
  case case1 hfit =>
    refine .of_work rfl (recvQ_ne rfl) rfl rfl ?_ trivial
    rw [recvQ_self rfl, List.length_append, List.length_map]
    exact hfit
  case case4 hlen => exact .of_calm rfl ⟨rfl, rfl, rfl⟩ hu (not_lt.mp hlen)
  case case6 hcode => exact .of_calm rfl ⟨rfl, rfl, rfl⟩ hu ⟨hA, rfl, not_not.mp hcode⟩
  case case8 hlen => exact .of_calm rfl ⟨rfl, rfl, rfl⟩ hu ⟨not_lt.mp hlen, hA.2⟩
  case case10 =>
    refine .of_work rfl (recvQ_ne rfl) rfl rfl ?_ trivial
    rw [recvQ_self rfl, List.length_drop]
    exact Nat.le_trans (Nat.sub_le ..) hu
  all_goals exact .of_calm rfl ⟨rfl, rfl, rfl⟩ hu trivial

/-! ### One receive at a time -/

section Alone

variable [DecidableEq τ] [Fintype τ] {c : Config τ} {k : ℕ} {t : τ}

omit [DecidableEq τ] [Fintype τ] in
lemma recvs_of_receiving {l : Local} {w : WorkPc} (h : receiving l.pc = some (k, w)) :
    LV.recvs (lview l k) = 1 := by
  unfold receiving at h
  split at h
  case h_3 => cases h
  all_goals
    rename_i hp
    obtain ⟨rfl, rfl⟩ := Prod.mk.inj (Option.some.inj h)
    simp [LV.recvs, lview, hp, pcRole, Role.recvs, Job.recvs]

/-- Nobody but a thread has a receive of the slot. -/
structure Alone (c : Config τ) (k : ℕ) (t : τ) : Prop where
  ios : ∀ io ∈ c.mem.inflight, io.slot = k → io.send = true
  jobs : ∀ d s, (k, .recvDone d s) ∉ c.mem.queue
  others : ∀ u ≠ t, ∀ w, receiving (c.loc u).pc ≠ some (k, w)

lemma alone_of_recvs (h : recvs (slot c k) ≤ 1) (ht : 0 < LV.recvs (lview (c.loc t) k)) : Alone c k t := by
  have hle : LV.recvs (lview (c.loc t) k) ≤ ∑ u, LV.recvs ((slot c k).L u) :=
    Finset.single_le_sum (f := fun u => LV.recvs ((slot c k).L u)) (fun _ _ => Nat.zero_le _) (Finset.mem_univ t)
  unfold recvs at h
  have hV : View.recvs (slot c k).V = 0 := by omega
  simp only [View.recvs, Nat.add_eq_zero_iff, List.sum_eq_zero_iff, List.mem_map, forall_exists_index, and_imp,
    forall_apply_eq_imp_iff₂] at hV
  obtain ⟨hios, hjobs⟩ := hV
  refine ⟨fun io hio hs => ?_, fun d s hj => ?_, fun u hu w hw => ?_⟩
  · have := hios io (List.mem_filter.mpr ⟨hio, decide_eq_true hs⟩)
    unfold IoReq.recvs at this
    split at this
    · assumption
    · cases this
  · exact Nat.one_ne_zero (hjobs _ (SlotRelease.mem_jobs.mpr hj))
  · have h0 := eq_zero_of_sum_le (f := fun u => LV.recvs ((slot c k).L u)) (t := t)
      (Nat.le_trans (Nat.le_trans (Nat.le_add_left _ _) h) ht) hu
    exact Nat.one_ne_zero ((recvs_of_receiving hw).symm.trans h0)

end Alone

section Reach

variable [DecidableEq τ] [Fintype τ] {b : Boot} {a : τ} {w : τ → Bool} {c c' : Config τ} {bad : List Ev} {k : ℕ}

lemma reach_alone (hok : .ok ∉ bad) (hskip : .skipRelease ∈ bad) (hr : Reach step (avoids bad) (boot b a w) c)
    {t : τ} (ht : 0 < LV.recvs (lview (c.loc t) k)) : Alone c k t := by
  refine alone_of_recvs (Nat.le_trans (reach_recvs hok hskip hr) ?_) ht
  unfold View.busy
  split <;> omega

omit [Fintype τ] in
/-- A step that leaves `recvQ` of the slot alone. -/
lemma Roomy.aside {t : τ} {m : Mem} {l : Local} (hi : Roomy c k) (hq : (m.sess k).recvQ = (c.mem.sess k).recvQ)
    (hj : ∀ d s, (k, .recvDone d s) ∈ m.queue → (k, .recvDone d s) ∈ c.mem.queue) (hio : Posts c.mem m)
    (hl : ∀ w, receiving l.pc = some (k, w) → At (c.mem.sess k).recvQ w) :
    Roomy ⟨m, Function.update c.loc t l⟩ k := by
  obtain ⟨h1, h2, h3, h4⟩ := hi
  refine ⟨hq.symm ▸ h1, fun io' hmem hs hsend => ?_, fun d s h => hq.symm ▸ h3 d s (hj d s h), fun u w hw => ?_⟩
  · rw [hq]
    rcases hio io' hmem with ⟨io, hmem, e1, e2, e3⟩ | he | he
    · rw [e3]
      exact h2 io hmem (e1.symm.trans hs) (e2.symm.trans hsend)
    · exact Bool.noConfusion (hsend.symm.trans he)
    · subst hs
      rw [he, freeSize]
      omega
  · rw [hq]
    dsimp only at hw
    by_cases hu : u = t
    · subst hu
      rw [Function.update_self] at hw
      exact hl w hw
    · rw [Function.update_of_ne hu] at hw
      exact h4 u w hw

omit [Fintype τ] in
/-- A step of the thread that has the receive. -/
lemma Roomy.alone {t : τ} {m : Mem} {l : Local} (hA : Alone c k t) (hq : m.queue = c.mem.queue)
    (hi : m.inflight = c.mem.inflight) (hu : (m.sess k).recvQ.length ≤ recvCap)
    (hl : ∀ w, receiving l.pc = some (k, w) → At (m.sess k).recvQ w) :
    Roomy ⟨m, Function.update c.loc t l⟩ k := by
  refine ⟨hu, fun io hmem hs hsend => ?_, fun d s h => absurd (hq ▸ h) (hA.jobs d s), fun u w hw => ?_⟩
  · exact Bool.noConfusion (hsend.symm.trans (hA.ios io (hi ▸ hmem) hs))
  · dsimp only at hw
    by_cases hut : u = t
    · subst hut
      rw [Function.update_self] at hw
      exact hl w hw
    · rw [Function.update_of_ne hut] at hw
      exact absurd hw (hA.others u hut w)

omit [Fintype τ] in
lemma Roomy.act {x : Act τ} (hi : Roomy c k) (hx : ∀ t ch, x ≠ .run t ch) (hs : step c x = some c') :
    Roomy c' k := by
  cases x with
  | run t ch => exact absurd rfl (hx t ch)
  | complete io n d =>
    simp only [step] at hs
    split at hs
    case isFalse => cases hs
    case isTrue h =>
      obtain rfl := Option.some.inj hs
      obtain ⟨h1, h2, h3, h4⟩ := hi
      refine ⟨h1, fun io' hmem => h2 io' (List.mem_of_mem_erase hmem), fun d' s hj => ?_, h4⟩
      rcases List.mem_append.mp hj with hj | hj
      · exact h3 d' s hj
      · obtain ⟨hk, hd⟩ := Prod.mk.inj (List.mem_singleton.mp hj)
        unfold IoReq.done at hd
        split at hd
        · cases hd
        · rename_i hsend
          obtain ⟨rfl, -⟩ := Job.recvDone.inj hd
          have hlen := h.2.resolve_left hsend
          have := h2 io h.1 hk.symm (Bool.eq_false_of_not_eq_true hsend)
          change (c.mem.sess k).recvQ.length + d'.length ≤ recvCap
          omega
  | give t u p =>
    simp only [step] at hs
    split at hs
    case isFalse => cases hs
    case isTrue h =>
      obtain rfl := Option.some.inj hs
      refine ⟨hi.used, hi.ios, hi.jobs, fun v w hw => hi.at' v w ?_⟩
      dsimp only at hw
      by_cases hv : v = u
      · subst hv
        rwa [Function.update_self] at hw
      · rw [Function.update_of_ne hv] at hw
        by_cases hv' : v = t
        · subst hv'
          rwa [Function.update_self] at hw
        · rwa [Function.update_of_ne hv'] at hw

lemma roomy_step (hok : .ok ∉ bad) (hskip : .skipRelease ∈ bad) (hr : Reach step (avoids bad) (boot b a w) c)
    {x : Act τ} (hs : step c x = some c') (hi : ∀ k, Roomy c k) (k : ℕ) : Roomy c' k := by
  by_cases hx : ∀ t ch, x ≠ .run t ch
  · exact (hi k).act hx hs
  push Not at hx
  obtain ⟨t, ch, rfl⟩ := hx
  simp only [step, Option.map_eq_some_iff] at hs
  obtain ⟨⟨m, l⟩, h, rfl⟩ := hs
  cases lstep_takes h with
  | aside h =>
    exact (hi k).aside (h.1.recvQ k) (fun d s => (h.1.jobs k d s).mp) h.1.ios fun w hw => (hi k).at' t w (h.2 ▸ hw)
  | clear i s hp hm hp' =>
    subst hm
    by_cases hk : k = i
    · subst hk
      have hA := reach_alone (k := k) (t := t) hok hskip hr (by simp [LV.recvs, lview, hp, pcRole, Role.recvs])
      refine .alone hA rfl rfl ?_ fun w hw => by cases hp'.symm.trans hw
      simp [Mem.onSess]
    · exact (hi k).aside (recvQ_ne rfl k hk) (fun _ _ h => h) (.same rfl) fun w hw => by cases hp'.symm.trans hw
  | take i d s q hq hm hp hp' =>
    subst hm
    refine (hi k).aside rfl (fun d s h => hq ▸ List.mem_cons_of_mem _ h) (.same rfl) fun w hw => ?_
    obtain ⟨rfl, rfl⟩ := receiving_work hp' hw
    exact (hi k).jobs d s (hq ▸ List.mem_cons_self)
  | pass i d s hp hm _ hp' =>
    subst hm
    refine (hi k).aside rfl (fun _ _ h => h) (.same rfl) fun w hw => ?_
    obtain ⟨rfl, rfl⟩ := receiving_work hp' hw
    exact (hi k).at' t (.entry (.recvDone d s)) (by rw [hp]; rfl)
  | skip i d s hp hm _ hp' =>
    subst hm
    exact (hi k).aside rfl (fun _ _ h => h) (.same rfl) fun w hw => by cases hp'.symm.trans hw
  | recv i p _ _ hp h =>
    have hat : receiving (c.loc t).pc = some (i, .recv p) := by rw [hp]; rfl
    have hP := recvStep_parsed hp (hi i).used ((hi i).at' t _ hat) h
    by_cases hk : k = i
    · subst hk
      have hA := reach_alone (k := k) (t := t) hok hskip hr (by rw [recvs_of_receiving hat]; exact Nat.one_pos)
      exact .alone hA hP.queue hP.inflight hP.used hP.at'
    · refine (hi k).aside (hP.others k hk) (fun d s h => hP.queue ▸ h) (.same hP.inflight) fun w hw => ?_
      exact absurd (hP.here k w hw) hk

/-- **The receives fit.** In every run without a skipped `RELEASE` job. -/
theorem reach_roomy (hok : .ok ∉ bad) (hskip : .skipRelease ∈ bad)
    (hr : Reach step (avoids bad) (boot b a w) c) (k : ℕ) : Roomy c k := by
  refine Reach.inv (I := fun c => ∀ k, Roomy c k) (fun k => ?_)
    (fun c c' x hc hi _ hs => roomy_step hok hskip hc hs hi) hr k
  refine ⟨Nat.zero_le _, fun io hio => (by cases hio), fun d s hj => (by cases hj), fun t v hv => ?_⟩
  have hnone : receiving (if t = a then .acc .accept else if w t then .gqcs else .ext) = none := by
    split
    · rfl
    · split <;> rfl
  cases hnone.symm.trans hv

/-- The receives of slot `k`. What the posted buffers hold is free in `recvQ`, and so are the places that
`MoveRear` is about to take in; a frame that is about to be taken out is what the worker has peeked at, as
a whole; and while a worker is at `recvQ` no receive is posted or completed, nor with another thread. -/
structure ReceivesFit (c : Config τ) (k : ℕ) : Prop where
  posted : ∀ io ∈ c.mem.inflight, io.slot = k → io.send = false →
    (c.mem.sess k).recvQ.length + io.len ≤ recvCap
  moveRear : ∀ t d s, (c.loc t).pc = .work k (.recv (.moveRear d s)) →
    (c.mem.sess k).recvQ.length + d.length ≤ recvCap
  dequeue : ∀ t h p, (c.loc t).pc = .work k (.recv (.dequeue h p)) →
    h = front (c.mem.sess k).recvQ ∧ h.code = packetCode ∧ headerSize + h.len ≤ (c.mem.sess k).recvQ.length
  alone : ∀ t p, (c.loc t).pc = .work k (.recv p) → Alone c k t

/-- **The receives of a session.** In every run in which no worker takes a `RELEASE` job for a slot whose
`socket` is `INVALID_SOCKET`. -/
theorem receives_fit (hr : Reach step (avoids [.skipRelease]) (boot b a w) c) (k : ℕ) : ReceivesFit c k := by
  have hi := reach_roomy (by decide) (by decide) hr k
  refine ⟨hi.ios, fun t d s hp => ?_, fun t h p hp => ?_, fun t p hp => ?_⟩
  · exact hi.at' t (.recv (.moveRear d s)) (by rw [hp]; rfl)
  · obtain ⟨h1, h2, h3⟩ := hi.at' t (.recv (.dequeue h p)) (by rw [hp]; rfl)
    exact ⟨h2, h3, h1⟩
  · have hat : receiving (c.loc t).pc = some (k, .recv p) := by rw [hp]; rfl
    exact reach_alone (by decide) (by decide) hr (by rw [recvs_of_receiving hat]; exact Nat.one_pos)

end Reach

/-- Eight bytes of a frame of nine have come, and then the last one. -/
def twoPieces : List (Act (Fin 4)) :=
  accepted 0x1A4 ++ [.complete ⟨0, 0, 1, false, 0x1A4, recvCap, true, false⟩ 8 [0x77, 4, 0, 7, 1, 2, 3, 4]] ++
    ticks 1 8 ++ [.run 1 (.io .done)] ++ ticks 1 1 ++
    [.complete ⟨1, 0, 1, false, 0x1A4, 9992, false, false⟩ 1 [5]] ++ ticks 1 2

/-- The worker is about to move in the byte. -/
def atMoveRear (c : Config (Fin 4)) : Bool :=
  match (c.loc 1).pc with
  | .work 0 (.recv (.moveRear d _)) => decide (d = [5] ∧ (c.mem.sess 0).recvQ.length = 8)
  | _ => false

theorem receives_fit_pieces : ∃ c, Reach step (avoids [.skipRelease]) crew c ∧ atMoveRear c = true ∧
    ReceivesFit c 0 := by
  obtain ⟨c, hr, hp⟩ := reach_avoids (B := [.skipRelease]) (b := crew) twoPieces (p := atMoveRear)
    (by decide +kernel)
  exact ⟨c, hr, hp, receives_fit hr 0⟩

end LoginServerChat.RecvRoom
