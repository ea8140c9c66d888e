import LoginServerChat.QueueCount

/-!
The emptiness of `CLockFreeQueue`. `Dequeue` takes one from `_size` and looks at what is left; a call
that fails puts it back only later, and an `Enqueue` counts its value only after it has linked it.
While either is pending, `_size` is less than what the queue holds for others.
-/

namespace LoginServerChat.QueueEmpty

open FifoHistory LinkedChain LockFreeQueue QueueInv QueueStep QueueRun QueueOrder Runs

variable {α τ : Type*}

/-- The nodes behind another, up to `_myCode`. -/
def walk (next : ℕ → Option ℕ) : ℕ → ℕ → List ℕ
  | 0, _ => []
  | k + 1, n => match next n with
    | none => []
    | some y => y :: walk next k y

/-- The values behind `_head`; there are no more of them than calls have been logged. -/
def queued (s : Queue τ α) : List (Item α) := (walk s.mem.next s.log.length s.mem.head.addr).map s.mem.data

/-- Every value whose `Enqueue` has returned has been taken, or is one of the first in the queue, of
which each `Dequeue` that has its share of `_size` will take one. -/
def Drained [Fintype τ] (s : Queue τ α) : Prop :=
  ∀ x ∈ rets s.log, x ∈ takes s.log ∨ x ∈ (queued s).take (∑ t, reserved (s.pc t))

/-- A call of `Dequeue` by thread `t` returns false in step `k`. -/
def Fails (S : ℕ → Queue τ α) (t : τ) (k : ℕ) : Prop :=
  (S k).pc t ≠ .idle ∧ (S (k + 1)).pc t = .idle ∧ (S (k + 1)).log = (S k).log ++ [.miss]

/-- At some instant of the call in which thread `t` is in step `k`, there was nothing for it; and it
had no share of `_size` any more. -/
structure Justified [Fintype τ] (S : ℕ → Queue τ α) (t : τ) (k : ℕ) : Prop where
  empty : ∃ j ≤ k, (∀ i, j ≤ i → i ≤ k → (S i).pc t ≠ .idle) ∧ Drained (S j)
  unreserved : reserved ((S k).pc t) = 0

/-! ### The condition -/

/-- An `Enqueue` has linked its value before one that is counted and still in the queue, and has not
counted its own. -/
def Lagging (s : Queue τ α) (t : τ) : Prop :=
  ∃ y ∈ placed (s.pc t), ∃ x ∈ rets s.log, x ∈ queued s ∧ [y, x].Sublist (takes s.log ++ queued s)

instance [DecidableEq α] (s : Queue τ α) (t : τ) : Decidable (Lagging s t) := by
  unfold Lagging
  infer_instance

/-- When `Dequeue` takes from a `_size` that is not positive, that is so without what other calls that
have failed have taken from it, and what `Enqueue`s that lag have not yet added. -/
def countsAll [Fintype τ] [DecidableEq α] (s : Queue τ α) : Pc α → Prop
  | .decSize => s.mem.size ≤ 0 →
      s.mem.size + (∑ t, undoing (s.pc t) : ℕ) + ((Finset.univ.filter (Lagging s)).card : ℤ) ≤ 0
  | _ => True

instance [Fintype τ] [DecidableEq α] (s : Queue τ α) : (p : Pc α) → Decidable (countsAll s p)
  | .decSize => inferInstanceAs (Decidable (_ ≤ _ → _ ≤ _))
  | .idle | .alloc _ | .setData .. | .setNext .. | .loadTail .. | .loadNext .. | .link .. | .help ..
  | .swing .. | .incSize _ | .undo | .loadHead | .loadHeadNext _ | .recheck _ | .loadDeqTail ..
  | .loadTailNext .. | .helpDeq .. | .readData .. | .takeHead .. | .freeHead _ => instDecidableTrue

/-- Runs in which no count wraps unnoticed, nothing is linked to a node that is not in the queue, and
`_size` counts all there is for a `Dequeue` that finds it used up. -/
def steady [Fintype τ] [DecidableEq α] (s : Queue τ α) (a : τ × Choice α) : Prop :=
  noAlias s.mem (s.pc a.1) ∧ linksQueue s (s.pc a.1) ∧ countsAll s (s.pc a.1)

instance [Fintype τ] [DecidableEq α] (s : Queue τ α) (a : τ × Choice α) : Decidable (steady s a) :=
  inferInstanceAs (Decidable (_ ∧ _ ∧ _))

/-! ### The values of the queue -/

lemma walk_chain {next : ℕ → Option ℕ} {a : ℕ} {l : List ℕ} (h : Chain next (a :: l)) {k : ℕ} (hk : l.length ≤ k) :
    walk next k a = l := by
  induction l generalizing a k with
  | nil =>
    cases k with
    | zero => rfl
    | succ k =>
      rw [walk, h.1]
      rfl
  | cons b l ih =>
    cases k with
    | zero => exact absurd hk (Nat.not_succ_le_zero _)
    | succ k =>
      rw [walk, h.1]
      exact congrArg (b :: ·) (ih h.2 (Nat.le_of_succ_le_succ hk))

variable [Fintype τ] [DecidableEq τ] {s s' : Queue τ α} {t : τ} {c e : List ℕ}

lemma queued_eq (hI : Inv s c e) : queued s = c.tail.map s.mem.data := by
  obtain ⟨l, hc, -⟩ := chain_cons hI.toShape
  have ho := run_ordered hI.run
  have hcontents : (hist s c).contents = l.map s.mem.data := by
    rw [hist, hc]
    rfl
  have hlen : l.length ≤ s.log.length := by
    have hnodup : ((hist s c).contents.map Event.call).Nodup :=
      ((List.nodup_append.mp ho.nodup).2.1).map fun _ _ h => Event.call.inj h
    have hsub : (hist s c).contents.map Event.call ⊆ s.log := by
      intro ev hev
      obtain ⟨x, hx, rfl⟩ := List.mem_map.mp hev
      exact ho.called x (List.mem_append_right _ hx)
    have := (hnodup.subperm hsub).length_le
    rwa [hcontents, List.length_map, List.length_map] at this
  have hchain := hI.chain
  rw [hc] at hchain
  rw [queued, walk_chain hchain hlen, hc]
  rfl

/-! ### What a failing call finds -/

lemma lagging_iff (hI : Inv s c e) (t : τ) : Lagging s t ↔ (hist s c).Ahead t := by
  unfold Lagging Hist.Ahead
  rw [queued_eq hI]
  constructor
  · rintro ⟨y, hy, x, hx, hm, hs⟩
    exact ⟨y, x, hy, mem_rets.mp hx, hm, hs⟩
  · rintro ⟨y, x, hy, hx, hm, hs⟩
    exact ⟨y, hy, x, mem_rets.mpr hx, hm, hs⟩

/-- What is in the queue, by the calls that are pending. -/
lemma length_queued (hI : Inv s c e) : s.mem.size + (∑ u, reserved (s.pc u) : ℕ) + (∑ u, undoing (s.pc u) : ℕ) +
    (hist s c).returning = (queued s).length := by
  have htotal := hI.total
  have hsum : ∑ u, share (s.pc u) = ∑ u, reserved (s.pc u) + ∑ u, undoing (s.pc u) + (hist s c).returning := by
    rw [← Finset.sum_add_distrib, Hist.returning, ← Finset.sum_add_distrib]
    rfl
  obtain ⟨l, hc, -⟩ := chain_cons hI.toShape
  rw [hsum, hc, List.length_cons] at htotal
  rw [queued_eq hI, hc, List.length_map, List.tail_cons]
  push_cast at htotal ⊢
  omega

/-- The values that have been counted are taken or reserved, when `_size` does not leave out more than
what the calls that have failed took from it. -/
lemma drained_of_counts [DecidableEq α] (hI : Inv s c e)
    (h : s.mem.size + (∑ t, undoing (s.pc t) : ℕ) + ((Finset.univ.filter (Lagging s)).card : ℤ) ≤ 0) : Drained s := by
  classical
  intro x hx
  have ho := run_ordered hI.run
  rcases List.mem_append.mp (ho.ret x (mem_rets.mp hx)) with hm | hm
  · exact .inl hm
  · right
    obtain ⟨l₁, l₂, hl⟩ := List.append_of_mem hm
    have hle := returning_le ho (run_open hI.run) (mem_rets.mp hx) hl
    have hcard : (Finset.univ.filter (hist s c).Ahead).card = (Finset.univ.filter (Lagging s)).card := by
      congr 1
      exact Finset.filter_congr fun t _ => (lagging_iff hI t).symm
    have hlen := length_queued hI
    have hq : queued s = l₁ ++ x :: l₂ := (queued_eq hI).trans hl
    rw [hq, List.length_append, List.length_cons] at hlen
    rw [hcard] at hle
    rw [hq, List.take_append]
    refine List.mem_append_right _ ?_
    obtain ⟨k, hk⟩ : ∃ k, ∑ t, reserved (s.pc t) - l₁.length = k + 1 := ⟨_, (Nat.succ_pred (by omega)).symm⟩
    rw [hk, List.take_succ_cons]
    exact List.mem_cons_self

/-! ### Runs -/

section Steps

omit [Fintype τ] [DecidableEq τ]

variable {m m' : Mem α} {p : Pc α} {ch : Choice α} {ev : List (Event (Item α))}

lemma tstep_undo (h : tstep m p ch = some (m', .undo, ev)) :
    p = .decSize ∧ m.size ≤ 0 ∧ m' = { m with size := m.size - 1 } ∧ ev = [] := by
  revert h
  fun_cases tstep m p ch
  all_goals intro h
  case case15 hlt =>
    obtain ⟨rfl, -, rfl⟩ := Prod.mk.inj (Option.some.inj h) |>.imp_right Prod.mk.inj
    exact ⟨rfl, by omega, rfl, rfl⟩
  all_goals simp only [Option.some.injEq, Prod.mk.injEq, reduceCtorEq, false_and, and_false] at h

lemma tstep_miss (h : tstep m p ch = some (m', .idle, [.miss])) :
    p = .undo ∨ ∃ b, p = .recheck b ∧ b.same m.head = true := by
  revert h
  fun_cases tstep m p ch
  all_goals intro h
  case case17 => exact .inl rfl
  case case21 b hb => exact .inr ⟨b, rfl, hb⟩
  all_goals simp only [Option.some.injEq, Prod.mk.injEq, reduceCtorEq, false_and, and_false, List.cons.injEq, List.ne_cons_self] at h

end Steps

variable [DecidableEq α] {d : ℕ} {next : ℕ → Option ℕ} {data : ℕ → Item α}

lemma reach_inv (h : Reach qstep steady (construct d next data) s) : ∃ c e, Inv s c e := by
  refine Reach.inv (I := fun s => ∃ c e, QueueInv.Inv s c e) ⟨_, _, construct_inv d next data⟩ (fun s s' a _ hi ho hs => ?_) h
  obtain ⟨c, e, hI⟩ := hi
  rw [qstep, Option.map_eq_some_iff] at hs
  obtain ⟨⟨m', p', ev⟩, hs, rfl⟩ := hs
  exact tstep_inv hI rfl ho.1 ho.2.1 hs

/-- A call that is about to give back what it took found nothing for it when it took it. -/
lemma drained_of_undo {a : τ × Choice α} (hr : Reach qstep steady (construct d next data) s) (ho : steady s a)
    (hs : qstep s a = some s') (hu : s'.pc t = .undo) : s.pc t = .undo ∨ s'.pc t = .undo ∧ Drained s' := by
  rw [qstep, Option.map_eq_some_iff] at hs
  obtain ⟨⟨m', p', ev⟩, hs, rfl⟩ := hs
  by_cases ht : t = a.1
  · right
    refine ⟨hu, ?_⟩
    rw [ht] at hu
    obtain rfl : p' = .undo := (Function.update_self a.1 p' s.pc).symm.trans hu
    obtain ⟨hp, hsize, rfl, rfl⟩ := tstep_undo hs
    obtain ⟨c, e, hI⟩ := reach_inv hr
    have hcount := ho.2.2
    rw [hp] at hcount
    have hd := drained_of_counts hI (hcount hsize)
    obtain ⟨r, h1, h2⟩ := share_after reserved s a.1 { s.mem with size := s.mem.size - 1 } .undo []
    have hlog : s.log ++ [] = s.log := List.append_nil _
    unfold Drained queued at hd ⊢
    dsimp only
    rw [hlog]
    intro x hx
    refine (hd x hx).imp_right fun hm => ?_
    rw [h1, hp] at hm
    have h3 : ∑ u, reserved (Function.update s.pc a.1 .undo u) = r + reserved (.undo : Pc α) := h2
    rw [h3]
    exact hm
  · left
    rw [← hu]
    exact (Function.update_of_ne ht _ _).symm

/-- **A `Dequeue` that returns false found nothing that was not another's.** -/
theorem dequeue_justified {S : ℕ → Queue τ α} {n k : ℕ} (h : Path qstep steady (construct d next data) S n) (hk : k < n)
    (hf : Fails S t k) : Justified S t k := by
  obtain ⟨hin, hout, hlog⟩ := hf
  obtain ⟨a, ho, hs⟩ := h.step k hk
  have hr := h.reach (Nat.le_of_lt hk)
  obtain ⟨c, e, hI⟩ := reach_inv hr
  rw [qstep, Option.map_eq_some_iff] at hs
  obtain ⟨⟨m', p', ev⟩, hs, he⟩ := hs
  rw [← he] at hout hlog
  obtain rfl : t = a.1 := by
    by_contra ht
    exact hin ((Function.update_of_ne ht _ _).symm.trans hout)
  obtain rfl : p' = .idle := (Function.update_self a.1 p' (S k).pc).symm.trans hout
  obtain rfl : ev = [.miss] := List.append_cancel_left hlog
  have hundo : (S k).pc a.1 = .undo := by
    refine (tstep_miss hs).resolve_right ?_
    rintro ⟨b, hp, hb⟩
    have hat := hI.at' a.1
    have hw := ho.1
    rw [hp] at hat hw
    exact Bool.false_ne_true ((recheck_differs hat hw).symm.trans hb)
  refine ⟨?_, by rw [hundo]; rfl⟩
  obtain ⟨j, hj, ⟨-, hd⟩, hsince⟩ := h.since (P := fun s => s.pc a.1 = .undo) (E := fun s => s.pc a.1 = .undo ∧ Drained s)
    (fun hu => by cases hu) (fun s s' b hr ho hs hu => drained_of_undo hr ho hs hu) (Nat.le_of_lt hk) hundo
  refine ⟨j, hj, fun i hi hik => ?_, hd⟩
  rw [hsince i hi hik]
  intro hu
  cases hu

/-! ### Runs of three threads -/

/-- Thread 0 calls `Dequeue` while thread 2 is about to take the one value. -/
def reserving : Trace := enqueue 1 10 1 7 ++ dequeue 2 3 ++ dequeue 0 2 ++ ticks 2 5

theorem dequeue_justified_reserving : Fails (trail qstep empty reserving) 0 15 ∧
    Justified (trail qstep empty reserving) 0 15 := by
  have hp : Path qstep steady empty (trail qstep empty reserving) reserving.length :=
    path_of_run (fun _ _ => of_decide_eq_true) _ (by decide +kernel)
  have hf : Fails (trail qstep empty reserving) 0 15 := by
    unfold Fails
    decide +kernel
  exact ⟨hf, dequeue_justified hp (by decide) hf⟩

/-- Thread 0 has taken one from `_size` and not put it back when the value of thread 1 is counted, and
thread 2 finds no more than before. -/
def disturbed : Trace := dequeue 0 1 ++ enqueue 1 10 1 7 ++ dequeue 2 2

theorem dequeue_disturbed : ¬∀ S n k t, Path qstep (fun _ _ => True) empty S n → k < n → Fails S t k →
    Justified S t k := by
  intro h
  have hp : Path qstep (fun _ _ => True) empty (trail qstep empty disturbed) disturbed.length :=
    path_of_run (fun _ _ _ => trivial) _ (by decide +kernel : (run qstep (fun _ _ => true) empty disturbed).isSome = true)
  have hf : Fails (trail qstep empty disturbed) 2 13 := by
    unfold Fails
    decide +kernel
  obtain ⟨j, hj, hcall, hd⟩ := (h _ _ 13 2 hp (by decide) hf).empty
  -- the call has its first step at 11, and the value was counted before
  have hj11 : 11 < j := by
    by_contra hle
    refine hcall 11 (not_lt.mp hle) (by norm_num) ?_
    decide +kernel
  obtain rfl | rfl : j = 12 ∨ j = 13 := by omega
  all_goals
    revert hd
    unfold Drained
    decide +kernel

end LoginServerChat.QueueEmpty
