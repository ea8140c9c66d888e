import LoginServerChat.Amortized
import LoginServerChat.PoolRun

/-!
The retries of `MemoryPool`. `Alloc` and `Free` share two loops of compare-exchange, over
`_freeStackTop` and over `_allocTop`, and a call goes through a loop again only when another one has
got through.
-/

namespace LoginServerChat.PoolProgress

open MemoryPool Runs Amortized

variable {τ : Type*} [DecidableEq τ] {b : Boot} {s s' : Pool τ} {a : τ × Choice τ} {l : List (τ × Choice τ)}

/-- What the compare-exchange of a point is on, and what it was read as. -/
def compares (m : Mem) : Pc → Option (ℕ × ℕ)
  | .popCas w _ _ | .pushCas _ w => some (m.freeStackTop, w)
  | .addCas _ w => some (m.allocTop, w)
  | _ => none

/-- The step is a compare-exchange, and it fails. -/
def retry (s : Pool τ) (a : τ × Choice τ) : ℕ :=
  if (compares s.mem (s.pc a.1)).any fun x => x.1 ≠ x.2 then 1 else 0

/-- The step is a compare-exchange, and it succeeds. -/
def success (s : Pool τ) (a : τ × Choice τ) : ℕ :=
  if (compares s.mem (s.pc a.1)).any fun x => x.1 = x.2 then 1 else 0

/-- The step is one of a call, and no caller's handing over of a block. -/
def works (_ : Pool τ) (a : τ × Choice τ) : ℕ :=
  match a.2 with
  | .give _ _ => 0
  | _ => 1

/-- The call of a thread returns with the step. -/
def returns (b : Boot) (s : Pool τ) (a : τ × Choice τ) : ℕ :=
  if s.pc a.1 ≠ .idle ∧ (pstep b s a).map (fun s' => s'.pc a.1) = some .idle then 1 else 0

/-- The top that a thread has read is not there any more. -/
def Stale (m : Mem) : Pc → Prop
  | .popNext w _ | .popCas w _ _ | .pushNext _ w | .pushCas _ w => m.freeStackTop ≠ w
  | .addNext _ w | .addCas _ w => m.allocTop ≠ w
  | _ => False

instance (m : Mem) (p : Pc) : Decidable (Stale m p) := by
  unfold Stale
  split <;> infer_instance

/-- The steps left to a call that loses no round; a thread without a call has a whole one before it. -/
def left : Pc → ℕ
  | .idle => 12
  | .popLoad => 11
  | .incCnt => 10
  | .malloc | .freePre _ => 9
  | .addLoad _ | .freePost _ _ => 8
  | .addNext _ _ | .freeCode _ => 7
  | .addCas _ _ | .readFree _ => 6
  | .popNext _ _ | .setPre _ | .flipFree _ _ => 5
  | .popCas _ _ _ | .setPost _ | .decUse _ => 4
  | .readPost _ | .incTotal _ | .pushLoad _ => 3
  | .flipPost _ _ | .setNext _ | .pushNext _ _ => 2
  | .decCnt | .incUse _ | .pushCas _ _ => 1

/-- Whether the exchange of the call is still to come. -/
def unspent : Pc → ℕ
  | .readPost _ | .flipPost _ _ | .decCnt | .setPre _ | .setPost _ | .incTotal _ | .setNext _ | .incUse _ => 0
  | _ => 1

/-! ### One step -/

/-- A step hands a block over, or is one of a call: the first of `Free`, or one that `tstep` has. -/
lemma pstep_cases (h : pstep b s a = some s') : (∀ u ≠ a.1, s'.pc u = s.pc u) ∧
    ((works s a = 0 ∧ s.pc a.1 = .idle ∧ s'.mem = s.mem ∧ s'.pc a.1 = .idle) ∨
      (∃ q, s.pc a.1 = .idle ∧ s'.mem = s.mem ∧ s'.pc a.1 = .freePre q) ∨
      ∃ h, tstep b s.mem (s.pc a.1) a.2 = some (s'.mem, s'.pc a.1, h)) := by
  unfold pstep at h
  split at h
  next q hp ha =>
    rw [Option.ite_none_right_eq_some] at h
    obtain ⟨-, rfl⟩ := h.imp_right Option.some.inj
    exact ⟨fun u hu => Function.update_of_ne hu _ _, .inr (.inl ⟨q, hp, rfl, Function.update_self _ _ _⟩)⟩
  next u q hp ha =>
    rw [Option.ite_none_right_eq_some] at h
    obtain ⟨-, rfl⟩ := h.imp_right Option.some.inj
    exact ⟨fun _ _ => rfl, .inl ⟨by rw [works, ha], hp, rfl, hp⟩⟩
  next =>
    obtain ⟨⟨m, p, o⟩, hr, rfl⟩ := Option.map_eq_some_iff.mp h
    refine ⟨fun u hu => Function.update_of_ne hu _ _, .inr (.inr ⟨o, ?_⟩)⟩
    rw [hr]
    exact congrArg (fun p => some (m, p, o)) (Function.update_self a.1 p s.pc).symm

omit [DecidableEq τ] in
lemma works_le : works s a ≤ 1 := by
  unfold works
  split <;> decide

lemma returns_eq (h : pstep b s a = some s') :
    returns b s a = if s.pc a.1 ≠ .idle ∧ s'.pc a.1 = .idle then 1 else 0 := by
  simp only [returns, h, Option.map_some, Option.some.injEq]

/-- A step pays for itself, or its call returns, or it has lost a round. -/
lemma left_step (h : pstep b s a = some s') :
    works s a + left (s'.pc a.1) ≤ left (s.pc a.1) + (12 * returns b s a + 8 * retry s a) := by
  have hw : works s a ≤ 1 := works_le
  rw [returns_eq h]
  obtain ⟨-, ⟨h0, hp, -, hp'⟩ | ⟨q, hp, -, hp'⟩ | ⟨o, ht⟩⟩ := pstep_cases h
  · rw [hp, hp', h0, Nat.zero_add]
    exact Nat.le_add_right _ _
  · rw [hp, hp']
    simp only [left]
    omega
  · suffices 1 + left (s'.pc a.1) ≤ left (s.pc a.1) +
        (12 * (if s.pc a.1 ≠ .idle ∧ s'.pc a.1 = .idle then 1 else 0) + 8 * retry s a) by omega
    rw [retry]
    revert ht
    generalize s'.mem = m', s'.pc a.1 = p', s.pc a.1 = p
    fun_cases tstep b s.mem p a.2 <;>
      simp only [Option.some.injEq, Prod.mk.injEq, reduceCtorEq, false_implies, and_imp] <;>
      rintro rfl rfl rfl <;> simp_all [left, compares]

/-- A call makes one exchange. -/
lemma unspent_step (h : pstep b s a = some s') :
    success s a + unspent (s'.pc a.1) ≤ unspent (s.pc a.1) + 1 * returns b s a := by
  rw [returns_eq h, success]
  obtain ⟨-, ⟨-, hp, -, hp'⟩ | ⟨q, hp, -, hp'⟩ | ⟨o, ht⟩⟩ := pstep_cases h
  · rw [hp, hp']
    simp [compares]
  · rw [hp, hp']
    simp [compares, unspent]
  · revert ht
    generalize s'.mem = m', s'.pc a.1 = p', s.pc a.1 = p
    fun_cases tstep b s.mem p a.2 <;>
      simp only [Option.some.injEq, Prod.mk.injEq, reduceCtorEq, false_implies, and_imp] <;>
      rintro rfl rfl rfl <;> simp_all [unspent, compares]

lemma stale_congr {m m' : Mem} (h1 : m'.freeStackTop = m.freeStackTop) (h2 : m'.allocTop = m.allocTop) (p : Pc) :
    Stale m' p → Stale m p := by
  cases p <;> simp only [Stale, h1, h2, imp_self]

omit [DecidableEq τ] in
/-- A step exchanges, and the thread has nothing stale then; or it leaves both tops, makes nothing stale,
and loses a round only on a stale reading. -/
lemma stale_step {m' : Mem} {p' : Pc} {o : Option ℕ} (ht : tstep b s.mem (s.pc a.1) a.2 = some (m', p', o)) :
    (retry s a = 0 ∧ 0 < success s a ∧ ¬Stale m' p') ∨
    (m'.freeStackTop = s.mem.freeStackTop ∧ m'.allocTop = s.mem.allocTop ∧
      (Stale m' p' → Stale s.mem (s.pc a.1)) ∧
      (retry s a = 0 ∨ retry s a = 1 ∧ Stale s.mem (s.pc a.1) ∧ ¬Stale m' p')) := by
  rw [retry, success]
  revert ht
  generalize s.pc a.1 = p
  fun_cases tstep b s.mem p a.2 <;>
    simp only [Option.some.injEq, Prod.mk.injEq, reduceCtorEq, false_implies, and_imp] <;>
    rintro rfl rfl rfl
  all_goals first
    | refine .inl ⟨?_, ?_, ?_⟩ <;> (simp_all [Stale, compares]; done)
    | refine .inr ⟨rfl, rfl, ?_, ?_⟩ <;> simp_all [Stale, compares]

lemma contended (s₀ : Pool τ) : Contended (pstep b) (fun _ _ => True) s₀ Prod.fst
    (fun s u => Stale s.mem (s.pc u)) retry success := by
  refine ⟨fun s s' a _ _ h => ?_⟩
  obtain ⟨hpc, hcases⟩ := pstep_cases h
  have hquiet : s.pc a.1 = .idle → s'.mem = s.mem → ¬Stale s'.mem (s'.pc a.1) →
      (∀ u, Stale s'.mem (s'.pc u) → Stale s.mem (s.pc u)) ∧ retry s a = 0 := by
    refine fun hp hm hs => ⟨fun u hu => ?_, by rw [retry, hp]; rfl⟩
    rcases eq_or_ne u a.1 with rfl | hne
    · exact absurd hu hs
    · rwa [hpc u hne, hm] at hu
  rcases hcases with ⟨-, hp, hm, hp'⟩ | ⟨q, hp, hm, hp'⟩ | ⟨o, ht⟩
  · exact .inr ((hquiet hp hm (by rw [hp']; exact id)).imp_right .inl)
  · exact .inr ((hquiet hp hm (by rw [hp']; exact id)).imp_right .inl)
  rcases stale_step ht with hwon | ⟨h1, h2, hown, hlost⟩
  · exact .inl hwon
  · refine .inr ⟨fun u hu => ?_, hlost⟩
    rcases eq_or_ne u a.1 with rfl | hne
    · exact hown hu
    · rw [hpc u hne] at hu
      exact stale_congr h1 h2 _ hu

/-! ### Runs -/

variable [Fintype τ]

/-- **Retries.** The compare-exchanges that fail are at most as many as those that succeed, for each of
the other threads. -/
theorem retries_le (h : Trace (pstep b) (fun _ _ => True) (construct b) l s) :
    total (pstep b) retry (construct b) l ≤ (Fintype.card τ - 1) * total (pstep b) success (construct b) l := by
  have hlost := (contended (construct b)).total_lost .init h
  have hstart : stales (fun s u => Stale s.mem (s.pc u)) (construct b : Pool τ) = 0 :=
    Finset.sum_eq_zero fun u _ => if_neg id
  omega

/-- **Lock freedom.** Wherever a run is, and whatever its threads do from there, some call returns within
a number of steps that depends on the number of threads alone. -/
theorem pool_lock_free (h : Trace (pstep b) (fun _ _ => True) s l s') :
    total (pstep b) works s l ≤ (8 * Fintype.card τ + 12) *
      (Fintype.card τ + total (pstep b) (returns b) s l) := by
  have hpc : ∀ (s s' : Pool τ) (a : τ × Choice τ), pstep b s a = some s' → ∀ u ≠ a.1, s'.pc u = s.pc u :=
    fun s s' a h => (pstep_cases h).1
  have hwon := total_le_calls (W := 1) (φ := unspent) hpc
    (fun p => by cases p <;> simp [unspent]) (fun s s' a _ h => unspent_step h) h
  have hwork := (contended s).total_work (C := 12) (B := 8) (D := 0) (φ := left) hpc
    (fun p => by cases p <;> simp [left])
    (fun s s' a _ h => by rw [Nat.zero_mul]; exact left_step h) .init h Nat.one_pos hwon
  calc total (pstep b) works s l ≤ _ := hwork
    _ = _ := by ring

/-- The second thread loses a round to the first. -/
theorem pool_lock_free_exchange : ∃ s' : Pool (Fin 2),
    Trace (pstep PoolRun.twoBlocks) (fun _ _ => True) (construct PoolRun.twoBlocks) PoolRun.exchange s' ∧
    total (pstep PoolRun.twoBlocks) retry (construct PoolRun.twoBlocks) PoolRun.exchange = 1 ∧
    total (pstep PoolRun.twoBlocks) works (construct PoolRun.twoBlocks) PoolRun.exchange ≤
      (8 * Fintype.card (Fin 2) + 12) * (Fintype.card (Fin 2) +
        total (pstep PoolRun.twoBlocks) (returns PoolRun.twoBlocks) (construct PoolRun.twoBlocks) PoolRun.exchange) := by
  have hrun : (run (pstep PoolRun.twoBlocks) (fun _ _ => true) (construct PoolRun.twoBlocks) PoolRun.exchange).isSome =
      true := by decide +kernel
  obtain ⟨s', hs'⟩ := Option.isSome_iff_exists.mp hrun
  have h : Trace (pstep PoolRun.twoBlocks) (fun _ _ => True) (construct PoolRun.twoBlocks) PoolRun.exchange s' :=
    trace_of_run (fun _ _ _ => trivial) hs'
  exact ⟨s', h, by decide +kernel, pool_lock_free h⟩

end LoginServerChat.PoolProgress
