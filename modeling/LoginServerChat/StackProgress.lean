import LoginServerChat.Amortized
import LoginServerChat.StackRun

/-!
The retries of `CLockFreeStack`. A compare-exchange fails only because another one has succeeded since
what it compares was read, so whatever the threads do, one of them gets on: a bounded number of steps
has a call return.
-/

namespace LoginServerChat.StackProgress

open LifoHistory LockFreeStack Runs Amortized

variable {τ ι α : Type*} [DecidableEq τ] [DecidableEq ι] {s s' : Stacks τ ι α} {a : τ × Choice ι α}
  {l : List (τ × Choice ι α)}

/-- The event is an exchange on one of the stacks `P`. -/
def exchanges (P : ι → Prop) [DecidablePred P] : Event τ ι α → Bool
  | .push _ i _ | .pop _ i _ => P i
  | _ => false

/-- The event is the last of its call. -/
def finishes : Event τ ι α → Bool
  | .push _ _ _ | .ret _ _ _ | .miss _ _ => true
  | _ => false

/-- What a step adds to the log. -/
def added (s : Stacks τ ι α) (a : τ × Choice ι α) : List (Event τ ι α) :=
  ((tstep a.1 s.mem (s.pc a.1) a.2).map fun r => r.2.2).getD []

/-- The step is a compare-exchange on one of the stacks `P`, and it fails. -/
def retry (P : ι → Prop) [DecidablePred P] (s : Stacks τ ι α) (a : τ × Choice ι α) : ℕ :=
  match s.pc a.1 with
  | .casTop i _ _ b => if P i ∧ s.mem.top i ≠ b then 1 else 0
  | .casBoth i v x _ => if P i ∧ ¬(s.mem.top i = x ∧ s.mem.uniqIdx i % 2 ^ 64 = v % 2 ^ 64) then 1 else 0
  | _ => 0

/-- What a thread has read of a stack is not there any more. -/
def Stale (P : ι → Prop) (m : Mem ι α) : Pc ι α → Prop
  | .setNext i _ _ b | .casTop i _ _ b => P i ∧ m.top i ≠ b
  | .loadPopTop i v => P i ∧ m.uniqIdx i % 2 ^ 64 ≠ v % 2 ^ 64
  | .loadNext i v x | .casBoth i v x _ => P i ∧ ¬(m.top i = x ∧ m.uniqIdx i % 2 ^ 64 = v % 2 ^ 64)
  | _ => False

instance (P : ι → Prop) [DecidablePred P] (m : Mem ι α) (p : Pc ι α) : Decidable (Stale P m p) := by
  unfold Stale
  split <;> infer_instance

/-- The steps left to a call that loses no round; a thread without a call has a whole one before it. -/
def left : Pc ι α → ℕ
  | .idle => 7
  | .loadIdx _ => 6
  | .alloc _ _ | .loadPopTop _ _ => 5
  | .setData _ _ _ | .loadNext _ _ _ => 4
  | .loadTop _ _ _ | .casBoth _ _ _ _ => 3
  | .setNext _ _ _ _ | .readData _ _ => 2
  | .casTop _ _ _ _ | .free _ _ _ => 1

/-- Whether the exchange of the call is still to come. -/
def unspent : Pc ι α → ℕ
  | .readData _ _ | .free _ _ _ => 0
  | _ => 1

/-! ### One step -/

/-- What a step does to the memory, to the point of its thread and to the log. -/
lemma sstep_eq (h : sstep s a = some s') :
    tstep a.1 s.mem (s.pc a.1) a.2 = some (s'.mem, s'.pc a.1, added s a) ∧
      s'.log = s.log ++ added s a ∧ ∀ u ≠ a.1, s'.pc u = s.pc u := by
  rw [sstep, Option.map_eq_some_iff] at h
  obtain ⟨⟨m, p, ev⟩, hr, rfl⟩ := h
  have hadd : added s a = ev := by
    rw [added, hr]
    rfl
  refine ⟨?_, by rw [hadd], fun u hu => Function.update_of_ne hu _ _⟩
  rw [hr, hadd]
  exact congrArg (fun p => some (m, p, ev)) (Function.update_self a.1 p s.pc).symm

/-- A step pays for itself, or its call returns, or it has lost a round. -/
lemma left_step (h : sstep s a = some s') : 1 + left (s'.pc a.1) ≤
    left (s.pc a.1) + (7 * (added s a).countP finishes + 4 * retry (fun _ => True) s a) := by
  have ht := (sstep_eq h).1
  rw [retry]
  revert ht
  generalize s'.mem = m', s'.pc a.1 = p', added s a = ev, s.pc a.1 = p
  fun_cases tstep a.1 s.mem p a.2 <;>
    simp only [Option.some.injEq, Prod.mk.injEq, reduceCtorEq, false_implies, and_imp] <;>
    rintro rfl rfl rfl <;> simp_all [left, finishes]

/-- A call makes one exchange. -/
lemma unspent_step (h : sstep s a = some s') : (added s a).countP (exchanges fun _ => True) + unspent (s'.pc a.1) ≤
    unspent (s.pc a.1) + 1 * (added s a).countP finishes := by
  have ht := (sstep_eq h).1
  revert ht
  generalize s'.mem = m', s'.pc a.1 = p', added s a = ev, s.pc a.1 = p
  fun_cases tstep a.1 s.mem p a.2 <;>
    simp only [Option.some.injEq, Prod.mk.injEq, reduceCtorEq, false_implies, and_imp] <;>
    rintro rfl rfl rfl <;> simp_all [unspent, finishes, exchanges]

omit [DecidableEq τ] [DecidableEq ι] in
lemma stale_congr {P : ι → Prop} {m m' : Mem ι α} (h : ∀ i, P i → m'.top i = m.top i ∧ m'.uniqIdx i = m.uniqIdx i)
    (p : Pc ι α) : Stale P m' p → Stale P m p := by
  cases p <;> rintro ⟨hP, hs⟩ <;> refine ⟨hP, ?_⟩ <;>
    simpa only [(h _ hP).1, (h _ hP).2] using hs

/-- A step exchanges, and the thread has nothing stale then; or it leaves the stacks as they are, makes
nothing stale, and loses a round only on a stale reading. -/
lemma stale_step (P : ι → Prop) [DecidablePred P] (h : sstep s a = some s') :
    (retry P s a = 0 ∧ 0 < (added s a).countP (exchanges P) ∧ ¬Stale P s'.mem (s'.pc a.1)) ∨
    ((∀ i, P i → s'.mem.top i = s.mem.top i ∧ s'.mem.uniqIdx i = s.mem.uniqIdx i) ∧
      (Stale P s'.mem (s'.pc a.1) → Stale P s.mem (s.pc a.1)) ∧
      (retry P s a = 0 ∨ retry P s a = 1 ∧ Stale P s.mem (s.pc a.1) ∧ ¬Stale P s'.mem (s'.pc a.1))) := by
  have ht := (sstep_eq h).1
  rw [retry]
  revert ht
  generalize s'.mem = m', s'.pc a.1 = p', added s a = ev, s.pc a.1 = p
  fun_cases tstep a.1 s.mem p a.2 <;>
    simp only [Option.some.injEq, Prod.mk.injEq, reduceCtorEq, false_implies, and_imp] <;>
    rintro rfl rfl rfl
  case case8 i n x =>
    by_cases hP : P i
    · exact .inl ⟨if_neg fun hc => hc.2 rfl, by simp [exchanges, hP], id⟩
    · refine .inr ⟨fun j hj => ⟨Function.update_of_ne (fun he => hP (by rw [← he]; exact hj)) _ _, rfl⟩,
        False.elim, .inl ?_⟩
      exact if_neg fun hc => hP hc.1
  case case9 i n x b hb =>
    by_cases hP : P i
    · exact .inr ⟨fun j _ => ⟨rfl, rfl⟩, False.elim, .inr ⟨if_pos ⟨hP, hb⟩, ⟨hP, hb⟩, id⟩⟩
    · exact .inr ⟨fun j _ => ⟨rfl, rfl⟩, False.elim, .inl (if_neg fun hc => hP hc.1)⟩
  case case14 i v x y hc =>
    by_cases hP : P i
    · exact .inl ⟨if_neg fun hn => hn.2 hc, by simp [exchanges, hP], id⟩
    · refine .inr ⟨fun j hj => ?_, False.elim, .inl (if_neg fun hn => hP hn.1)⟩
      have hji : j ≠ i := fun he => hP (by rw [← he]; exact hj)
      exact ⟨Function.update_of_ne hji _ _, Function.update_of_ne hji _ _⟩
  case case15 i v x y hc =>
    by_cases hP : P i
    · exact .inr ⟨fun j _ => ⟨rfl, rfl⟩, False.elim, .inr ⟨if_pos ⟨hP, hc⟩, ⟨hP, hc⟩, id⟩⟩
    · exact .inr ⟨fun j _ => ⟨rfl, rfl⟩, False.elim, .inl (if_neg fun hn => hP hn.1)⟩
  all_goals
    refine .inr ⟨fun j _ => ⟨rfl, rfl⟩, by simp [Stale], .inl ?_⟩
    simp

lemma contended (P : ι → Prop) [DecidablePred P] (s₀ : Stacks τ ι α) :
    Contended sstep (fun _ _ => True) s₀ Prod.fst (fun s u => Stale P s.mem (s.pc u)) (retry P)
      fun s a => (added s a).countP (exchanges P) := by
  refine ⟨fun s s' a _ _ h => ?_⟩
  rcases stale_step P h with hwon | ⟨hm, hown, hlost⟩
  · exact .inl hwon
  · refine .inr ⟨fun u hu => ?_, hlost⟩
    rcases eq_or_ne u a.1 with rfl | hne
    · exact hown hu
    · rw [(sstep_eq h).2.2 u hne] at hu
      exact stale_congr hm _ hu

/-! ### Runs -/

/-- What is counted of the log is what the steps add to it. -/
lemma total_log {ok} (p : Event τ ι α → Bool) (h : Trace sstep ok s l s') :
    s'.log.countP p = s.log.countP p + total sstep (fun s a => (added s a).countP p) s l := by
  refine total_eq (F := fun s => s.log.countP p) (fun s s' a h => ?_) h
  rw [(sstep_eq h).2.1, List.countP_append]

variable [Fintype τ]

/-- **Retries.** From the constructors on, the compare-exchanges that fail on a stack, or on any set of
them, are at most as many as those that succeed there, for each of the other threads. -/
theorem retries_le (b : Boot ι α) (P : ι → Prop) [DecidablePred P]
    (h : Trace sstep (fun _ _ => True) (construct b) l s) :
    total sstep (retry P) (construct b) l ≤ (Fintype.card τ - 1) * s.log.countP (exchanges P) := by
  have hlost := (contended P (construct b)).total_lost .init h
  have hlog := total_log (exchanges P) h
  have hstart : stales (fun s u => Stale P s.mem (s.pc u)) (construct b : Stacks τ ι α) = 0 :=
    Finset.sum_eq_zero fun u _ => if_neg id
  rw [show (construct b : Stacks τ ι α).log.countP (exchanges P) = 0 from rfl, Nat.zero_add] at hlog
  rw [hlog]
  omega

/-- **Lock freedom.** Wherever a run is, and whatever its threads do from there, some call returns within
a number of steps that depends on the number of threads alone. -/
theorem stacks_lock_free (h : Trace sstep (fun _ _ => True) s l s') :
    l.length ≤ (4 * Fintype.card τ + 7) *
      (Fintype.card τ + (s'.log.countP finishes - s.log.countP finishes)) := by
  have hlog := total_log finishes h
  have hwon := total_le_calls (W := 1) (φ := unspent) (fun s s' a h => (sstep_eq h).2.2)
    (fun p => by cases p <;> simp [unspent]) (fun s s' a _ h => unspent_step h) h
  have hwork := (contended (fun _ => True) s).total_work (f := fun _ _ => 1) (fun s s' a h => (sstep_eq h).2.2)
    (C := 7) (B := 4) (D := 0) (φ := left) (fun p => by cases p <;> simp [left])
    (fun s s' a _ h => by rw [Nat.zero_mul]; exact left_step h) .init h Nat.one_pos hwon
  rw [hlog, Nat.add_sub_cancel_left]
  calc l.length = total sstep (fun _ _ => 1) s l := (total_one h).symm
    _ ≤ _ := hwork
    _ = _ := by ring

/-- The second thread loses a round to the first. -/
theorem stacks_lock_free_reuse : ∃ s' : Stacks (Fin 2) (Fin 1) ℕ,
    Trace sstep (fun _ _ => True) (construct StackRun.oneStack) StackRun.reuse s' ∧
    total sstep (retry fun _ => True) (construct StackRun.oneStack) StackRun.reuse = 1 ∧
    StackRun.reuse.length ≤ (4 * Fintype.card (Fin 2) + 7) * (Fintype.card (Fin 2) +
      (s'.log.countP finishes - (construct StackRun.oneStack : Stacks (Fin 2) (Fin 1) ℕ).log.countP finishes)) := by
  have hrun : (run sstep (fun _ _ => true) (construct StackRun.oneStack) StackRun.reuse).isSome = true := by
    decide +kernel
  obtain ⟨s', hs'⟩ := Option.isSome_iff_exists.mp hrun
  have h : Trace sstep (fun _ _ => True) (construct StackRun.oneStack) StackRun.reuse s' :=
    trace_of_run (fun _ _ _ => trivial) hs'
  exact ⟨s', h, by decide +kernel, stacks_lock_free h⟩

end LoginServerChat.StackProgress
