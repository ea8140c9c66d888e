import Mathlib.Algebra.BigOperators.Fin
import Mathlib.Tactic

/-!
Runs of a machine whose next state is computed from the state and an action, and counting
over a family of components of which each step changes one.

A property of every run is proved by an invariant; a run that is given action by action is
evaluated, and the state it ends in is then one that the machine reaches.
-/

namespace LoginServerChat.Runs

variable {σ α : Type*}

/-- The states reached from `s₀` by actions that `ok` admits in the state they are taken in. -/
inductive Reach (next : σ → α → Option σ) (ok : σ → α → Prop) (s₀ : σ) : σ → Prop
  | init : Reach next ok s₀ s₀
  | step {s s' : σ} {a : α} :
      Reach next ok s₀ s → ok s a → next s a = some s' → Reach next ok s₀ s'

variable {next : σ → α → Option σ} {ok ok' : σ → α → Prop} {s₀ s : σ}

/-- **Invariants.** What holds at the start and is kept by every admitted action holds of every
state reached. -/
theorem Reach.inv {I : σ → Prop} (h0 : I s₀)
    (hstep : ∀ s s' a, Reach next ok s₀ s → I s → ok s a → next s a = some s' → I s')
    (h : Reach next ok s₀ s) : I s := by
  induction h with
  | init => exact h0
  | step hr hok hn ih => exact hstep _ _ _ hr ih hok hn

theorem Reach.mono (hok : ∀ s a, ok s a → ok' s a) (h : Reach next ok s₀ s) :
    Reach next ok' s₀ s := by
  induction h with
  | init => exact .init
  | step _ ho hn ih => exact .step ih (hok _ _ ho) hn

/-- A run goes on where another has come to. -/
theorem Reach.trans {s' : σ} (h : Reach next ok s₀ s) (hok : ∀ s a, ok' s a → ok s a)
    (h' : Reach next ok' s s') : Reach next ok s₀ s' := by
  induction h' with
  | init => exact h
  | step _ ho hn ih => exact .step ih (hok _ _ ho) hn

/-- The state after a list of actions, each of them admitted. -/
def run (next : σ → α → Option σ) (ok : σ → α → Bool) : σ → List α → Option σ
  | s, [] => some s
  | s, a :: l => if ok s a then (next s a).bind fun s' => run next ok s' l else none

lemma reach_of_run_eq {okb : σ → α → Bool} (hok : ∀ s a, okb s a = true → ok s a) (l : List α)
    {s' : σ} (hs : Reach next ok s₀ s) (h : run next okb s l = some s') :
    Reach next ok s₀ s' := by
  induction l generalizing s with
  | nil => simp only [run, Option.some.injEq] at h; exact h ▸ hs
  | cons a l ih =>
      simp only [run, Option.ite_none_right_eq_some] at h
      obtain ⟨ha, h⟩ := h
      rcases hn : next s a with _ | s₁
      · simp [hn] at h
      · rw [hn, Option.bind_some] at h
        exact ih (.step hs (hok _ _ ha) hn) h

/-- A run that can be evaluated, and what its last state satisfies. -/
theorem reach_of_run {okb : σ → α → Bool} (hok : ∀ s a, okb s a = true → ok s a) (l : List α)
    {p : σ → Bool} (h : (run next okb s₀ l).map p = some true) :
    ∃ s, Reach next ok s₀ s ∧ p s = true := by
  rcases hr : run next okb s₀ l with _ | s
  · simp [hr] at h
  · rw [hr, Option.map_some, Option.some.injEq] at h
    exact ⟨s, reach_of_run_eq hok l .init hr, h⟩

/-! ### Runs state by state -/

/-- A run of `n` actions, by the states it passes. -/
structure Path (next : σ → α → Option σ) (ok : σ → α → Prop) (s₀ : σ) (S : ℕ → σ) (n : ℕ) : Prop where
  init : S 0 = s₀
  step : ∀ k < n, ∃ a, ok (S k) a ∧ next (S k) a = some (S (k + 1))

variable {S : ℕ → σ} {n k : ℕ}

lemma Path.reach (h : Path next ok s₀ S n) (hk : k ≤ n) : Reach next ok s₀ (S k) := by
  induction k with
  | zero => exact h.init ▸ .init
  | succ k ih =>
    obtain ⟨a, ho, hn⟩ := h.step k (by omega)
    exact .step (ih (by omega)) ho hn

/-- **Looking back.** What can only come to hold at an event has held ever since one. -/
theorem Path.since {P E : σ → Prop} (h : Path next ok s₀ S n) (h0 : ¬ P s₀)
    (hstep : ∀ s s' a, Reach next ok s₀ s → ok s a → next s a = some s' → P s' → P s ∨ E s')
    (hk : k ≤ n) (hP : P (S k)) : ∃ j ≤ k, E (S j) ∧ ∀ i, j ≤ i → i ≤ k → P (S i) := by
  induction k with
  | zero =>
    rw [h.init] at hP
    exact absurd hP h0
  | succ k ih =>
    obtain ⟨a, ho, hn⟩ := h.step k (by omega)
    rcases hstep _ _ _ (h.reach (by omega)) ho hn hP with hp | he
    · obtain ⟨j, hj, h1, h2⟩ := ih (by omega) hp
      refine ⟨j, by omega, h1, fun i hji hi => ?_⟩
      rcases Nat.lt_or_ge k i with hlt | hge
      · rw [show i = k + 1 by omega]
        exact hP
      · exact h2 i hji hge
    · refine ⟨k + 1, le_refl _, he, fun i hji hi => ?_⟩
      rw [show i = k + 1 by omega]
      exact hP

/-- A run that goes on by one action. -/
lemma Path.snoc {s : σ} {a : α} (h : Path next ok s₀ S n) (ho : ok (S n) a)
    (hn : next (S n) a = some s) : Path next ok s₀ (fun k => if k ≤ n then S k else s) (n + 1) := by
  refine ⟨by simp [h.init], fun k hk => ?_⟩
  simp only [if_pos (Nat.le_of_lt_succ hk)]
  split_ifs with hle
  · exact h.step k (by omega)
  · rw [show k = n by omega]
    exact ⟨a, ho, hn⟩

/-- Every state that is reached is the last of a run. -/
lemma Reach.path (h : Reach next ok s₀ s) : ∃ S n, Path next ok s₀ S n ∧ S n = s := by
  induction h with
  | init => exact ⟨fun _ => s₀, 0, ⟨rfl, fun k hk => absurd hk (Nat.not_lt_zero k)⟩, rfl⟩
  | step _ ho hn ih =>
    obtain ⟨S, n, h1, h2⟩ := ih
    exact ⟨_, n + 1, h1.snoc (h2 ▸ ho) (h2 ▸ hn), if_neg (by omega)⟩

/-- The states that a list of actions passes. -/
def trail (next : σ → α → Option σ) (s : σ) (l : List α) (i : ℕ) : σ :=
  (l.take i).foldl (fun s a => (next s a).getD s) s

/-- A run that can be evaluated, state by state. -/
lemma path_of_run {okb : σ → α → Bool} (hok : ∀ s a, okb s a = true → ok s a) (l : List α)
    (h : (run next okb s₀ l).isSome = true) : Path next ok s₀ (trail next s₀ l) l.length := by
  refine ⟨by rw [trail, List.take_zero, List.foldl_nil], fun k hk => ?_⟩
  induction l generalizing s₀ k with
  | nil => exact absurd hk (Nat.not_lt_zero k)
  | cons a l ih =>
    have ha : okb s₀ a = true := by
      by_contra ha
      rw [run, if_neg ha] at h
      exact nomatch h
    rw [run, if_pos ha] at h
    rcases hn : next s₀ a with _ | s₁
    · rw [hn] at h
      exact nomatch h
    · rw [hn, Option.bind_some] at h
      have hcons : ∀ i, trail next s₀ (a :: l) (i + 1) = trail next s₁ l i := by
        intro i
        rw [trail, List.take_succ_cons, List.foldl_cons, hn]
        rfl
      rcases k with _ | k
      · refine ⟨a, hok _ _ ha, ?_⟩
        rw [hcons, trail, trail, List.take_zero, List.take_zero]
        exact hn
      · rw [hcons, hcons]
        exact ih h k (Nat.lt_of_succ_lt_succ hk)

/-! ### Counting over components -/

section Tally

variable {τ β M : Type*} [Fintype τ] [DecidableEq τ]

/-- Two families that differ in one component have totals that differ in its share. -/
lemma sum_split_of [AddCommMonoid M] {f : τ → M} (t : τ) :
    ∃ n, ∑ u, f u = n + f t ∧ ∀ f' : τ → M, (∀ u ≠ t, f' u = f u) → ∑ u, f' u = n + f' t := by
  refine ⟨∑ u ∈ Finset.univ.erase t, f u, ?_, fun f' h => ?_⟩
  · rw [Finset.sum_erase_add _ _ (Finset.mem_univ t)]
  · rw [← Finset.sum_erase_add _ _ (Finset.mem_univ t)]
    congr 1
    exact Finset.sum_congr rfl fun u hu => h u (Finset.ne_of_mem_erase hu)

/-- A total is the share of one component and the rest, and the rest stays when the component
is replaced. -/
lemma sum_split [AddCommMonoid M] (f : β → M) (g : τ → β) (t : τ) :
    ∃ n, ∑ u, f (g u) = n + f (g t) ∧ ∀ b, ∑ u, f (Function.update g t b u) = n + f b := by
  obtain ⟨n, h1, h2⟩ := sum_split_of (f := fun u => f (g u)) t
  refine ⟨n, h1, fun b => ?_⟩
  rw [h2 _ fun u hu => by rw [Function.update_of_ne hu], Function.update_self]

/-- A component that holds all of the total leaves nothing for the others. -/
lemma eq_zero_of_sum_le {f : τ → ℕ} {t u : τ} (h : ∑ v, f v ≤ f t) (hu : u ≠ t) : f u = 0 := by
  have h1 := Finset.add_sum_erase Finset.univ f (Finset.mem_univ t)
  have h2 := Finset.single_le_sum (f := f) (fun v _ => Nat.zero_le _)
    (Finset.mem_erase.mpr ⟨hu, Finset.mem_univ u⟩)
  omega

omit [DecidableEq τ] in
lemma le_sum (f : τ → ℕ) (t : τ) : f t ≤ ∑ v, f v :=
  Finset.single_le_sum (f := f) (fun _ _ => Nat.zero_le _) (Finset.mem_univ t)

end Tally

/-! ### Runs that are written out -/

section Numerals

/-- The numbers of one component: the numerals of `Fin 1` in a written run refer to this instance, and
those of the larger families to the next ones. -/
instance neZero_one : NeZero 1 := ⟨Nat.one_ne_zero⟩

instance neZero_two : NeZero 2 := ⟨by decide⟩

instance neZero_three : NeZero 3 := ⟨by decide⟩

instance neZero_four : NeZero 4 := ⟨by decide⟩

end Numerals

end LoginServerChat.Runs
