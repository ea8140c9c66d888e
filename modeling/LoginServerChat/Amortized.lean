import LoginServerChat.Runs

/-!
What the runs of a machine cost, and the potential method.

The threads of a machine often go round a loop because another thread has been faster. Who pays for
such a round is the one that was faster: each success makes at most the other threads' readings
stale, and a round is lost only on a stale reading.
-/

namespace LoginServerChat.Amortized

open Runs

variable {σ α : Type*} {next : σ → α → Option σ} {ok : σ → α → Prop} {s s' s₀ : σ} {l : List α} {a : α}

/-- A run from one state to another, by its actions. -/
inductive Trace (next : σ → α → Option σ) (ok : σ → α → Prop) : σ → List α → σ → Prop
  | nil {s : σ} : Trace next ok s [] s
  | cons {s s' s'' : σ} {a : α} {l : List α} :
      ok s a → next s a = some s' → Trace next ok s' l s'' → Trace next ok s (a :: l) s''

/-- A run goes on through states that are reached. -/
lemma Trace.reach (h : Trace next ok s l s') (hr : Reach next ok s₀ s) : Reach next ok s₀ s' := by
  induction h with
  | nil => exact hr
  | cons ho hn _ ih => exact ih (.step hr ho hn)

lemma trace_of_run {okb : σ → α → Bool} (hok : ∀ s a, okb s a = true → ok s a)
    (h : run next okb s l = some s') : Trace next ok s l s' := by
  induction l generalizing s with
  | nil =>
    obtain rfl := Option.some.inj h
    exact .nil
  | cons a l ih =>
    simp only [run, Option.ite_none_right_eq_some, Option.bind_eq_some_iff] at h
    obtain ⟨ha, s₁, hn, h⟩ := h
    exact .cons (hok _ _ ha) hn (ih h)

/-- What the actions of a run cost in all, an action costing `f` in the state it is taken in. -/
def total (next : σ → α → Option σ) (f : σ → α → ℕ) : σ → List α → ℕ
  | _, [] => 0
  | s, a :: l => f s a + (next s a).elim 0 fun s' => total next f s' l

lemma total_cons {f : σ → α → ℕ} (h : next s a = some s') :
    total next f s (a :: l) = f s a + total next f s' l := by
  rw [total, h]
  rfl

/-- **The potential method.** What is spent beyond what is paid in comes out of the potential. -/
theorem total_le {f g : σ → α → ℕ} {Φ : σ → ℕ}
    (hstep : ∀ s s' a, Reach next ok s₀ s → ok s a → next s a = some s' → f s a + Φ s' ≤ Φ s + g s a)
    (hr : Reach next ok s₀ s) (h : Trace next ok s l s') :
    total next f s l + Φ s' ≤ Φ s + total next g s l := by
  induction h with
  | nil => simp [total]
  | cons ho hn _ ih =>
    have h1 := hstep _ _ _ hr ho hn
    have h2 := ih (.step hr ho hn)
    rw [total_cons hn, total_cons hn]
    omega

/-- What each step adds to a quantity adds up to what the run adds to it. -/
lemma total_eq {f : σ → α → ℕ} {F : σ → ℕ} (hstep : ∀ s s' a, next s a = some s' → F s' = F s + f s a)
    (h : Trace next ok s l s') : F s' = F s + total next f s l := by
  induction h with
  | nil => rfl
  | cons _ hn _ ih => rw [ih, hstep _ _ _ hn, total_cons hn, Nat.add_assoc]

/-- A run costs as many steps as it has actions. -/
lemma total_one (h : Trace next ok s l s') : total next (fun _ _ => 1) s l = l.length := by
  induction h with
  | nil => rfl
  | cons _ hn _ ih => rw [total_cons hn, ih, List.length_cons, Nat.add_comm]

lemma total_add (f g : σ → α → ℕ) (h : Trace next ok s l s') :
    total next (fun s a => f s a + g s a) s l = total next f s l + total next g s l := by
  induction h with
  | nil => rfl
  | cons _ hn _ ih =>
    rw [total_cons hn, total_cons hn, total_cons hn, ih]
    omega

lemma total_mul (n : ℕ) (f : σ → α → ℕ) (h : Trace next ok s l s') :
    total next (fun s a => n * f s a) s l = n * total next f s l := by
  induction h with
  | nil => rfl
  | cons _ hn _ ih => rw [total_cons hn, total_cons hn, ih, Nat.mul_add]

/-! ### Threads -/

section Threads

variable {τ π : Type*} [Fintype τ] [DecidableEq τ] {who : α → τ} {pc : σ → τ → π} {f g : σ → α → ℕ}
  {stale : σ → τ → Prop} [∀ s u, Decidable (stale s u)] {lost won fin : σ → α → ℕ} {B C D W : ℕ} {φ : π → ℕ}

/-- A potential that is read off the points of the threads, of which a step moves one. -/
theorem total_points (hpc : ∀ s s' a, next s a = some s' → ∀ u ≠ who a, pc s' u = pc s u)
    (hstep : ∀ s s' a, ok s a → next s a = some s' →
      f s a + φ (pc s' (who a)) ≤ φ (pc s (who a)) + g s a) (h : Trace next ok s l s') :
    total next f s l ≤ ∑ u, φ (pc s u) + total next g s l := by
  have hinit : Reach next ok s s := .init
  refine (Nat.le_add_right _ _).trans
    (total_le (Φ := fun s => ∑ u, φ (pc s u)) (fun s s' a _ ho hn => ?_) hinit h)
  obtain ⟨n, h1, h2⟩ := sum_split_of (f := fun u => φ (pc s u)) (who a)
  have h3 := h2 (fun u => φ (pc s' u)) fun u hu => by rw [hpc s s' a hn u hu]
  have := hstep s s' a ho hn
  omega

omit [DecidableEq τ] in
lemma sum_points_le (h : ∀ p, φ p ≤ C) (s : σ) : ∑ u, φ (pc s u) ≤ C * Fintype.card τ := by
  calc ∑ u, φ (pc s u) ≤ ∑ _u : τ, C := Finset.sum_le_sum fun u _ => h _
    _ = C * Fintype.card τ := by rw [Finset.sum_const, Finset.card_univ, smul_eq_mul, Nat.mul_comm]

/-- How many threads have a stale reading. -/
def stales (stale : σ → τ → Prop) [∀ s u, Decidable (stale s u)] (s : σ) : ℕ := ∑ u, if stale s u then 1 else 0

omit [DecidableEq τ] in
lemma stales_le (s : σ) : stales stale s ≤ Fintype.card τ := by
  calc stales stale s ≤ ∑ _u : τ, 1 := Finset.sum_le_sum fun u _ => by split_ifs <;> simp
    _ = Fintype.card τ := by rw [Finset.sum_const, Finset.card_univ, smul_eq_mul, Nat.mul_one]

/-- A step loses a round on a stale reading, or makes no reading stale; or it succeeds, and has none. -/
structure Contended (next : σ → α → Option σ) (ok : σ → α → Prop) (s₀ : σ) (who : α → τ)
    (stale : σ → τ → Prop) (lost won : σ → α → ℕ) : Prop where
  step : ∀ s s' a, Reach next ok s₀ s → ok s a → next s a = some s' →
    (lost s a = 0 ∧ 0 < won s a ∧ ¬stale s' (who a)) ∨
    ((∀ u, stale s' u → stale s u) ∧
      (lost s a = 0 ∨ lost s a = 1 ∧ stale s (who a) ∧ ¬stale s' (who a)))

/-- **Contention.** A success costs the other threads at most one round each. -/
theorem Contended.total_lost (hC : Contended next ok s₀ who stale lost won) (hr : Reach next ok s₀ s) (h : Trace next ok s l s') :
    total next lost s l + stales stale s' ≤ stales stale s + (Fintype.card τ - 1) * total next won s l := by
  rw [← total_mul _ _ h]
  refine total_le (Φ := stales stale) (fun s s' a hr ho hn => ?_) hr h
  have hsplit : ∀ s, stales stale s = (if stale s (who a) then 1 else 0) +
      ∑ u ∈ Finset.univ.erase (who a), if stale s u then 1 else 0 := fun s =>
    (Finset.add_sum_erase _ _ (Finset.mem_univ (who a))).symm
  rcases hC.step s s' a hr ho hn with ⟨h0, hw, hs⟩ | ⟨hmono, hlost⟩
  · have hle : ∑ u ∈ Finset.univ.erase (who a), (if stale s' u then 1 else 0) ≤ Fintype.card τ - 1 := by
      calc ∑ u ∈ Finset.univ.erase (who a), (if stale s' u then 1 else 0)
          ≤ ∑ _u ∈ Finset.univ.erase (who a), 1 :=
            Finset.sum_le_sum fun u _ => by split_ifs <;> simp
        _ = Fintype.card τ - 1 := by
            rw [Finset.sum_const, Finset.card_erase_of_mem (Finset.mem_univ _), Finset.card_univ, smul_eq_mul,
              Nat.mul_one]
    have hmul : Fintype.card τ - 1 ≤ (Fintype.card τ - 1) * won s a := Nat.le_mul_of_pos_right _ hw
    rw [hsplit s', if_neg hs]
    omega
  · have hle : ∑ u ∈ Finset.univ.erase (who a), (if stale s' u then 1 else 0) ≤
        ∑ u ∈ Finset.univ.erase (who a), if stale s u then 1 else 0 := by
      refine Finset.sum_le_sum fun u _ => ?_
      by_cases hu : stale s' u
      · rw [if_pos hu, if_pos (hmono u hu)]
      · rw [if_neg hu]
        exact Nat.zero_le _
    rw [hsplit s', hsplit s]
    rcases hlost with h0 | ⟨h1, hs, hs'⟩
    · have hown : (if stale s' (who a) then 1 else 0) ≤ if stale s (who a) then 1 else 0 := by
        by_cases hu : stale s' (who a)
        · rw [if_pos hu, if_pos (hmono _ hu)]
        · rw [if_neg hu]
          exact Nat.zero_le _
      omega
    · rw [if_pos hs, if_neg hs']
      omega

/-- What a call can do `W` times is done no more than `W` times for each call that returns, and for each
thread. -/
lemma total_le_calls (hpc : ∀ s s' a, next s a = some s' → ∀ u ≠ who a, pc s' u = pc s u) (hφ : ∀ p, φ p ≤ W)
    (hstep : ∀ s s' a, ok s a → next s a = some s' →
      won s a + φ (pc s' (who a)) ≤ φ (pc s (who a)) + W * fin s a) (h : Trace next ok s l s') :
    total next won s l ≤ W * (Fintype.card τ + total next fin s l) := by
  calc total next won s l ≤ ∑ u, φ (pc s u) + total next (fun s a => W * fin s a) s l :=
        total_points hpc hstep h
    _ ≤ W * Fintype.card τ + W * total next fin s l := by
        rw [total_mul _ _ h]
        exact Nat.add_le_add_right (sum_points_le hφ s) _
    _ = W * (Fintype.card τ + total next fin s l) := (Nat.mul_add _ _ _).symm

/-- **Progress.** A call takes at most `C` steps, `B` more for each round it loses and `D` more for what
succeeds in it. If no more than `W` times as much succeeds as is called, the work of a run is bounded by
the calls that return in it, and one more for each thread. -/
theorem Contended.total_work (hC : Contended next ok s₀ who stale lost won)
    (hpc : ∀ s s' a, next s a = some s' → ∀ u ≠ who a, pc s' u = pc s u) (hφ : ∀ p, φ p ≤ C)
    (hstep : ∀ s s' a, ok s a → next s a = some s' →
      f s a + φ (pc s' (who a)) ≤ φ (pc s (who a)) + (C * fin s a + (B * lost s a + D * won s a)))
    (hr : Reach next ok s₀ s) (h : Trace next ok s l s') (hW : 0 < W)
    (hwon : total next won s l ≤ W * (Fintype.card τ + total next fin s l)) :
    total next f s l ≤ (C + D * W + B * (W * Fintype.card τ)) * (Fintype.card τ + total next fin s l) := by
  obtain _ | ⟨a, l₁⟩ := l
  · exact Nat.zero_le _
  set n := Fintype.card τ with hn
  set F := total next fin s (a :: l₁)
  have hn1 : 1 + (n - 1) * W ≤ W * n := by
    obtain ⟨k, hk⟩ := Nat.exists_eq_add_of_lt (Fintype.card_pos_iff.mpr ⟨who a⟩)
    rw [hn, hk, Nat.zero_add, Nat.add_sub_cancel, Nat.mul_add, Nat.mul_one, Nat.mul_comm k W, Nat.add_comm]
    exact Nat.add_le_add_left hW _
  have hlost : total next lost s (a :: l₁) ≤ W * n * (n + F) := by
    calc total next lost s (a :: l₁) ≤ stales stale s + (n - 1) * total next won s (a :: l₁) :=
          (Nat.le_add_right _ _).trans (hC.total_lost hr h)
      _ ≤ (n + F) + (n - 1) * (W * (n + F)) :=
          Nat.add_le_add ((stales_le s).trans (Nat.le_add_right n F)) (Nat.mul_le_mul_left _ hwon)
      _ = (1 + (n - 1) * W) * (n + F) := by ring
      _ ≤ W * n * (n + F) := Nat.mul_le_mul_right _ hn1
  calc total next f s (a :: l₁)
      ≤ ∑ u, φ (pc s u) +
          total next (fun s a => C * fin s a + (B * lost s a + D * won s a)) s (a :: l₁) :=
        total_points hpc hstep h
    _ = ∑ u, φ (pc s u) +
          (C * F + (B * total next lost s (a :: l₁) + D * total next won s (a :: l₁))) := by
        rw [total_add _ _ h, total_add _ _ h, total_mul _ _ h, total_mul _ _ h, total_mul _ _ h]
    _ ≤ C * n + (C * F + (B * (W * n * (n + F)) + D * (W * (n + F)))) :=
        Nat.add_le_add (sum_points_le hφ s) (Nat.add_le_add_left
          (Nat.add_le_add (Nat.mul_le_mul_left B hlost) (Nat.mul_le_mul_left D hwon)) _)
    _ = (C + D * W + B * (W * n)) * (n + F) := by ring

end Threads

end LoginServerChat.Amortized
