import Mathlib.Tactic

/-!
Chains of nodes: each node of a list leads to the one after it, and the last to none.
-/

namespace LoginServerChat.LinkedChain

variable {ν : Type*} {next next' : ν → Option ν} {l l₁ l₂ : List ν} {x y n : ν}

def Chain (next : ν → Option ν) : List ν → Prop
  | [] => True
  | x :: l => next x = l.head? ∧ Chain next l

lemma Chain.congr (h : Chain next l) (he : ∀ x ∈ l, next' x = next x) : Chain next' l := by
  induction l with
  | nil => trivial
  | cons x l ih =>
    refine ⟨?_, ih h.2 fun y hy => he y (List.mem_cons_of_mem _ hy)⟩
    rw [he x List.mem_cons_self]
    exact h.1

lemma Chain.drop (h : Chain next (l₁ ++ l₂)) : Chain next l₂ := by
  induction l₁ with
  | nil => exact h
  | cons x l ih => exact ih h.2

/-- The rest of the chain behind a node. -/
lemma Chain.behind (h : Chain next l) (hx : x ∈ l) :
    ∃ l₁ l₂, l = l₁ ++ x :: l₂ ∧ next x = l₂.head? := by
  obtain ⟨l₁, l₂, rfl⟩ := List.append_of_mem hx
  exact ⟨l₁, l₂, rfl, (Chain.drop h).1⟩

/-- A node that another leads to is in the chain, behind its first. -/
lemma Chain.next_mem (h : Chain next l) (hx : x ∈ l) (hy : next x = some y) : y ∈ l.tail := by
  obtain ⟨l₁, l₂, rfl, hn⟩ := h.behind hx
  rw [hy] at hn
  have hmem : y ∈ l₂ := List.mem_of_mem_head? hn.symm
  rcases l₁ with _ | ⟨z, l₁⟩
  · exact hmem
  · exact List.mem_append_right _ (List.mem_cons_of_mem _ hmem)

/-- The node that leads nowhere is the last. -/
lemma Chain.last (h : Chain next l) (hx : x ∈ l) (hy : next x = none) : ∃ l₁, l = l₁ ++ [x] := by
  obtain ⟨l₁, l₂, rfl, hn⟩ := h.behind hx
  rw [hy] at hn
  exact ⟨l₁, by rw [List.head?_eq_none_iff.mp hn.symm]⟩

/-- The nodes say what is behind them. -/
lemma Chain.unique (h : Chain next (x :: l₁)) (h' : Chain next (x :: l₂)) : l₁ = l₂ := by
  induction l₁ generalizing x l₂ with
  | nil => exact (List.head?_eq_none_iff.mp (h'.1.symm.trans h.1)).symm
  | cons y l₁ ih =>
    obtain ⟨l, rfl⟩ := List.head?_eq_some_iff.mp (h'.1.symm.trans h.1)
    rw [ih h.2 h'.2]

variable [DecidableEq ν]

/-- A node is linked behind the last. -/
lemma Chain.snoc (h : Chain next (l ++ [x])) (hl : (l ++ [x]).Nodup) (hn : n ∉ l ++ [x])
    (hnone : next n = none) : Chain (Function.update next x (some n)) (l ++ [x] ++ [n]) := by
  induction l with
  | nil =>
    have hnx : n ≠ x := fun h => hn (h ▸ List.mem_singleton_self x)
    refine ⟨Function.update_self x _ next, ?_, trivial⟩
    rw [Function.update_of_ne hnx, hnone]
    rfl
  | cons y l ih =>
    rw [List.cons_append, List.nodup_cons] at hl
    have hyx : y ≠ x := by
      rintro rfl
      exact hl.1 (List.mem_append_right _ (List.mem_singleton_self y))
    refine ⟨?_, ih h.2 hl.2 fun hm => hn (List.mem_cons_of_mem _ hm)⟩
    rw [Function.update_of_ne hyx, h.1]
    cases l <;> rfl

/-! ### Words -/

section Line

variable {ω : Type*} {word : Option ν → ω} {hold hold' : ν → ω} {r : List ν}

/-- Each node of a list holds the word for the one after it, and the last the word for none. -/
def Line (word : Option ν → ω) (hold : ν → ω) : List ν → Prop
  | [] => True
  | x :: l => hold x = word l.head? ∧ Line word hold l

omit [DecidableEq ν] in
lemma Line.congr (h : Line word hold l) (he : ∀ x ∈ l, hold' x = hold x) : Line word hold' l := by
  induction l with
  | nil => trivial
  | cons x l ih =>
    refine ⟨?_, ih h.2 fun y hy => he y (List.mem_cons_of_mem _ hy)⟩
    rw [he x List.mem_cons_self]
    exact h.1

omit [DecidableEq ν] in
lemma Line.drop (h : Line word hold (l₁ ++ l₂)) : Line word hold l₂ := by
  induction l₁ with
  | nil => exact h
  | cons x l ih => exact ih h.2

omit [DecidableEq ν] in
/-- What a node of the list holds is the word for the rest. -/
lemma Line.behind (h : Line word hold l) (hx : x ∈ l) :
    ∃ l₁ l₂, l = l₁ ++ x :: l₂ ∧ hold x = word l₂.head? := by
  obtain ⟨l₁, l₂, rfl⟩ := List.append_of_mem hx
  exact ⟨l₁, l₂, rfl, (Line.drop h).1⟩

omit [DecidableEq ν] in
/-- A node that does not hold the word for none holds that for a node behind the first. -/
lemma Line.onward (h : Line word hold l) (hx : x ∈ l) (hne : hold x ≠ word none) :
    ∃ y ∈ l.tail, hold x = word (some y) := by
  obtain ⟨l₁, l₂, rfl, hw⟩ := h.behind hx
  rcases l₂ with _ | ⟨y, l₂⟩
  · exact absurd hw hne
  · refine ⟨y, ?_, hw⟩
    rcases l₁ with _ | ⟨z, l₁⟩
    · exact List.mem_cons_self
    · exact List.mem_append_right _ (List.mem_cons_of_mem _ List.mem_cons_self)

omit [DecidableEq ν] in
/-- The node that holds the word for none is the last. -/
lemma Line.last (hword : Function.Injective word) (h : Line word hold l) (hx : x ∈ l)
    (hn : hold x = word none) : ∃ l₁, l = l₁ ++ [x] := by
  obtain ⟨l₁, l₂, rfl, hw⟩ := h.behind hx
  have hnil := hword (hw.symm.trans hn)
  exact ⟨l₁, by rw [List.head?_eq_none_iff.mp hnil]⟩

/-- The last node of one list is made to hold the word for the first of another. -/
lemma Line.join (h : Line word hold (l ++ [x])) (hr : Line word hold r) (hl : (l ++ [x]).Nodup)
    (hx : x ∉ r) : Line word (Function.update hold x (word r.head?)) (l ++ x :: r) := by
  induction l with
  | nil =>
    refine ⟨Function.update_self _ _ _, hr.congr fun y hy => Function.update_of_ne ?_ _ _⟩
    rintro rfl
    exact hx hy
  | cons y l ih =>
    rw [List.cons_append, List.nodup_cons] at hl
    have hyx : y ≠ x := by
      rintro rfl
      exact hl.1 (List.mem_append_right _ (List.mem_singleton_self y))
    refine ⟨?_, ih h.2 hl.2⟩
    rw [Function.update_of_ne hyx, h.1]
    cases l <;> rfl

end Line

end LoginServerChat.LinkedChain
