import Mathlib.Tactic

/-!
Transducers that replace the elements of a list one after the other, with a state that is carried
from element to element, and loops that do so inside a longer list.
-/

namespace LoginServerChat.Transducer

variable {σ α β : Type*}

def transduce (f : σ → α → β × σ) : σ → List α → List β
  | _, [] => []
  | s, x :: xs => (f s x).1 :: transduce f (f s x).2 xs

@[simp] lemma length_transduce (f : σ → α → β × σ) (s : σ) (xs : List α) :
    (transduce f s xs).length = xs.length := by
  induction xs generalizing s with
  | nil => rfl
  | cons x xs ih => simp [transduce, ih]

/-- Rounds that undo one another, and carry the same state, make passes that do. -/
lemma transduce_transduce {f : σ → α → β × σ} {g : σ → β → α × σ}
    (h : ∀ s x, g s (f s x).1 = (x, (f s x).2)) (s : σ) (xs : List α) :
    transduce g s (transduce f s xs) = xs := by
  induction xs generalizing s with
  | nil => rfl
  | cons x xs ih => simp [transduce, h, ih]

section Loop

variable {f : σ → α → α × σ} {pos : σ → ℕ} {F : ℕ → σ → List α → Option (List α)}

/-- A loop over the places `pos s, pos s + 1, ..` of a list. -/
structure IsLoop (f : σ → α → α × σ) (pos : σ → ℕ) (F : ℕ → σ → List α → Option (List α)) :
    Prop where
  zero : ∀ s b, F 0 s b = some b
  succ : ∀ n s b, F (n + 1) s b =
    b[pos s]?.bind fun x => F n (f s x).2 (b.set (pos s) (f s x).1)
  next : ∀ s x, pos (f s x).2 = pos s + 1

lemma IsLoop.eq_some (h : IsLoop f pos F) {n : ℕ} {s : σ} {b : List α} (hn : pos s + n ≤ b.length) :
    F n s b = some (b.take (pos s) ++ transduce f s ((b.drop (pos s)).take n) ++
      b.drop (pos s + n)) := by
  induction n generalizing s b with
  | zero => simp [h.zero, transduce]
  | succ n ih =>
    have hi : pos s < b.length := by omega
    have hnext := h.next s b[pos s]
    rw [h.succ, List.getElem?_eq_getElem hi, Option.bind_some, ih (by simp only [List.length_set]; omega),
      hnext, List.drop_eq_getElem_cons hi, List.take_succ_cons, transduce,
      List.drop_set_of_lt (by omega), List.drop_set_of_lt (by omega),
      List.take_add_one, List.getElem?_set_self hi, List.take_set_of_le (le_refl _)]
    simp only [Option.toList_some, List.append_assoc, List.cons_append, List.nil_append]
    rw [show pos s + 1 + n = pos s + (n + 1) by omega]

end Loop

end LoginServerChat.Transducer
