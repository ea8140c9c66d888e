import Mathlib.Data.List.Rotate
import Mathlib.Tactic

/-!
Windows of a circular list: the `n` elements from place `s` on, past the end to the start.
-/

namespace LoginServerChat.Circular

variable {α : Type*}

def window (b : List α) (s n : ℕ) : List α := (b.rotate s).take n

variable {b b' d : List α} {s n u w : ℕ}

lemma length_window (h : n ≤ b.length) : (window b s n).length = n := by
  simp [window, h]

/-- A window that does not pass the end. -/
lemma window_of_le (h : s + n ≤ b.length) : window b s n = (b.drop s).take n := by
  rw [window, List.rotate_eq_drop_append_take (by omega), List.take_append_of_le_length]
  rw [List.length_drop]
  omega

/-- A window that passes the end. -/
lemma window_of_lt (hs : s ≤ b.length) (h : b.length ≤ s + n) (hn : n ≤ b.length) :
    window b s n = b.drop s ++ b.take (s + n - b.length) := by
  rw [window, List.rotate_eq_drop_append_take hs, List.take_append, List.length_drop,
    List.take_of_length_le (by rw [List.length_drop]; omega), List.take_take]
  congr 2
  omega

lemma take_window (h : u ≤ n) : (window b s n).take u = window b s u := by
  rw [window, window, List.take_take, min_eq_left h]

/-- What is left of a window when its start moves on. -/
lemma drop_window (hu : u ≤ n) (hn : n ≤ b.length) :
    (window b s n).drop u = window b (s + u) (n - u) := by
  have hlen : (b.rotate s).length = b.length := List.length_rotate ..
  rw [window, window, ← List.rotate_rotate]
  generalize b.rotate s = x at hlen ⊢
  rw [List.rotate_eq_drop_append_take (by omega), List.drop_take, List.take_append_of_le_length]
  rw [List.length_drop]
  omega

lemma window_mod : window b (s % b.length) n = window b s n := by
  rw [window, window, List.rotate_mod]

/-- The list has been overwritten with `d` from place `w` on. -/
def Written (b b' d : List α) (w : ℕ) : Prop := b'.rotate w = d ++ (b.rotate w).drop d.length

lemma Written.length (h : Written b b' d w) (hd : d.length ≤ b.length) : b'.length = b.length := by
  have := congrArg List.length h
  simp only [List.length_rotate, List.length_append, List.length_drop] at this
  omega

/-- An overwriting that does not pass the end. -/
lemma written_of_le (h : w + d.length ≤ b.length) :
    Written b (b.take w ++ d ++ b.drop (w + d.length)) d w := by
  have hw : (b.take w).length = w := by
    rw [List.length_take]
    omega
  rw [Written, List.rotate_eq_drop_append_take (by simp; omega),
    List.rotate_eq_drop_append_take (by omega), List.append_assoc, List.drop_append_of_le_length
      (by omega), List.take_append_of_le_length (by omega)]
  rw [List.drop_append_of_le_length (by rw [List.length_drop]; omega), List.drop_drop,
    List.take_of_length_le hw.le, List.drop_of_length_le hw.le, List.nil_append, List.append_assoc]

/-- An overwriting that passes the end: `d` up to the end, then `e` from the start on. -/
lemma written_of_lt {e : List α} (hw : w + d.length = b.length) (he : e.length ≤ w) :
    Written b (e ++ (b.take w ++ d).drop e.length) (d ++ e) w := by
  have h1 : (b.take w).length = w := by
    rw [List.length_take]
    omega
  have h2 : e ++ (b.take w ++ d).drop e.length = (e ++ (b.take w).drop e.length) ++ d := by
    rw [List.drop_append_of_le_length (by omega), List.append_assoc]
  have h3 : (e ++ (b.take w).drop e.length).length = w := by
    rw [List.length_append, List.length_drop]
    omega
  have h4 : (b.drop w ++ b.take w).drop (d ++ e).length = (b.take w).drop e.length := by
    rw [List.length_append, List.drop_append, List.length_drop,
      List.drop_of_length_le (by rw [List.length_drop]; omega), List.nil_append]
    congr 1
    omega
  rw [h2, Written, List.rotate_eq_drop_append_take (by rw [List.length_append]; omega),
    List.rotate_eq_drop_append_take (by omega), h4, List.drop_append_of_le_length h3.ge,
    List.take_append_of_le_length h3.ge, List.drop_of_length_le h3.le, List.take_of_length_le h3.le,
    List.nil_append, List.append_assoc]

/-- **Appending.** What is written behind a window is added to it. -/
lemma Written.window (h : Written b b' d ((s + u) % b.length)) (hd : u + d.length ≤ b.length) :
    window b' s (u + d.length) = window b s u ++ d := by
  have hlen : b'.length = b.length := h.length (by omega)
  -- seen from the place behind the window, its start is `b.length - u` further on
  have hrot : ∀ x : List α, x.length = b.length →
      x.rotate s = (x.rotate ((s + u) % b.length)).rotate (b.length - u) := by
    intro x hx
    rw [← hx, List.rotate_mod, List.rotate_rotate, ← List.rotate_mod x s,
      ← List.rotate_mod x (s + u + (x.length - u))]
    congr 1
    rw [show s + u + (x.length - u) = s + x.length by omega, Nat.add_mod_right]
  have hl : (b.rotate ((s + u) % b.length)).length = b.length := List.length_rotate ..
  have e1 : b'.rotate s = (b.rotate ((s + u) % b.length)).drop (b.length - u) ++
      (d ++ ((b.rotate ((s + u) % b.length)).drop d.length).take (b.length - u - d.length)) := by
    rw [hrot b' hlen, h, List.rotate_eq_drop_append_take (by simp; omega), List.drop_append,
      List.take_append, List.drop_of_length_le (by omega), List.nil_append, List.drop_drop,
      List.take_of_length_le (by omega), show d.length + (b.length - u - d.length) = b.length - u by omega]
  have e2 : b.rotate s = (b.rotate ((s + u) % b.length)).drop (b.length - u) ++
      (b.rotate ((s + u) % b.length)).take (b.length - u) := by
    rw [hrot b rfl, List.rotate_eq_drop_append_take (by omega)]
  have hk : ((b.rotate ((s + u) % b.length)).drop (b.length - u)).length = u := by
    rw [List.length_drop]
    omega
  rw [Circular.window, Circular.window, e1, e2, List.take_append, hk,
    List.take_of_length_le (by omega), show u + d.length - u = d.length by omega,
    List.take_append_of_le_length (Nat.le_refl _), List.take_of_length_le (Nat.le_refl _),
    List.take_append_of_le_length hk.ge, List.take_of_length_le hk.le]

end LoginServerChat.Circular
