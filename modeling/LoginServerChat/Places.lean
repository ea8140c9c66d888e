import Mathlib.Algebra.BigOperators.Group.Finset.Basic
import Mathlib.Tactic

/-!
Things of which each is in one place, and what is where when one of them has moved.
-/

namespace LoginServerChat.Places

variable {ν κ : Type*} [DecidableEq ν] {pl : ν → κ} {q : ν} {O P Q : κ}

/-- A move changes nothing about the places it is not between. -/
lemma moved (hO : pl q = O) (hQ : O ≠ Q) (hP : P ≠ Q) (z : ν) :
    Function.update pl q P z = Q ↔ pl z = Q := by
  by_cases hz : z = q
  · rw [hz, Function.update_self, hO]
    exact ⟨fun h => absurd h hP, fun h => absurd h hQ⟩
  · rw [Function.update_of_ne hz]

/-- What has moved to a place is there, with what was. -/
lemma arrived (z : ν) : Function.update pl q P z = P ↔ z = q ∨ pl z = P := by
  by_cases hz : z = q
  · rw [hz, Function.update_self]
    exact ⟨fun _ => .inl rfl, fun _ => rfl⟩
  · rw [Function.update_of_ne hz]
    exact ⟨.inr, fun h => h.resolve_left hz⟩

/-- What has moved from a place is no longer there. -/
lemma departed (hP : P ≠ Q) (z : ν) : Function.update pl q P z = Q ↔ z ≠ q ∧ pl z = Q := by
  by_cases hz : z = q
  · rw [hz, Function.update_self]
    exact ⟨fun h => absurd h hP, fun h => absurd rfl h.1⟩
  · rw [Function.update_of_ne hz]
    exact ⟨fun h => ⟨hz, h⟩, fun h => h.2⟩

/-! ### Families of lists -/

section Filed

variable {ι : Type*} {L : ι → List ν} {key : ι → κ} {i : ι} {l : List ν}

/-- Each list of a family holds what is at its place, once. -/
structure Filed (L : ι → List ν) (pl : ν → κ) (key : ι → κ) : Prop where
  mem : ∀ i x, x ∈ L i ↔ pl x = key i
  nodup : ∀ i, (L i).Nodup

omit [DecidableEq ν] in
/-- Nothing is at a place that has a list. -/
lemma Filed.nil (hO : ∀ i, O ≠ key i) : Filed (fun _ => ([] : List ν)) (fun _ => O) key :=
  ⟨fun i _ => ⟨fun hm => absurd hm List.not_mem_nil, fun hk => absurd hk (hO i)⟩, fun _ => List.nodup_nil⟩

omit [DecidableEq ν] in
lemma Filed.congr {L' : ι → List ν} (h : Filed L pl key) (hL : ∀ i, L' i = L i) : Filed L' pl key :=
  ⟨fun i x => by rw [hL]; exact h.mem i x, fun i => by rw [hL]; exact h.nodup i⟩

/-- A move between places that have no list. -/
lemma Filed.other (h : Filed L pl key) (hO : pl q = O) (hOk : ∀ i, O ≠ key i) (hP : ∀ i, P ≠ key i) :
    Filed L (Function.update pl q P) key :=
  ⟨fun i x => (h.mem i x).trans (moved hO (hOk i) (hP i) x).symm, h.nodup⟩

variable [DecidableEq ι]

/-- What moves to a place goes to the front of its list. -/
lemma Filed.put (h : Filed L pl key) (hkey : Function.Injective key) (hO : ∀ i, pl q ≠ key i) (i : ι) :
    Filed (Function.update L i (q :: L i)) (Function.update pl q (key i)) key := by
  have hq : ∀ j, q ∉ L j := fun j hm => hO j ((h.mem j q).mp hm)
  refine ⟨fun j x => ?_, fun j => ?_⟩
  · by_cases hj : j = i
    · rw [hj, Function.update_self, arrived, List.mem_cons, h.mem]
    · rw [Function.update_of_ne hj, h.mem]
      exact (moved rfl (hO j) (fun he => hj (hkey he.symm)) x).symm
  · by_cases hj : j = i
    · rw [hj, Function.update_self]
      exact List.nodup_cons.mpr ⟨hq i, h.nodup i⟩
    · rw [Function.update_of_ne hj]
      exact h.nodup j

/-- What is taken out of a list moves to a place that has none. -/
lemma Filed.erase (h : Filed L pl key) (hkey : Function.Injective key) (hq : q ∈ L i)
    (hP : ∀ i, P ≠ key i) :
    Filed (Function.update L i ((L i).erase q)) (Function.update pl q P) key := by
  refine ⟨fun j x => ?_, fun j => ?_⟩
  · by_cases hj : j = i
    · rw [hj, Function.update_self, (h.nodup i).mem_erase_iff, h.mem]
      exact (departed (hP i) x).symm
    · rw [Function.update_of_ne hj, h.mem]
      exact (moved ((h.mem i q).mp hq) (fun he => hj (hkey he.symm)) (hP j) x).symm
  · by_cases hj : j = i
    · rw [hj, Function.update_self]
      exact (h.nodup i).erase q
    · rw [Function.update_of_ne hj]
      exact h.nodup j

/-- The first of a list. -/
lemma Filed.take (h : Filed L pl key) (hkey : Function.Injective key) (hl : L i = q :: l)
    (hP : ∀ i, P ≠ key i) : Filed (Function.update L i l) (Function.update pl q P) key := by
  have := h.erase (q := q) (i := i) hkey (hl ▸ List.mem_cons_self) hP
  rwa [hl, List.erase_cons_head] at this

/-! ### Moves of many -/

/-- All of `l` are moved to `P`. -/
def pour (pl : ν → κ) (l : List ν) (P : κ) (x : ν) : κ := if x ∈ l then P else pl x

lemma pour_mem {x : ν} (hx : x ∈ l) : pour pl l P x = P := if_pos hx

lemma pour_of_notMem {x : ν} (hx : x ∉ l) : pour pl l P x = pl x := if_neg hx

/-- Of two moves of the same only the second counts. -/
lemma pour_pour : pour (pour pl l Q) l P = pour pl l P := by
  funext x
  by_cases hx : x ∈ l
  · rw [pour_mem hx, pour_mem hx]
  · rw [pour_of_notMem hx, pour_of_notMem hx, pour_of_notMem hx]

omit [DecidableEq ι] in
/-- They move between places that have no list. -/
lemma Filed.pass (h : Filed L pl key) (hO : ∀ x ∈ l, ∀ i, pl x ≠ key i) (hP : ∀ i, P ≠ key i) :
    Filed L (pour pl l P) key := by
  refine ⟨fun i x => ?_, h.nodup⟩
  by_cases hx : x ∈ l
  · rw [pour_mem hx, h.mem]
    exact ⟨fun he => absurd he (hO x hx i), fun he => absurd he (hP i)⟩
  · rw [pour_of_notMem hx, h.mem]

/-- A list of the family is emptied. -/
lemma Filed.drain (h : Filed L pl key) (hkey : Function.Injective key) (hP : ∀ i, P ≠ key i) (i : ι) :
    Filed (Function.update L i []) (pour pl (L i) P) key := by
  refine ⟨fun j x => ?_, fun j => ?_⟩
  · by_cases hx : x ∈ L i
    · rw [pour_mem hx]
      refine ⟨fun hm => ?_, fun he => absurd he (hP j)⟩
      by_cases hj : j = i
      · rw [hj, Function.update_self] at hm
        exact absurd hm List.not_mem_nil
      · rw [Function.update_of_ne hj, h.mem, (h.mem i x).mp hx] at hm
        exact absurd (hkey hm).symm hj
    · rw [pour_of_notMem hx, ← h.mem]
      by_cases hj : j = i
      · rw [hj, Function.update_self]
        exact ⟨fun hm => absurd hm List.not_mem_nil, fun hm => absurd hm hx⟩
      · rw [Function.update_of_ne hj]
  · by_cases hj : j = i
    · rw [hj, Function.update_self]
      exact List.nodup_nil
    · rw [Function.update_of_ne hj]
      exact h.nodup j

/-- A list of the family is continued. -/
lemma Filed.append (h : Filed L pl key) (hkey : Function.Injective key) (hl : l.Nodup)
    (hO : ∀ x ∈ l, ∀ i, pl x ≠ key i) (i : ι) :
    Filed (Function.update L i (L i ++ l)) (pour pl l (key i)) key := by
  have hnew : ∀ j, ∀ x ∈ l, x ∉ L j := fun j x hx hm => hO x hx j ((h.mem j x).mp hm)
  refine ⟨fun j x => ?_, fun j => ?_⟩
  · by_cases hx : x ∈ l
    · rw [pour_mem hx]
      by_cases hj : j = i
      · rw [hj, Function.update_self]
        exact ⟨fun _ => rfl, fun _ => List.mem_append_right _ hx⟩
      · rw [Function.update_of_ne hj]
        exact ⟨fun hm => absurd hm (hnew j x hx), fun he => absurd (hkey he).symm hj⟩
    · rw [pour_of_notMem hx, ← h.mem]
      by_cases hj : j = i
      · rw [hj, Function.update_self, List.mem_append]
        exact or_iff_left hx
      · rw [Function.update_of_ne hj]
  · by_cases hj : j = i
    · rw [hj, Function.update_self]
      exact List.nodup_append.mpr ⟨h.nodup i, hl, fun x hx y hy he => hnew i y hy (he ▸ hx)⟩
    · rw [Function.update_of_ne hj]
      exact h.nodup j

end Filed

/-! ### Counting over a family of lists -/

variable {τ : Type*} [Fintype τ] {f : τ → List ν}

/-- In one of the lists, and there once. -/
lemma sum_count_one {t : τ} (hn : (f t).Nodup) (ht : q ∈ f t) (ho : ∀ u ≠ t, q ∉ f u) :
    ∑ u, (f u).count q = 1 := by
  rw [Finset.sum_eq_single t (fun u _ hu => List.count_eq_zero.mpr (ho u hu))
    fun h => absurd (Finset.mem_univ t) h]
  exact List.count_eq_one_of_mem hn ht

/-- In none of them. -/
lemma sum_count_zero (h : ∀ u, q ∉ f u) : ∑ u, (f u).count q = 0 :=
  Finset.sum_eq_zero fun u _ => List.count_eq_zero.mpr (h u)

end LoginServerChat.Places
