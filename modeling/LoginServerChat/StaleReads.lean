import LoginServerChat.LinkedChain

/-!
Reading a linked stack whose first node is exchanged, and counting its removals. A reader takes down
the count, then the first node, then the node behind it. As long as the count has not gone on, nodes
have only been added before what it has read.
-/

namespace LoginServerChat.StaleReads

open LinkedChain

variable {ν : Type*} {next next' : ν → Option ν} {l l' : List ν} {N N' v : ℕ} {a n : ν} {y : Option ν}

/-- Node `a` was the first after `v` removals had been counted; now there are `N`, and the stack
is `l`. -/
structure Seen (l : List ν) (N v : ℕ) (a : ν) : Prop where
  le : v ≤ N
  mem : v = N → a ∈ l

/-- And `y` was read behind it. -/
structure Read (next : ν → Option ν) (l : List ν) (N v : ℕ) (a : ν) (y : Option ν) : Prop
    extends Seen l N v a where
  next : v = N → next a = y

/-- What a step of somebody else does to the stack: it has no new removal, and the nodes in it stay
and lead where they did, or it has. -/
structure Grows (next next' : ν → Option ν) (l l' : List ν) (N N' : ℕ) : Prop where
  le : N ≤ N'
  keep : N' = N → ∀ x ∈ l, x ∈ l' ∧ next' x = next x

lemma Grows.rest (h : ∀ x ∈ l, next' x = next x) : Grows next next' l l N N :=
  ⟨le_refl N, fun _ x hx => ⟨hx, h x hx⟩⟩

lemma Grows.push (h : ∀ x ∈ l, next' x = next x) : Grows next next' l (n :: l) N N :=
  ⟨le_refl N, fun _ x hx => ⟨List.mem_cons_of_mem n hx, h x hx⟩⟩

lemma Grows.pop : Grows next next' l l' N (N + 1) :=
  ⟨Nat.le_succ N, fun h => absurd h (Nat.succ_ne_self N)⟩

lemma Seen.grow (h : Seen l N v a) (hg : Grows next next' l l' N N') : Seen l' N' v a := by
  refine ⟨h.le.trans hg.le, fun hv => ?_⟩
  have hN : N' = N := le_antisymm (hv ▸ h.le) hg.le
  exact (hg.keep hN a (h.mem (hv.trans hN))).1

lemma Read.grow (h : Read next l N v a y) (hg : Grows next next' l l' N N') :
    Read next' l' N' v a y := by
  refine ⟨h.toSeen.grow hg, fun hv => ?_⟩
  have hN : N' = N := le_antisymm (hv ▸ h.le) hg.le
  rw [(hg.keep hN a (h.mem (hv.trans hN))).2]
  exact h.next (hv.trans hN)

/-- **The exchange.** If the count is the one read and the first node as well, what was read is what
the stack is now. -/
theorem Read.exchange (h : Read next l N v a y) (hc : Chain next l) (hv : v = N) (ha : l.head? = some a) :
    ∃ r, l = a :: r ∧ r.head? = y := by
  obtain ⟨r, rfl⟩ := List.head?_eq_some_iff.mp ha
  exact ⟨r, rfl, hc.1.symm.trans (h.next hv)⟩

end LoginServerChat.StaleReads
