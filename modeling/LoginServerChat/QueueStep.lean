import LoginServerChat.QueueInv

/-!
What the steps of a thread do to the chain: nothing, or `_tail` goes on by a node, a node is taken
from the pool or put back, prepared, linked behind the last one, or taken from the front.
-/

namespace LoginServerChat.QueueStep

open FifoHistory LinkedChain LockFreeQueue QueueInv Runs

variable {α τ : Type*} [DecidableEq τ] {s : Queue τ α} {t : τ} {m' : Mem α} {p' : Pc α}
  {c c' e e' : List ℕ} {n y : ℕ} {b : Ptr} {x : Item α}

/-- The queue after a step of thread `t`. -/
def after (s : Queue τ α) (t : τ) (m' : Mem α) (p' : Pc α) (ev : List (Event (Item α))) : Queue τ α :=
  ⟨m', Function.update s.pc t p', s.log ++ ev⟩

variable {ev : List (Event (Item α))}

lemma pc_self : (after s t m' p' ev).pc t = p' := Function.update_self _ _ _

lemma pc_other {u : τ} (hu : u ≠ t) : (after s t m' p' ev).pc u = s.pc u :=
  Function.update_of_ne hu _ _

/-! ### Shape -/

/-- What threads have, when this one has what it had. -/
lemma owns_after (m' : Mem α) (ev : List (Event (Item α))) (ho : owns p' = owns (s.pc t)) (u : τ) :
    owns ((after s t m' p' ev).pc u) = owns (s.pc u) := by
  by_cases hu : u = t
  · rw [hu, pc_self, ho]
  · rw [pc_other hu]

/-- What they have, when it has nothing. -/
lemma owns_rest {u : τ} {z : ℕ} (ho : owns p' = none)
    (hu : owns ((after s t m' p' ev).pc u) = some z) : u ≠ t ∧ owns (s.pc u) = some z := by
  by_cases hut : u = t
  · rw [hut, pc_self, ho] at hu
    exact absurd hu.symm (Option.some_ne_none z)
  · rw [pc_other hut] at hu
    exact ⟨hut, hu⟩

/-- What they have, when it has got node `n`. -/
lemma owns_new {u : τ} {z : ℕ} (ho : owns p' = some n)
    (hu : owns ((after s t m' p' ev).pc u) = some z) :
    u = t ∧ z = n ∨ u ≠ t ∧ owns (s.pc u) = some z := by
  by_cases hut : u = t
  · rw [hut, pc_self, ho] at hu
    exact .inl ⟨hut, (Option.some.inj hu).symm⟩
  · rw [pc_other hut] at hu
    exact .inr ⟨hut, hu⟩

lemma newNode_after (hn : p'.newNode = (s.pc t).newNode) (u : τ) :
    ((after s t m' p' ev).pc u).newNode = (s.pc u).newNode := by
  by_cases hu : u = t
  · rw [hu, pc_self, hn]
  · rw [pc_other hu]

/-- Who has which nodes, when this thread has what it had. -/
lemma owners_same (hS : Shape s c e) (ho : owns p' = owns (s.pc t)) (hp : m'.pooled = s.mem.pooled) :
    (∀ z ∈ c, (after s t m' p' ev).mem.pooled z = false ∧
      ∀ u, owns ((after s t m' p' ev).pc u) ≠ some z) ∧
    (∀ u z, owns ((after s t m' p' ev).pc u) = some z → (after s t m' p' ev).mem.pooled z = false) ∧
    ∀ u v z, owns ((after s t m' p' ev).pc u) = some z →
      owns ((after s t m' p' ev).pc v) = some z → u = v := by
  have hown := owns_after m' ev ho
  refine ⟨fun z hz => ⟨hp ▸ (hS.used z hz).1, fun u => ?_⟩, fun u z hu => ?_, fun u v z hu hv => ?_⟩
  · rw [hown u]
    exact (hS.used z hz).2 u
  · rw [hown u] at hu
    exact hp ▸ hS.owned u z hu
  · rw [hown] at hu hv
    exact hS.apart u v z hu hv

/-- The nodes stay where they are. -/
lemma shape_same (hS : Shape s c e) (hh : m'.head = s.mem.head) (hx : m'.next = s.mem.next)
    (hp : m'.pooled = s.mem.pooled) (ht : m'.tail.addr ∈ c) (ho : owns p' = owns (s.pc t))
    (hn : p'.newNode = (s.pc t).newNode) : Shape (after s t m' p' ev) c e := by
  obtain ⟨hused, howned, hapart⟩ := owners_same hS ho hp
  refine ⟨hh ▸ hS.head, hS.nodup, hx ▸ hS.chain, ht, hused, howned, hapart, hS.ever, fun z hz hnone => ?_⟩
  rcases hS.ends z hz (hx ▸ hnone) with hc | ⟨u, hu⟩
  · exact .inl hc
  · exact .inr ⟨u, by rw [newNode_after hn u]; exact hu⟩

lemma shape_alloc (hS : Shape s c e) (hq : s.mem.pooled n = true) (hp0 : owns (s.pc t) = none)
    (ho : owns p' = some n) (hn : (s.pc t).newNode = none) (hh : m'.head = s.mem.head)
    (ht : m'.tail = s.mem.tail) (hx : m'.next = s.mem.next)
    (hp : m'.pooled = Function.update s.mem.pooled n false) : Shape (after s t m' p' ev) c e := by
  have hout : ∀ z, s.mem.pooled z = false → z ≠ n := by
    rintro z hz rfl
    exact absurd (hz.symm.trans hq) Bool.false_ne_true
  have hfree : ∀ z, s.mem.pooled z = false → m'.pooled z = false := by
    intro z hz
    rw [hp, Function.update_of_ne (hout z hz)]
    exact hz
  refine ⟨hh ▸ hS.head, hS.nodup, hx ▸ hS.chain, ht ▸ hS.tail, fun z hz => ?_, fun u z hu => ?_,
    fun u v z hu hv => ?_, hS.ever, fun z hz hnone => ?_⟩
  · refine ⟨hfree z (hS.used z hz).1, fun u hu => ?_⟩
    rcases owns_new ho hu with ⟨-, hz'⟩ | ⟨-, hu⟩
    · exact hout z (hS.used z hz).1 hz'
    · exact (hS.used z hz).2 u hu
  · rcases owns_new ho hu with ⟨-, rfl⟩ | ⟨-, hu⟩
    · change m'.pooled z = false
      rw [hp, Function.update_self]
    · exact hfree z (hS.owned u z hu)
  · rcases owns_new ho hu with ⟨hut, hz⟩ | ⟨-, hu⟩ <;> rcases owns_new ho hv with ⟨hvt, hz'⟩ | ⟨-, hv⟩
    · rw [hut, hvt]
    · exact absurd hz (hout z (hS.owned v z hv))
    · exact absurd hz' (hout z (hS.owned u z hu))
    · exact hS.apart u v z hu hv
  · rcases hS.ends z hz (hx ▸ hnone) with hc | ⟨u, hu⟩
    · exact .inl hc
    · have hut : u ≠ t := by
        rintro rfl
        exact absurd (hn.symm.trans hu) (Option.some_ne_none z).symm
      exact .inr ⟨u, by rw [pc_other hut]; exact hu⟩

/-- `newNode->next = _myCode`. -/
lemma shape_setNext (hS : Shape s c e) (hn0 : (s.pc t).newNode = some n) (hn : p'.newNode = some n)
    (hh : m'.head = s.mem.head) (ht : m'.tail = s.mem.tail)
    (hx : m'.next = Function.update s.mem.next n none) (hp : m'.pooled = s.mem.pooled) :
    Shape (after s t m' p' ev) c e := by
  have hnc : ∀ z ∈ c, z ≠ n := by
    rintro z hz rfl
    exact (hS.used z hz).2 t (newNode_owns hn0)
  have ho : owns p' = owns (s.pc t) := (newNode_owns hn).trans (newNode_owns hn0).symm
  obtain ⟨hused, howned, hapart⟩ := owners_same hS ho hp
  refine ⟨hh ▸ hS.head, hS.nodup, ?_, ht ▸ hS.tail, hused, howned, hapart, hS.ever, fun z hz hnone => ?_⟩
  · refine hS.chain.congr fun z hz => ?_
    change m'.next z = s.mem.next z
    rw [hx, Function.update_of_ne (hnc z hz)]
  · by_cases hzn : z = n
    · exact .inr ⟨t, by rw [pc_self, hn, hzn]⟩
    · change m'.next z = none at hnone
      rw [hx, Function.update_of_ne hzn] at hnone
      rcases hS.ends z hz hnone with hc | ⟨u, hu⟩
      · exact .inl hc
      · exact .inr ⟨u, by rw [newNode_after (hn.trans hn0.symm) u]; exact hu⟩

/-- The node is linked behind the last one. -/
lemma shape_link {l : List ℕ} {z : ℕ} (hS : Shape s c e) (hc : c = l ++ [z])
    (hn0 : (s.pc t).newNode = some n) (hnone : s.mem.next n = none) (ho : owns p' = none)
    (hh : m'.head = s.mem.head) (ht : m'.tail = s.mem.tail)
    (hx : m'.next = Function.update s.mem.next z (some n)) (hp : m'.pooled = s.mem.pooled) :
    Shape (after s t m' p' ev) (c ++ [n]) (n :: e) := by
  have hnc : n ∉ c := fun hm => (hS.used n hm).2 t (newNode_owns hn0)
  refine ⟨?_, ?_, ?_, ?_, fun w hw => ?_, fun u w hu => ?_, fun u v w hu hv => ?_, ?_, fun w hw hwn => ?_⟩
  · change (c ++ [n]).head? = some m'.head.addr
    rw [List.head?_append, hS.head, hh]
    rfl
  · rw [List.nodup_append]
    refine ⟨hS.nodup, List.nodup_singleton n, fun a ha d hd => ?_⟩
    rintro rfl
    exact hnc (List.mem_singleton.mp hd ▸ ha)
  · have hch := hS.chain
    have hnd := hS.nodup
    rw [hc] at hch hnd hnc ⊢
    change Chain m'.next _
    rw [hx]
    exact hch.snoc hnd hnc hnone
  · change m'.tail.addr ∈ c ++ [n]
    rw [ht]
    exact List.mem_append_left _ hS.tail
  · rcases List.mem_append.mp hw with hw | hw
    · refine ⟨hp ▸ (hS.used w hw).1, fun u hu => ?_⟩
      exact (hS.used w hw).2 u (owns_rest ho hu).2
    · obtain rfl := List.mem_singleton.mp hw
      refine ⟨hp ▸ hS.owned t w (newNode_owns hn0), fun u hu => ?_⟩
      obtain ⟨hut, hu⟩ := owns_rest ho hu
      exact hut (hS.apart u t w hu (newNode_owns hn0))
  · exact hp ▸ hS.owned u w (owns_rest ho hu).2
  · exact hS.apart u v w (owns_rest ho hu).2 (owns_rest ho hv).2
  · intro w hw
    rcases List.mem_append.mp hw with hw | hw
    · exact List.mem_cons_of_mem _ (hS.ever hw)
    · exact List.mem_singleton.mp hw ▸ List.mem_cons_self
  · change m'.next w = none at hwn
    by_cases hwc : w = n
    · exact .inl (List.mem_append_right _ (List.mem_singleton.mpr hwc))
    · have hwz : w ≠ z := by
        rintro rfl
        rw [hx, Function.update_self] at hwn
        exact absurd hwn (Option.some_ne_none n)
      rw [hx, Function.update_of_ne hwz] at hwn
      rcases hS.ends w ((List.mem_cons.mp hw).resolve_left hwc) hwn with hm | ⟨u, hu⟩
      · exact .inl (List.mem_append_left _ hm)
      · have hut : u ≠ t := by
          rintro rfl
          exact hwc (Option.some.inj (hu.symm.trans hn0))
        exact .inr ⟨u, by rw [pc_other hut]; exact hu⟩

/-- `_head` goes on by a node, and the thread has the node it leaves. -/
lemma shape_take {l : List ℕ} (hS : Shape s c e) (hc : c = s.mem.head.addr :: y :: l)
    (htail : s.mem.tail.addr ≠ s.mem.head.addr) (hp0 : owns (s.pc t) = none)
    (ho : owns p' = some s.mem.head.addr) (hh : m'.head.addr = y) (ht : m'.tail = s.mem.tail)
    (hx : m'.next = s.mem.next) (hp : m'.pooled = s.mem.pooled) :
    Shape (after s t m' p' ev) (y :: l) e := by
  have hmem : ∀ w ∈ y :: l, w ∈ c ∧ w ≠ s.mem.head.addr := by
    intro w hw
    have hnd := hS.nodup
    rw [hc, List.nodup_cons] at hnd
    rw [hc]
    refine ⟨List.mem_cons_of_mem _ hw, ?_⟩
    rintro rfl
    exact hnd.1 hw
  have hhead : s.mem.head.addr ∈ c := hc ▸ List.mem_cons_self
  refine ⟨?_, ?_, ?_, ?_, fun w hw => ?_, fun u w hu => ?_, fun u v w hu hv => ?_, ?_, fun w hw hwn => ?_⟩
  · exact congrArg some hh.symm
  · have hnd := hS.nodup
    rw [hc] at hnd
    exact (List.nodup_cons.mp hnd).2
  · have hch := hS.chain
    rw [hc] at hch
    change Chain m'.next _
    rw [hx]
    exact hch.2
  · change m'.tail.addr ∈ y :: l
    have hm := hS.tail
    rw [hc] at hm
    rw [ht]
    exact (List.mem_cons.mp hm).resolve_left htail
  · refine ⟨hp ▸ (hS.used w (hmem w hw).1).1, fun u hu => ?_⟩
    rcases owns_new ho hu with ⟨-, hwh⟩ | ⟨-, hu⟩
    · exact (hmem w hw).2 hwh
    · exact (hS.used w (hmem w hw).1).2 u hu
  · rcases owns_new ho hu with ⟨-, rfl⟩ | ⟨-, hu⟩
    · exact hp ▸ (hS.used _ hhead).1
    · exact hp ▸ hS.owned u w hu
  · rcases owns_new ho hu with ⟨hut, hw⟩ | ⟨-, hu⟩ <;> rcases owns_new ho hv with ⟨hvt, hw'⟩ | ⟨-, hv⟩
    · rw [hut, hvt]
    · exact absurd (hw ▸ hv) ((hS.used _ hhead).2 v)
    · exact absurd (hw' ▸ hu) ((hS.used _ hhead).2 u)
    · exact hS.apart u v w hu hv
  · exact fun w hw => hS.ever (hmem w hw).1
  · rcases hS.ends w hw (hx ▸ hwn) with hm | ⟨u, hu⟩
    · -- the node that is left is followed by another
      rw [hc] at hm
      rcases List.mem_cons.mp hm with rfl | hm
      · have hch := hS.chain
        rw [hc] at hch
        exact absurd (hch.1.symm.trans (hx ▸ hwn)) (Option.some_ne_none y)
      · exact .inl hm
    · have hut : u ≠ t := by
        rintro rfl
        exact absurd (hp0.symm.trans (newNode_owns hu)) (Option.some_ne_none w).symm
      exact .inr ⟨u, by rw [pc_other hut]; exact hu⟩

/-- `Free`. -/
lemma shape_free (hS : Shape s c e) (ho0 : owns (s.pc t) = some n) (hn0 : (s.pc t).newNode = none)
    (ho : owns p' = none) (hh : m'.head = s.mem.head) (ht : m'.tail = s.mem.tail)
    (hx : m'.next = s.mem.next) (hp : m'.pooled = Function.update s.mem.pooled n true) :
    Shape (after s t m' p' ev) c e := by
  refine ⟨hh ▸ hS.head, hS.nodup, hx ▸ hS.chain, ht ▸ hS.tail, fun w hw => ?_, fun u w hu => ?_,
    fun u v w hu hv => hS.apart u v w (owns_rest ho hu).2 (owns_rest ho hv).2, hS.ever, fun w hw hwn => ?_⟩
  · have hwn : w ≠ n := by
      rintro rfl
      exact (hS.used w hw).2 t ho0
    refine ⟨?_, fun u hu => (hS.used w hw).2 u (owns_rest ho hu).2⟩
    change m'.pooled w = false
    rw [hp, Function.update_of_ne hwn]
    exact (hS.used w hw).1
  · obtain ⟨hut, hu⟩ := owns_rest ho hu
    have hwn : w ≠ n := by
      rintro rfl
      exact hut (hS.apart u t w hu ho0)
    change m'.pooled w = false
    rw [hp, Function.update_of_ne hwn]
    exact hS.owned u w hu
  · rcases hS.ends w hw (hx ▸ hwn) with hc | ⟨u, hu⟩
    · exact .inl hc
    · have hut : u ≠ t := by
        rintro rfl
        exact absurd (hn0.symm.trans hu) (Option.some_ne_none w).symm
      exact .inr ⟨u, by rw [pc_other hut]; exact hu⟩

end LoginServerChat.QueueStep
