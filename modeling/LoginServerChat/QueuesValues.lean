import LoginServerChat.QueuesStep

/-!
Where the values of a queue are: taken, behind the first node of the queue, or with a thread, which has
the value of its own `Enqueue` and those behind its node.
-/

namespace LoginServerChat.QueuesValues

open FifoHistory Queues QueuesInv QueuesStep Runs

variable {ι α τ : Type*} [DecidableEq ι]

/-- The values in a queue. -/
def values (s : State τ ι α) (g : Layout τ ι) (q : ι) : List (Item α) := (g.main q).tail.map s.mem.data

/-- What thread `t` has to put into queue `q`. -/
def pending (s : State τ ι α) (g : Layout τ ι) (q : ι) (t : τ) : List (Item α) :=
  if s.on t = some q then (waiting (s.pc t)).toList ++ (g.side t).tail.map s.mem.data else []

variable [DecidableEq α] [Fintype τ]

/-- Every value of a queue is in one place. -/
structure Stock (s : State τ ι α) (g : Layout τ ι) : Prop where
  count : ∀ q x, (s.log q).count (.call x) =
    (takes (s.log q)).count x + (values s g q).count x + ∑ t, (pending s g q t).count x
  numbered : ∀ q x, .call x ∈ s.log q → x.2 < s.mem.calls
  once : ∀ q x, (s.log q).count (.call x) ≤ 1

variable [DecidableEq τ] {s : State τ ι α} {g g' : Layout τ ι} {t u : τ} {q r : ι} {m' : Mem ι α}
  {p' : Pc ι α} {ev : List (Event (Item α))} {a n z : Node ι} {x : Item α}

omit [DecidableEq α] [Fintype τ] in
lemma pending_other (hu : u ≠ t) (hside : (g'.side u).tail = (g.side u).tail)
    (hd : ∀ y ∈ (g.side u).tail, m'.data y = s.mem.data y) :
    pending (after s t q m' p' ev) g' r u = pending s g r u := by
  unfold pending
  rw [on_other hu, pc_other hu, hside]
  congr 2
  exact List.map_congr_left hd

omit [DecidableEq α] [Fintype τ] in
lemma pending_self : pending (after s t q m' p' ev) g' r t =
    if q = r then (waiting p').toList ++ (g'.side t).tail.map m'.data else [] := by
  unfold pending
  rw [on_self, pc_self]
  simp only [Option.some.injEq]
  rfl

omit [DecidableEq α] [Fintype τ] [DecidableEq τ] in
/-- What a thread has that is about to make a step on queue `q`. -/
lemma pending_on (hS : Shape s g) (hon : s.pc t = .idle ∨ s.on t = some q) : pending s g r t =
    if q = r then (waiting (s.pc t)).toList ++ (g.side t).tail.map s.mem.data else [] := by
  unfold pending
  rcases hon with h | h
  · have hnil : g.side t = [] := side_nil hS (by rw [h]; rfl)
    rw [hnil, h]
    simp [waiting]
  · rw [h]
    simp only [Option.some.injEq]

omit [DecidableEq α] [Fintype τ] in
lemma log_self : (after s t q m' p' ev).log q = s.log q ++ ev := Function.update_self _ _ _

omit [DecidableEq α] [Fintype τ] in
lemma log_other (hr : r ≠ q) : (after s t q m' p' ev).log r = s.log r := Function.update_of_ne hr _ _

/-- A step that calls nothing, or calls `Enqueue`. -/
def Calling (m m' : Mem ι α) (ev : List (Event (Item α))) : Prop :=
  (∀ x, .call x ∉ ev) ∧ m'.calls = m.calls ∨ (∃ v, ev = [.call (v, m.calls)]) ∧ m'.calls = m.calls + 1

lemma stock_after (hV : Stock s g) (hc : Calling s.mem m' ev)
    (hq : ∀ x, ev.count (.call x) + (values s g q).count x + ∑ u, (pending s g q u).count x =
      (takes ev).count x + (values (after s t q m' p' ev) g' q).count x +
        ∑ u, (pending (after s t q m' p' ev) g' q u).count x)
    (hr : ∀ r ≠ q, values (after s t q m' p' ev) g' r = values s g r ∧
      ∀ x, ∑ u, (pending (after s t q m' p' ev) g' r u).count x = ∑ u, (pending s g r u).count x) :
    Stock (after s t q m' p' ev) g' := by
  have hnew : ∀ r x, .call x ∈ (after s t q m' p' ev).log r →
      .call x ∈ s.log r ∨ r = q ∧ .call x ∈ ev := by
    intro r x hm
    by_cases hrq : r = q
    · rw [hrq, log_self, List.mem_append] at hm
      rw [hrq]
      exact hm.imp_right fun h => ⟨rfl, h⟩
    · rw [log_other hrq] at hm
      exact .inl hm
  refine ⟨fun r x => ?_, fun r x hm => ?_, fun r x => ?_⟩
  · by_cases hrq : r = q
    · rw [hrq, log_self, List.count_append, takes_append, List.count_append, hV.count q x]
      have := hq x
      omega
    · rw [log_other hrq, (hr r hrq).1, (hr r hrq).2, hV.count r x]
  · change x.2 < m'.calls
    rcases hc with ⟨hno, he⟩ | ⟨⟨v, rfl⟩, he⟩
    · rw [he]
      exact hV.numbered r x ((hnew r x hm).resolve_right fun h => hno x h.2)
    · rw [he]
      rcases hnew r x hm with h | ⟨-, h⟩
      · exact Nat.lt_succ_of_lt (hV.numbered r x h)
      · obtain rfl := Event.call.inj (List.mem_singleton.mp h)
        exact Nat.lt_succ_self _
  · by_cases hrq : r = q
    · rw [hrq, log_self, List.count_append]
      have hone := hV.once q x
      rcases hc with ⟨hno, -⟩ | ⟨⟨v, rfl⟩, -⟩
      · rw [List.count_eq_zero.mpr (hno x)]
        exact hone
      · by_cases hx : x = (v, s.mem.calls)
        · have hzero : (s.log q).count (.call x) = 0 :=
            List.count_eq_zero.mpr fun hm => Nat.lt_irrefl _ (hx ▸ hV.numbered q x hm)
          rw [hzero, hx]
          simp
        · rw [List.count_eq_zero.mpr fun hm => hx (Event.call.inj (List.mem_singleton.mp hm))]
          exact hone
    · rw [log_other hrq]
      exact hV.once r x

/-- A step in which only thread `t` gives or gets values. -/
lemma stock_own (hS : Shape s g) (hon : s.pc t = .idle ∨ s.on t = some q) (hV : Stock s g)
    (hc : Calling s.mem m' ev)
    (hothers : ∀ u ≠ t, (g'.side u).tail = (g.side u).tail ∧ ∀ y ∈ (g.side u).tail, m'.data y = s.mem.data y)
    (hmains : ∀ r ≠ q, (g'.main r).tail.map m'.data = (g.main r).tail.map s.mem.data)
    (hq : ∀ x, ev.count (.call x) + ((g.main q).tail.map s.mem.data).count x +
        ((waiting (s.pc t)).toList ++ (g.side t).tail.map s.mem.data).count x =
      (takes ev).count x + ((g'.main q).tail.map m'.data).count x +
        ((waiting p').toList ++ (g'.side t).tail.map m'.data).count x) :
    Stock (after s t q m' p' ev) g' := by
  have hsum : ∀ r x, ∃ k, ∑ u, (pending s g r u).count x = k + (pending s g r t).count x ∧
      ∑ u, (pending (after s t q m' p' ev) g' r u).count x =
        k + (pending (after s t q m' p' ev) g' r t).count x := by
    intro r x
    obtain ⟨k, h1, h2⟩ := sum_split_of (f := fun u => (pending s g r u).count x) t
    refine ⟨k, h1, h2 _ fun u hu => ?_⟩
    rw [pending_other hu (hothers u hu).1 (hothers u hu).2]
  refine stock_after hV hc (fun x => ?_) fun r hr => ⟨hmains r hr, fun x => ?_⟩
  · obtain ⟨k, h1, h2⟩ := hsum q x
    rw [h1, h2, pending_on hS hon, pending_self, if_pos rfl, if_pos rfl]
    have := hq x
    change _ + ((g.main q).tail.map s.mem.data).count x + _ = _ + ((g'.main q).tail.map m'.data).count x + _
    omega
  · obtain ⟨k, h1, h2⟩ := hsum r x
    rw [h1, h2, pending_on hS hon, pending_self, if_neg hr.symm, if_neg hr.symm]

/-- No value moves. -/
lemma stock_still (hS : Shape s g) (hon : s.pc t = .idle ∨ s.on t = some q) (hV : Stock s g)
    (hev : ∀ x, .call x ∉ ev ∧ .take x ∉ ev) (hcalls : m'.calls = s.mem.calls)
    (hmain : ∀ r, g'.main r = g.main r) (hside : ∀ u, (g'.side u).tail = (g.side u).tail)
    (hwait : waiting p' = waiting (s.pc t))
    (hd : ∀ y, (∃ r, y ∈ (g.main r).tail) ∨ (∃ u, y ∈ (g.side u).tail) → m'.data y = s.mem.data y) :
    Stock (after s t q m' p' ev) g' := by
  have hmains : ∀ r, (g'.main r).tail.map m'.data = (g.main r).tail.map s.mem.data := by
    intro r
    rw [hmain]
    exact List.map_congr_left fun y hy => hd y (.inl ⟨r, hy⟩)
  refine stock_own hS hon hV (.inl ⟨fun x => (hev x).1, hcalls⟩)
    (fun u _ => ⟨hside u, fun y hy => hd y (.inr ⟨u, hy⟩)⟩) (fun r _ => hmains r) fun x => ?_
  have hsides : (g'.side t).tail.map m'.data = (g.side t).tail.map s.mem.data := by
    rw [hside]
    exact List.map_congr_left fun y hy => hd y (.inr ⟨t, hy⟩)
  rw [hmains, hsides, hwait, List.count_eq_zero.mpr (hev x).1,
    List.count_eq_zero.mpr fun hm => (hev x).2 (mem_takes.mp hm)]

lemma stock_call {v : α} (hS : Shape s g) (hp : s.pc t = .idle) (hV : Stock s g) (hm : m'.data = s.mem.data)
    (hcalls : m'.calls = s.mem.calls + 1) (hwait : waiting p' = some (v, s.mem.calls)) :
    Stock (after s t q m' p' [.call (v, s.mem.calls)]) g := by
  refine stock_own hS (.inl hp) hV (.inr ⟨⟨v, rfl⟩, hcalls⟩) (fun u _ => ⟨rfl, fun y _ => congrFun hm y⟩)
    (fun r _ => by rw [hm]) fun x => ?_
  have hnil : g.side t = [] := side_nil hS (by rw [hp]; rfl)
  rw [hm, hnil, hp, hwait]
  by_cases hx : x = (v, s.mem.calls)
  · rw [hx]
    simp [waiting, takes]
    omega
  · have h1 : ∀ y : Item α, List.count x [y] = if y = x then 1 else 0 := fun y => by
      rw [List.count_singleton]
      simp only [beq_iff_eq]
    simp [waiting, takes, h1, Ne.symm hx]

lemma stock_link (hS : Shape s g) (hon : s.on t = some q) (hV : Stock s g) (hr : ready (s.pc t) = some n)
    (hwait : waiting (s.pc t) = some x) (hdata : s.mem.data n = x) (hwait' : waiting p' = none)
    (hm : m'.data = s.mem.data) (hcalls : m'.calls = s.mem.calls) :
    Stock (after s t q m' p' []) (linked g t q) := by
  obtain ⟨l, hl⟩ := side_cons hS (newNode_of_ready hr)
  obtain ⟨a, k, hk, -⟩ := hS.head q
  have hside : (linked g t q).side t = [] := Function.update_self _ _ _
  refine stock_own hS (.inr hon) hV (.inl ⟨fun _ => List.not_mem_nil, hcalls⟩) (fun u hu => ⟨?_, fun y _ => congrFun hm y⟩)
    (fun r hr => ?_) fun y => ?_
  · exact congrArg List.tail (Function.update_of_ne hu _ _)
  · rw [hm, show (linked g t q).main r = g.main r from Function.update_of_ne hr _ _]
  · have hmain : (linked g t q).main q = g.main q ++ g.side t := Function.update_self _ _ _
    rw [hmain, hside, hm, hwait, hwait', hk, hl]
    simp [hdata, takes]

omit [DecidableEq α] [DecidableEq ι] in
lemma sum_pass {f f' : τ → ℕ} (hut : u ≠ t) (h : ∀ v, v ≠ t → v ≠ u → f' v = f v)
    (hs : f' t + f' u = f t + f u) : ∑ v, f' v = ∑ v, f v := by
  obtain ⟨j, h1, h2⟩ := sum_split_of (f := f) t
  obtain ⟨k, h3, h4⟩ := sum_split_of (f := Function.update f t (f' t)) u
  have h5 := h2 (Function.update f t (f' t)) fun v hv => Function.update_of_ne hv _ _
  have h6 := h4 f' fun v hv => by
    by_cases hvt : v = t
    · rw [hvt, Function.update_self]
    · rw [Function.update_of_ne hvt, h v hvt hv]
  rw [Function.update_of_ne hut] at h3
  rw [Function.update_self] at h5
  omega

lemma stock_hang (hS : Shape s g) (hon : s.on t = some q) (hV : Stock s g) (hr : ready (s.pc t) = some n)
    (hut : u ≠ t) (hu : ready (s.pc u) = some z) (hou : s.on u = some q)
    (hwait : waiting (s.pc t) = some x) (hdata : s.mem.data n = x) (hwait' : waiting p' = none)
    (hm : m'.data = s.mem.data) (hcalls : m'.calls = s.mem.calls) :
    Stock (after s t q m' p' []) (hung g t u) := by
  obtain ⟨l, hl⟩ := side_cons hS (newNode_of_ready hr)
  obtain ⟨k, hk⟩ := side_cons hS (newNode_of_ready hu)
  have hside : (hung g t u).side t = [] := (Function.update_of_ne hut.symm _ _).trans (Function.update_self _ _ _)
  have hsideu : (hung g t u).side u = g.side u ++ g.side t := Function.update_self _ _ _
  have hvalues : ∀ r, values (after s t q m' p' []) (hung g t u) r = values s g r := by
    intro r
    change (g.main r).tail.map m'.data = _
    rw [hm]
    rfl
  have hsum : ∀ r y, ∑ v, (pending (after s t q m' p' []) (hung g t u) r v).count y =
      ∑ v, (pending s g r v).count y := by
    intro r y
    refine sum_pass hut (fun v hvt hvu => ?_) ?_
    · rw [pending_other hvt (congrArg List.tail ((Function.update_of_ne hvu _ _).trans (Function.update_of_ne hvt _ _)))
        fun y _ => congrFun hm y]
    · rw [pending_self, pending_on hS (.inr hon), pending, pending, on_other hut, pc_other hut, hou, hside, hsideu, hwait,
        hwait', hk, hl]
      simp only [Option.some.injEq]
      change _ + List.count y (if q = r then _ ++ List.map m'.data _ else []) = _
      rw [hm]
      split
      · simp [hdata]
        omega
      · rfl
  refine stock_after hV (.inl ⟨fun _ => List.not_mem_nil, hcalls⟩) (fun y => ?_) fun r _ => ⟨hvalues r, hsum r⟩
  rw [hvalues, hsum]
  rfl

lemma stock_take {l : List (Node ι)} (hS : Shape s g) (hon : s.on t = some q) (hV : Stock s g)
    (hc : g.main q = a :: z :: l) (hnew0 : newNode (s.pc t) = none) (hwait0 : waiting (s.pc t) = none)
    (hwait : waiting p' = none) (hdata : s.mem.data z = x) (hm : m'.data = s.mem.data)
    (hcalls : m'.calls = s.mem.calls) : Stock (after s t q m' p' [.take x]) (took g t q a (z :: l)) := by
  refine stock_own hS (.inr hon) hV (.inl ⟨fun y hy => (nomatch List.mem_singleton.mp hy), hcalls⟩)
    (fun u hu => ⟨rfl, fun y _ => congrFun hm y⟩) (fun r hr => ?_) fun y => ?_
  · rw [hm, show (took g t q a (z :: l)).main r = g.main r from Function.update_of_ne hr _ _]
  · have hmain : (took g t q a (z :: l)).main q = z :: l := Function.update_self _ _ _
    have hside : (took g t q a (z :: l)).side t = [] := show g.side t = [] from side_nil hS hnew0
    rw [hmain, hside, side_nil hS hnew0, hm, hwait, hwait0, hc]
    simp [hdata, takes, List.count_cons]
    omega

end LoginServerChat.QueuesValues
