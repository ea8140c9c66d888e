import LoginServerChat.QueuesInv

/-!
What the steps of a thread do to the lists: nothing, or a node is allocated, prepared, linked behind the
last one of a queue or of another thread, taken from the front, or freed.
-/

namespace LoginServerChat.QueuesStep

open FifoHistory LinkedChain Places Queues QueuesInv

variable {ι α τ : Type*} [DecidableEq ι] [DecidableEq τ] {s : State τ ι α} {g g' : Layout τ ι} {t : τ} {q : ι}
  {m' : Mem ι α} {p' : Pc ι α} {ev : List (Event (Item α))} {a n z : Node ι}

/-- The queues after a step of thread `t` on queue `q`. -/
def after (s : State τ ι α) (t : τ) (q : ι) (m' : Mem ι α) (p' : Pc ι α) (ev : List (Event (Item α))) :
    State τ ι α :=
  ⟨m', Function.update s.on t (some q), Function.update s.pc t p',
    Function.update s.log q (s.log q ++ ev)⟩

lemma pc_self : (after s t q m' p' ev).pc t = p' := Function.update_self _ _ _

lemma pc_other {u : τ} (hu : u ≠ t) : (after s t q m' p' ev).pc u = s.pc u := Function.update_of_ne hu _ _

lemma on_self : (after s t q m' p' ev).on t = some q := Function.update_self _ _ _

lemma on_other {u : τ} (hu : u ≠ t) : (after s t q m' p' ev).on u = s.on u := Function.update_of_ne hu _ _

/-- What thread `t` has to itself at a point, when that is what it had. -/
lemma role_after {β : Type*} (f : Pc ι α → β) (m' : Mem ι α) (ev : List (Event (Item α)))
    (hf : f p' = f (s.pc t)) (u : τ) : f ((after s t q m' p' ev).pc u) = f (s.pc u) := by
  by_cases hu : u = t
  · rw [hu, pc_self, hf]
  · rw [pc_other hu]

/-- When it has nothing now, what others have is what they had. -/
lemma role_rest {β : Type*} {f : Pc ι α → Option β} {u : τ} {x : β} (hf : f p' = none)
    (hu : f ((after s t q m' p' ev).pc u) = some x) : u ≠ t ∧ f (s.pc u) = some x := by
  by_cases hut : u = t
  · rw [hut, pc_self, hf] at hu
    exact absurd hu.symm (Option.some_ne_none x)
  · rw [pc_other hut] at hu
    exact ⟨hut, hu⟩

omit [DecidableEq ι] [DecidableEq τ] in
/-- And when it had nothing. -/
lemma role_ne {β : Type*} {f : Pc ι α → Option β} {u : τ} {x : β} (hf : f (s.pc t) = none)
    (hu : f (s.pc u) = some x) : u ≠ t := by
  rintro rfl
  exact absurd (hf.symm.trans hu) (Option.some_ne_none x).symm

/-- A thread that has a node stays on its queue. -/
lemma on_ready (hon : s.pc t = .idle ∨ s.on t = some q) {u : τ} (hu : ready (s.pc u) = some n) :
    (after s t q m' p' ev).on u = s.on u := by
  by_cases hut : u = t
  · rw [hut, on_self]
    rcases hon with h | h
    · rw [hut, h] at hu
      exact nomatch hu
    · exact h.symm
  · exact on_other hut

/-! ### The places -/

omit [DecidableEq ι] [DecidableEq τ] in
lemma side_nil (hS : Shape s g) (h : newNode (s.pc t) = none) : g.side t = [] :=
  List.head?_eq_none_iff.mp ((hS.sideHead t).trans h)

omit [DecidableEq ι] [DecidableEq τ] in
/-- The list of a thread whose node is not prepared. -/
lemma side_raw (hS : Shape s g) (h : newNode (s.pc t) = some n) (hr : ready (s.pc t) = none) : g.side t = [n] := by
  have hhead := (hS.sideHead t).trans h
  have htail := hS.sideRaw t hr
  rcases hl : g.side t with _ | ⟨x, l⟩
  · rw [hl] at hhead
    exact absurd hhead.symm (Option.some_ne_none n)
  · rw [hl] at hhead htail
    rw [Option.some.inj hhead, show l = [] from htail]

omit [DecidableEq ι] [DecidableEq τ] in
lemma side_cons (hS : Shape s g) (h : newNode (s.pc t) = some n) : ∃ l, g.side t = n :: l := by
  have hhead := (hS.sideHead t).trans h
  rcases hl : g.side t with _ | ⟨x, l⟩
  · rw [hl] at hhead
    exact absurd hhead.symm (Option.some_ne_none n)
  · rw [hl] at hhead
    exact ⟨l, by rw [Option.some.inj hhead]⟩

omit [DecidableEq ι] [DecidableEq τ] in
lemma place_new (hS : Shape s g) (h : newNode (s.pc t) = some n) : g.place n = .side t := by
  obtain ⟨l, hl⟩ := side_cons hS h
  exact (hS.sides.mem t n).mp (hl ▸ List.mem_cons_self)

omit [DecidableEq ι] [DecidableEq τ] in
lemma not_main (hS : Shape s g) (h : g.place n = .side t) (r : ι) : n ∉ g.main r :=
  fun hm => nomatch h.symm.trans ((hS.mains.mem r n).mp hm)

/-- The nodes stay where they are. -/
lemma shape_same (hS : Shape s g) (hon : s.pc t = .idle ∨ s.on t = some q)
    (hh : m'.head = s.mem.head) (hx : m'.next = s.mem.next) (hp : m'.pooled = s.mem.pooled)
    (ht : ∀ r, ∃ a ∈ g.main r, (m'.tail r).word = .node a) (hnew : newNode p' = newNode (s.pc t))
    (hready : ready p' = ready (s.pc t)) (htaken : taken p' = taken (s.pc t)) :
    Shape (after s t q m' p' ev) g := by
  refine ⟨hS.mains, hS.sides, fun b => ?_, fun u b => ?_, fun r => ?_, ht, fun r => ?_, fun u => ?_, fun u hu => ?_,
    fun u r n hu hr => ?_, hS.falling, hS.bounded⟩
  · exact hp ▸ hS.pool b
  · rw [role_after taken m' ev htaken]
    exact hS.gone u b
  · exact hh ▸ hS.head r
  · exact hx ▸ hS.line r
  · rw [role_after newNode m' ev hnew]
    exact hS.sideHead u
  · rw [role_after ready m' ev hready] at hu
    exact hS.sideRaw u hu
  · rw [role_after ready m' ev hready] at hu
    rw [on_ready hon hu] at hr
    exact hx ▸ hS.sideLine u r n hu hr

lemma sound_same (hon : s.pc t = .idle ∨ s.on t = some q) (hx : m'.next = s.mem.next)
    (hready : ready p' = ready (s.pc t)) (h : Sound s g a) : Sound (after s t q m' p' ev) g a := by
  refine h.move (congrFun hx a) fun r _ hh => hh.imp_right fun ⟨u, n, hu, hr, ho⟩ => ⟨u, n, hu, ?_, ?_⟩
  · rw [role_after ready m' ev hready]
    exact hr
  · rw [on_ready hon hr]
    exact ho

/-- A node that stays where it is still belongs there, if the thread had none to link. -/
lemma home_rest {x : Node ι} {r : ι} (hready : ready (s.pc t) = none) (hplace : g'.place x = g.place x)
    (h : Home s g r x) : Home (after s t q m' p' ev) g' r x := by
  unfold Home
  rw [hplace]
  refine h.imp_right fun ⟨u, j, hu, hr, ho⟩ => ?_
  have hut := role_ne hready hr
  exact ⟨u, j, hu, by rw [pc_other hut]; exact hr, by rw [on_other hut]; exact ho⟩

/-- Thread `t` has got node `n`. -/
def allocated (g : Layout τ ι) (t : τ) (n : Node ι) : Layout τ ι where
  main := g.main
  side := Function.update g.side t (n :: g.side t)
  place := Function.update g.place n (.side t)
  born := Function.update g.born n g.now
  now := g.now + 1

lemma shape_alloc {b : ℕ} (hS : Shape s g) (hb : s.mem.pooled b = true)
    (hnew0 : newNode (s.pc t) = none) (htaken : taken p' = taken (s.pc t)) (hnew : newNode p' = some (.pool b))
    (hready : ready p' = none) (hh : m'.head = s.mem.head) (ht : m'.tail = s.mem.tail)
    (hx : m'.next = s.mem.next) (hp : m'.pooled = Function.update s.mem.pooled b false) :
    Shape (after s t q m' p' ev) (allocated g t (.pool b)) := by
  have hfree : g.place (.pool b) = .free := (hS.pool b).mp hb
  have hnil := side_nil hS hnew0
  have hself : (allocated g t (.pool b)).side t = [.pool b] := by
    refine (Function.update_self _ _ _).trans ?_
    rw [hnil]
  have hother : ∀ u, u ≠ t → (allocated g t (.pool b)).side u = g.side u :=
    fun u hu => Function.update_of_ne hu _ _
  have hout : ∀ u, .pool b ∉ g.side u := fun u hm => nomatch hfree.symm.trans ((hS.sides.mem u _).mp hm)
  have hborn : ∀ u, ∀ x ∈ g.side u, (allocated g t (.pool b)).born x = g.born x := by
    intro u x hx
    refine Function.update_of_ne ?_ _ _
    rintro rfl
    exact hout u hx
  refine ⟨hS.mains.other hfree (fun _ => nofun) fun _ => nofun,
    hS.sides.put side_inj (fun _ he => nomatch hfree.symm.trans he) t, fun c => ?_, fun u c => ?_, fun r => ?_,
    fun r => ?_, fun r => ?_, fun u => ?_, fun u hu => ?_, fun u r k hu hr => ?_, fun u => ?_, fun u x hx => ?_⟩
  · change m'.pooled c = true ↔ Function.update g.place (.pool b) _ (.pool c) = .free
    rw [hp, departed (by nofun), departed (by nofun), hS.pool c, ne_eq, ne_eq, Node.pool.injEq]
  · rw [role_after taken m' ev htaken, ← hS.gone u c]
    exact moved hfree (by nofun) (by nofun) c
  · exact hh ▸ hS.head r
  · exact ht ▸ hS.tail r
  · exact hx ▸ hS.line r
  · by_cases hu : u = t
    · rw [hu, hself, pc_self, hnew]
      rfl
    · rw [hother u hu, pc_other hu]
      exact hS.sideHead u
  · by_cases hut : u = t
    · rw [hut, hself]
      rfl
    · rw [pc_other hut] at hu
      rw [hother u hut]
      exact hS.sideRaw u hu
  · obtain ⟨hut, hu⟩ := role_rest hready hu
    rw [on_other hut] at hr
    rw [hother u hut]
    exact hx ▸ hS.sideLine u r k hu hr
  · by_cases hu : u = t
    · rw [hu, hself]
      exact List.pairwise_singleton _ _
    · rw [hother u hu]
      refine (hS.falling u).imp_of_mem fun hc hd hlt => ?_
      rw [hborn u _ hc, hborn u _ hd]
      exact hlt
  · by_cases hu : u = t
    · rw [hu, hself] at hx
      rw [List.mem_singleton.mp hx]
      change Function.update g.born _ g.now _ < g.now + 1
      rw [Function.update_self]
      exact Nat.lt_succ_self _
    · rw [hother u hu] at hx
      rw [hborn u x hx]
      exact Nat.lt_succ_of_lt (hS.bounded u x hx)

lemma sound_alloc (hn : g.place n = .free)
    (hready : ready (s.pc t) = none) (hx : m'.next = s.mem.next) (h : Sound s g a) :
    Sound (after s t q m' p' ev) (allocated g t n) a := by
  refine h.move (congrFun hx a) fun r _ hh => ?_
  have han : a ≠ n := by
    rintro rfl
    rcases hh with hm | ⟨u, k, hu, -, -⟩
    · exact nomatch hn.symm.trans hm
    · exact nomatch hn.symm.trans hu
  exact home_rest hready (Function.update_of_ne han _ _) hh

/-- `newNode->next = _myCode`. -/
lemma shape_setNext (hS : Shape s g) (hnew0 : newNode (s.pc t) = some n)
    (hready0 : ready (s.pc t) = none) (hnew : newNode p' = some n) (hready : ready p' = some n)
    (htaken : taken p' = taken (s.pc t)) (hh : m'.head = s.mem.head) (ht : m'.tail = s.mem.tail)
    (hx : m'.next = Function.update s.mem.next n (.mark q)) (hp : m'.pooled = s.mem.pooled) :
    Shape (after s t q m' p' ev) g := by
  have hn := place_new hS hnew0
  have hside := side_raw hS hnew0 hready0
  refine ⟨hS.mains, hS.sides, fun b => ?_, fun u b => ?_, fun r => ?_, fun r => ?_, fun r => ?_, fun u => ?_,
    fun u hu => ?_, fun u r k hu hr => ?_, hS.falling, hS.bounded⟩
  · exact hp ▸ hS.pool b
  · rw [role_after taken m' ev htaken]
    exact hS.gone u b
  · exact hh ▸ hS.head r
  · exact ht ▸ hS.tail r
  · refine (hS.line r).congr fun x hm => ?_
    change m'.next x = _
    rw [hx, Function.update_of_ne]
    rintro rfl
    exact not_main hS hn r hm
  · rw [role_after newNode m' ev (hnew.trans hnew0.symm)]
    exact hS.sideHead u
  · by_cases hut : u = t
    · rw [hut, pc_self, hready] at hu
      exact absurd hu (Option.some_ne_none n)
    · rw [pc_other hut] at hu
      exact hS.sideRaw u hu
  · by_cases hut : u = t
    · rw [hut, on_self] at hr
      obtain rfl := Option.some.inj hr
      rw [hut, hside]
      refine ⟨?_, trivial⟩
      change m'.next n = _
      rw [hx, Function.update_self]
      rfl
    · rw [pc_other hut] at hu
      rw [on_other hut] at hr
      refine (hS.sideLine u r k hu hr).congr fun x hm => ?_
      change m'.next x = _
      rw [hx, Function.update_of_ne]
      rintro rfl
      exact hut (side_inj (((hS.sides.mem u x).mp hm).symm.trans hn))

lemma sound_setNext (hn : g.place n = .side t) (hready0 : ready (s.pc t) = none)
    (hready : ready p' = some n) (hx : m'.next = Function.update s.mem.next n (.mark q)) (h : Sound s g a) :
    Sound (after s t q m' p' ev) g a := by
  by_cases han : a = n
  · have hnext : (after s t q m' p' ev).mem.next a = .mark q := by
      change m'.next a = _
      rw [hx, han, Function.update_self]
    unfold Sound
    rw [hnext]
    exact .inr ⟨t, n, han ▸ hn, by rw [pc_self]; exact hready, on_self⟩
  · refine h.move ?_ fun r _ hh => home_rest hready0 rfl hh
    change m'.next a = _
    rw [hx, Function.update_of_ne han]

/-! ### The link -/

omit [DecidableEq τ] in
/-- What is not with the list of thread `t` stays where it is. -/
lemma poured {P Q : Place τ ι} {x : Node ι} (hS : Shape s g) (hP : P ≠ Q) (hQ : .side t ≠ Q) :
    pour g.place (g.side t) P x = Q ↔ g.place x = Q := by
  by_cases hx : x ∈ g.side t
  · rw [pour_mem hx, (hS.sides.mem t x).mp hx]
    exact ⟨fun he => absurd he hP, fun he => absurd he hQ⟩
  · rw [pour_of_notMem hx]

/-- The list of thread `t` is put behind that of queue `q`. -/
def linked (g : Layout τ ι) (t : τ) (q : ι) : Layout τ ι where
  main := Function.update g.main q (g.main q ++ g.side t)
  side := Function.update g.side t []
  place := pour g.place (g.side t) (.main q)
  born := g.born
  now := g.now

/-- Or behind that of thread `u`. -/
def hung (g : Layout τ ι) (t u : τ) : Layout τ ι where
  main := g.main
  side := Function.update (Function.update g.side t []) u (g.side u ++ g.side t)
  place := pour g.place (g.side t) (.side u)
  born := g.born
  now := g.now

omit [DecidableEq ι] [DecidableEq τ] in
/-- A queue and the list of a thread, when the last node of the queue leads to it. -/
lemma line_join {l r : List (Node ι)} (hl : Line (word q) s.mem.next l) (hr : Line (word q) s.mem.next r)
    (hn : l.Nodup) (ha : a ∈ l) (hmark : s.mem.next a = .mark q) (har : a ∉ r) (hhead : r.head? = some n)
    [DecidableEq (Node ι)] : Line (word q) (Function.update s.mem.next a (.node n)) (l ++ r) := by
  obtain ⟨k, rfl⟩ := hl.last (word_injective q) ha hmark
  have hj := hl.join hr hn har
  rw [hhead] at hj
  rw [List.append_assoc]
  exact hj

lemma shape_link (hS : Shape s g) (hon : s.on t = some q) (hr : ready (s.pc t) = some n)
    (ha : g.place a = .main q) (hmark : s.mem.next a = .mark q) (hnew : newNode p' = none)
    (hready : ready p' = none) (htaken : taken p' = taken (s.pc t)) (hh : m'.head = s.mem.head)
    (ht : m'.tail = s.mem.tail) (hx : m'.next = Function.update s.mem.next a (.node n))
    (hp : m'.pooled = s.mem.pooled) : Shape (after s t q m' p' ev) (linked g t q) := by
  have hmain : (linked g t q).main q = g.main q ++ g.side t := Function.update_self _ _ _
  have hmains : ∀ r, r ≠ q → (linked g t q).main r = g.main r := fun r hr => Function.update_of_ne hr _ _
  have hside : (linked g t q).side t = [] := Function.update_self _ _ _
  have hsides : ∀ u, u ≠ t → (linked g t q).side u = g.side u := fun u hu => Function.update_of_ne hu _ _
  have hnot : ∀ u, a ∉ g.side u := fun u hm => nomatch ha.symm.trans ((hS.sides.mem u a).mp hm)
  refine ⟨hS.mains.append main_inj (hS.sides.nodup t) (fun x hm r he => ?_) q,
    hS.sides.drain side_inj (fun _ => by nofun) t, fun c => ?_, fun u c => ?_, fun r => ?_, fun r => ?_, fun r => ?_,
    fun u => ?_, fun u hu => ?_, fun u r k hu hur => ?_, fun u => ?_, fun u x hm => ?_⟩
  · exact nomatch ((hS.sides.mem t x).mp hm).symm.trans he
  · rw [show (after s t q m' p' ev).mem.pooled = s.mem.pooled from hp]
    exact (hS.pool c).trans (poured hS (by nofun) (by nofun)).symm
  · rw [role_after taken m' ev htaken, ← hS.gone u c]
    exact poured hS (by nofun) (by nofun)
  · obtain ⟨b, l, hb, hw⟩ := hS.head r
    change ∃ a l, _ ∧ (m'.head r).word = _
    rw [hh]
    by_cases hrq : r = q
    · rw [hrq] at hb hw ⊢
      exact ⟨b, l ++ g.side t, by rw [hmain, hb]; rfl, hw⟩
    · rw [hmains r hrq]
      exact ⟨b, l, hb, hw⟩
  · obtain ⟨b, hb, hw⟩ := hS.tail r
    change ∃ a ∈ _, (m'.tail r).word = _
    rw [ht]
    by_cases hrq : r = q
    · rw [hrq] at hb hw ⊢
      rw [hmain]
      exact ⟨b, List.mem_append_left _ hb, hw⟩
    · rw [hmains r hrq]
      exact ⟨b, hb, hw⟩
  · change Line _ m'.next _
    rw [hx]
    by_cases hrq : r = q
    · rw [hrq, hmain]
      exact line_join (hS.line q) (hS.sideLine t q n hr hon) (hS.mains.nodup q) ((hS.mains.mem q a).mpr ha) hmark
        (hnot t) ((hS.sideHead t).trans (newNode_of_ready hr))
    · rw [hmains r hrq]
      refine (hS.line r).congr fun x hm => Function.update_of_ne ?_ _ _
      rintro rfl
      exact hrq (main_inj (((hS.mains.mem r x).mp hm).symm.trans ha))
  · by_cases hu : u = t
    · rw [hu, hside, pc_self, hnew]
      rfl
    · rw [hsides u hu, pc_other hu]
      exact hS.sideHead u
  · by_cases hut : u = t
    · rw [hut, hside]
      rfl
    · rw [pc_other hut] at hu
      rw [hsides u hut]
      exact hS.sideRaw u hu
  · obtain ⟨hut, hu⟩ := role_rest hready hu
    rw [on_other hut] at hur
    rw [hsides u hut]
    change Line _ m'.next _
    rw [hx]
    refine (hS.sideLine u r k hu hur).congr fun x hm => Function.update_of_ne ?_ _ _
    rintro rfl
    exact hnot u hm
  · by_cases hu : u = t
    · rw [hu, hside]
      exact List.Pairwise.nil
    · rw [hsides u hu]
      exact hS.falling u
  · by_cases hu : u = t
    · rw [hu, hside] at hm
      exact absurd hm List.not_mem_nil
    · rw [hsides u hu] at hm
      exact hS.bounded u x hm

lemma sound_link {x : Node ι} (hS : Shape s g) (hon : s.on t = some q)
    (hx : m'.next = Function.update s.mem.next a (.node n)) (h : Sound s g x) :
    Sound (after s t q m' p' ev) (linked g t q) x := by
  by_cases hxa : x = a
  · refine sound_node (z := n) ?_
    change m'.next x = _
    rw [hx, hxa, Function.update_self]
  · refine h.move ?_ fun r _ hh => ?_
    · change m'.next x = _
      rw [hx, Function.update_of_ne hxa]
    · rcases hh with hm | ⟨u, k, hu, hr, ho⟩
      · refine .inl ((pour_of_notMem fun hs => ?_).trans hm)
        exact nomatch hm.symm.trans ((hS.sides.mem t x).mp hs)
      · by_cases hut : u = t
        · have hqr : q = r := Option.some.inj (hon.symm.trans (hut ▸ ho))
          exact .inl (hqr ▸ pour_mem ((hS.sides.mem t x).mpr (hut ▸ hu)))
        · refine .inr ⟨u, k, (pour_of_notMem fun hs => ?_).trans hu, by rw [pc_other hut]; exact hr,
            by rw [on_other hut]; exact ho⟩
          exact hut (side_inj (hu.symm.trans ((hS.sides.mem t x).mp hs)))

omit [DecidableEq ι] [DecidableEq τ] in
/-- The node of thread `t` is older than those of another's list whose last it is linked to. -/
lemma older {u : τ} {k x y : Node ι} (hS : Shape s g) (hr : ready (s.pc t) = some n) (ha : g.place a = .side u)
    (hu : ready (s.pc u) = some k) (hou : s.on u = some q) (hmark : s.mem.next a = .mark q)
    (hyoung : g.born n < g.born a) (hx : x ∈ g.side u) (hy : y ∈ g.side t) : g.born y < g.born x := by
  obtain ⟨l, hl⟩ := side_cons hS (newNode_of_ready hr)
  obtain ⟨l', hl'⟩ := (hS.sideLine u q k hu hou).last (word_injective q) ((hS.sides.mem u a).mpr ha) hmark
  have hyn : g.born y ≤ g.born n := by
    have hf := hS.falling t
    rw [hl, List.pairwise_cons] at hf
    rw [hl] at hy
    rcases List.mem_cons.mp hy with rfl | hy
    · exact le_refl _
    · exact (hf.1 y hy).le
  have hax : g.born a ≤ g.born x := by
    have hf := hS.falling u
    rw [hl', List.pairwise_append] at hf
    rw [hl'] at hx
    rcases List.mem_append.mp hx with hx | hx
    · exact (hf.2.2 x hx a (List.mem_singleton_self a)).le
    · rw [List.mem_singleton.mp hx]
  omega

omit [DecidableEq ι] [DecidableEq τ] in
/-- So it is never linked to its own list. -/
lemma other_side {u : τ} {k : Node ι} (hS : Shape s g) (hr : ready (s.pc t) = some n) (ha : g.place a = .side u)
    (hu : ready (s.pc u) = some k) (hou : s.on u = some q) (hmark : s.mem.next a = .mark q)
    (hyoung : g.born n < g.born a) : u ≠ t := by
  rintro rfl
  obtain ⟨l, hl⟩ := side_cons hS (newNode_of_ready hr)
  have hn : n ∈ g.side u := hl ▸ List.mem_cons_self
  exact Nat.lt_irrefl _ (older hS hr ha hu hou hmark hyoung hn hn)

lemma shape_hang {u : τ} {k : Node ι} (hS : Shape s g) (hon : s.on t = some q) (hr : ready (s.pc t) = some n)
    (ha : g.place a = .side u) (hu : ready (s.pc u) = some k) (hou : s.on u = some q)
    (hmark : s.mem.next a = .mark q) (hyoung : g.born n < g.born a) (hnew : newNode p' = none)
    (hready : ready p' = none) (htaken : taken p' = taken (s.pc t)) (hh : m'.head = s.mem.head)
    (ht : m'.tail = s.mem.tail) (hx : m'.next = Function.update s.mem.next a (.node n))
    (hp : m'.pooled = s.mem.pooled) : Shape (after s t q m' p' ev) (hung g t u) := by
  have hut := other_side hS hr ha hu hou hmark hyoung
  have hside : (hung g t u).side t = [] :=
    (Function.update_of_ne hut.symm _ _).trans (Function.update_self _ _ _)
  have hsideu : (hung g t u).side u = g.side u ++ g.side t := Function.update_self _ _ _
  have hsides : ∀ v, v ≠ t → v ≠ u → (hung g t u).side v = g.side v :=
    fun v h1 h2 => (Function.update_of_ne h2 _ _).trans (Function.update_of_ne h1 _ _)
  have hau : a ∈ g.side u := (hS.sides.mem u a).mpr ha
  have hnot : ∀ v, v ≠ u → a ∉ g.side v :=
    fun v hv hm => hv (side_inj (((hS.sides.mem v a).mp hm).symm.trans ha))
  obtain ⟨l, hl⟩ := side_cons hS (newNode_of_ready hu)
  refine ⟨hS.mains.pass (fun x hm r he => ?_) fun _ => nofun, ?_, fun c => ?_, fun v c => ?_, fun r => ?_,
    fun r => ?_, fun r => ?_, fun v => ?_, fun v hv => ?_, fun v r j hv hvr => ?_, fun v => ?_, fun v x hm => ?_⟩
  · exact nomatch ((hS.sides.mem t x).mp hm).symm.trans he
  · -- the list of thread `t` is laid aside and then put behind that of thread `u`
    have hdrain := hS.sides.drain (P := .lost) side_inj (fun _ => nofun) t
    have happ := hdrain.append side_inj (hS.sides.nodup t) (fun x hm v he => nomatch (pour_mem hm).symm.trans he) u
    rw [pour_pour, Function.update_of_ne hut] at happ
    exact happ
  · rw [show (after s t q m' p' ev).mem.pooled = s.mem.pooled from hp]
    exact (hS.pool c).trans (poured hS (by nofun) (by nofun)).symm
  · rw [role_after taken m' ev htaken, ← hS.gone v c]
    exact poured hS (by nofun) (by nofun)
  · exact hh ▸ hS.head r
  · exact ht ▸ hS.tail r
  · refine (hS.line r).congr fun x hm => ?_
    change m'.next x = _
    rw [hx, Function.update_of_ne]
    rintro rfl
    exact not_main hS ha r hm
  · by_cases hvt : v = t
    · rw [hvt, hside, pc_self, hnew]
      rfl
    · rw [pc_other hvt]
      by_cases hvu : v = u
      · rw [hvu, hsideu, ← hS.sideHead u, hl]
        rfl
      · rw [hsides v hvt hvu]
        exact hS.sideHead v
  · by_cases hvt : v = t
    · rw [hvt, hside]
      rfl
    · rw [pc_other hvt] at hv
      have hvu : v ≠ u := by
        rintro rfl
        exact absurd (hv.symm.trans hu) (Option.some_ne_none k).symm
      rw [hsides v hvt hvu]
      exact hS.sideRaw v hv
  · obtain ⟨hvt, hv⟩ := role_rest hready hv
    rw [on_other hvt] at hvr
    have hline := hS.sideLine v r j hv hvr
    change Line _ m'.next _
    rw [hx]
    by_cases hvu : v = u
    · subst hvu
      obtain rfl : q = r := Option.some.inj (hou.symm.trans hvr)
      rw [hsideu]
      exact line_join hline (hS.sideLine t q n hr hon) (hS.sides.nodup v) hau hmark (hnot t hut.symm)
        ((hS.sideHead t).trans (newNode_of_ready hr))
    · rw [hsides v hvt hvu]
      refine hline.congr fun x hm => Function.update_of_ne ?_ _ _
      rintro rfl
      exact hnot v hvu hm
  · by_cases hvt : v = t
    · rw [hvt, hside]
      exact List.Pairwise.nil
    · by_cases hvu : v = u
      · rw [hvu, hsideu]
        change (g.side u ++ g.side t).Pairwise fun x y => g.born y < g.born x
        exact List.pairwise_append.mpr ⟨hS.falling u, hS.falling t, fun x hxu y hyt =>
          older hS hr ha hu hou hmark hyoung hxu hyt⟩
      · rw [hsides v hvt hvu]
        exact hS.falling v
  · by_cases hvt : v = t
    · rw [hvt, hside] at hm
      exact absurd hm List.not_mem_nil
    · by_cases hvu : v = u
      · rw [hvu, hsideu] at hm
        exact (List.mem_append.mp hm).elim (hS.bounded u x) (hS.bounded t x)
      · rw [hsides v hvt hvu] at hm
        exact hS.bounded v x hm

lemma sound_hang {u : τ} {k x : Node ι} (hS : Shape s g) (hon : s.on t = some q) (hut : u ≠ t)
    (hu : ready (s.pc u) = some k) (hou : s.on u = some q) (hx : m'.next = Function.update s.mem.next a (.node n))
    (h : Sound s g x) : Sound (after s t q m' p' ev) (hung g t u) x := by
  by_cases hxa : x = a
  · refine sound_node (z := n) ?_
    change m'.next x = _
    rw [hx, hxa, Function.update_self]
  · refine h.move ?_ fun r _ hh => ?_
    · change m'.next x = _
      rw [hx, Function.update_of_ne hxa]
    · rcases hh with hm | ⟨v, j, hv, hr, ho⟩
      · refine .inl ((pour_of_notMem fun hs => ?_).trans hm)
        exact nomatch hm.symm.trans ((hS.sides.mem t x).mp hs)
      · by_cases hvt : v = t
        · have hqr : q = r := Option.some.inj (hon.symm.trans (hvt ▸ ho))
          exact .inr ⟨u, k, pour_mem ((hS.sides.mem t x).mpr (hvt ▸ hv)), by rw [pc_other hut]; exact hu,
            by rw [on_other hut, hou, hqr]⟩
        · refine .inr ⟨v, j, (pour_of_notMem fun hs => ?_).trans hv, by rw [pc_other hvt]; exact hr,
            by rw [on_other hvt]; exact ho⟩
          exact hvt (side_inj (hv.symm.trans ((hS.sides.mem t x).mp hs)))

/-! ### The front -/

/-- Thread `t` has taken node `a` from the front of queue `q`. -/
def took (g : Layout τ ι) (t : τ) (q : ι) (a : Node ι) (l : List (Node ι)) : Layout τ ι where
  main := Function.update g.main q l
  side := g.side
  place := Function.update g.place a (.gone t)
  born := g.born
  now := g.now

/-- `_head` goes on by a node. -/
lemma shape_take {l : List (Node ι)} (hS : Shape s g) (hc : g.main q = a :: z :: l)
    (htail : (s.mem.tail q).word ≠ .node a) (htaken0 : taken (s.pc t) = none) (htaken : taken p' = some (.node a))
    (hnew0 : newNode (s.pc t) = none) (hnew : newNode p' = none) (hready : ready p' = none) {k : ℕ}
    (hh : m'.head = Function.update s.mem.head q ⟨.node z, k⟩) (ht : m'.tail = s.mem.tail)
    (hx : m'.next = s.mem.next) (hp : m'.pooled = s.mem.pooled) :
    Shape (after s t q m' p' ev) (took g t q a (z :: l)) := by
  have hmain : (took g t q a (z :: l)).main q = z :: l := Function.update_self _ _ _
  have hmains : ∀ r, r ≠ q → (took g t q a (z :: l)).main r = g.main r := fun r hr => Function.update_of_ne hr _ _
  have ha : g.place a = .main q := (hS.mains.mem q a).mp (hc ▸ List.mem_cons_self)
  refine ⟨hS.mains.take main_inj hc fun _ => nofun, hS.sides.other ha (fun _ => nofun) fun _ => nofun, fun c => ?_,
    fun u c => ?_, fun r => ?_, fun r => ?_, fun r => ?_, fun u => ?_, fun u hu => ?_, fun u r j hu hur => ?_,
    hS.falling, hS.bounded⟩
  · rw [show (after s t q m' p' ev).mem.pooled = s.mem.pooled from hp]
    exact (hS.pool c).trans (moved ha (by nofun) (by nofun) _).symm
  · by_cases hut : u = t
    · rw [hut, pc_self, htaken]
      refine (arrived c).trans ?_
      rw [hS.gone t c, htaken0, Option.some.injEq, Word.node.injEq, eq_comm]
      exact or_iff_left nofun
    · rw [pc_other hut, ← hS.gone u c]
      exact moved ha (by nofun) (fun he => hut (Place.gone.inj he).symm) c
  · change ∃ a l, _ ∧ (m'.head r).word = _
    rw [hh]
    by_cases hrq : r = q
    · rw [hrq, hmain, Function.update_self]
      exact ⟨z, l, rfl, rfl⟩
    · rw [hmains r hrq, Function.update_of_ne hrq]
      exact hS.head r
  · change ∃ a ∈ _, (m'.tail r).word = _
    rw [ht]
    by_cases hrq : r = q
    · obtain ⟨b, hb, hw⟩ := hS.tail r
      rw [hrq] at hb hw ⊢
      rw [hc] at hb
      rw [hmain]
      refine ⟨b, (List.mem_cons.mp hb).resolve_left ?_, hw⟩
      rintro rfl
      exact htail hw
    · rw [hmains r hrq]
      exact hS.tail r
  · change Line _ m'.next _
    rw [hx]
    by_cases hrq : r = q
    · rw [hrq, hmain]
      have hline := hS.line q
      rw [hc] at hline
      exact hline.2
    · rw [hmains r hrq]
      exact hS.line r
  · rw [role_after newNode m' ev (hnew.trans hnew0.symm)]
    exact hS.sideHead u
  · by_cases hut : u = t
    · change (g.side u).tail = []
      rw [hut, side_nil hS hnew0]
      rfl
    · rw [pc_other hut] at hu
      exact hS.sideRaw u hu
  · obtain ⟨hut, hu⟩ := role_rest hready hu
    rw [on_other hut] at hur
    exact hx ▸ hS.sideLine u r j hu hur

lemma sound_take {l : List (Node ι)} {x : Node ι} (hz : s.mem.next a = .node z) (hready0 : ready (s.pc t) = none)
    (hx : m'.next = s.mem.next) (h : Sound s g x) : Sound (after s t q m' p' ev) (took g t q a l) x := by
  by_cases hxa : x = a
  · exact sound_node (z := z) ((congrFun hx x).trans (hxa ▸ hz))
  · exact h.move (congrFun hx x) fun r _ hh => home_rest hready0 (Function.update_of_ne hxa _ _) hh

/-- The node that thread `t` had taken is put to `P`. -/
def freed (g : Layout τ ι) (a : Node ι) (P : Place τ ι) : Layout τ ι where
  main := g.main
  side := g.side
  place := Function.update g.place a P
  born := g.born
  now := g.now

/-- `Free`. -/
lemma shape_free {P : Place τ ι} (hS : Shape s g) (htaken0 : taken (s.pc t) = some (.node a)) (htaken : taken p' = none)
    (hnew0 : newNode (s.pc t) = none) (hnew : newNode p' = none) (hready : ready p' = none)
    (hh : m'.head = s.mem.head) (ht : m'.tail = s.mem.tail) (hx : m'.next = s.mem.next)
    (hP : P = .free ∨ P = .lost)
    (hp : ∀ c, m'.pooled c = true ↔ Function.update g.place a P (.pool c) = .free) :
    Shape (after s t q m' p' ev) (freed g a P) := by
  have ha := (hS.gone t a).mpr htaken0
  have hPne : ∀ Q, Q ≠ .free → Q ≠ .lost → P ≠ Q := by
    rintro Q h1 h2 rfl
    exact hP.elim h1 h2
  refine ⟨hS.mains.other ha (fun _ => nofun) fun _ => hPne _ nofun nofun,
    hS.sides.other ha (fun _ => nofun) fun _ => hPne _ nofun nofun, hp, fun u c => ?_, fun r => ?_, fun r => ?_,
    fun r => ?_, fun u => ?_, fun u hu => ?_, fun u r j hu hur => ?_, hS.falling, hS.bounded⟩
  · by_cases hut : u = t
    · rw [hut, pc_self, htaken]
      refine (departed (hPne (.gone t) nofun nofun) c).trans ⟨fun hc => ?_, nofun⟩
      have := (hS.gone t c).mp hc.2
      rw [htaken0, Option.some.injEq, Word.node.injEq] at this
      exact absurd this.symm hc.1
    · rw [pc_other hut, ← hS.gone u c]
      exact moved ha (fun he => hut (Place.gone.inj he).symm) (hPne _ nofun nofun) c
  · exact hh ▸ hS.head r
  · exact ht ▸ hS.tail r
  · exact hx ▸ hS.line r
  · rw [role_after newNode m' ev (hnew.trans hnew0.symm)]
    exact hS.sideHead u
  · by_cases hut : u = t
    · change (g.side u).tail = []
      rw [hut, side_nil hS hnew0]
      rfl
    · rw [pc_other hut] at hu
      exact hS.sideRaw u hu
  · obtain ⟨hut, hu⟩ := role_rest hready hu
    rw [on_other hut] at hur
    exact hx ▸ hS.sideLine u r j hu hur

lemma sound_free {P : Place τ ι} {x : Node ι} (ha : g.place a = .gone t) (hready0 : ready (s.pc t) = none)
    (hx : m'.next = s.mem.next) (h : Sound s g x) : Sound (after s t q m' p' ev) (freed g a P) x := by
  refine h.move (congrFun hx x) fun r _ hh => ?_
  have hxa : x ≠ a := by
    rintro rfl
    rcases hh with hm | ⟨u, j, hu, -, -⟩
    · exact nomatch ha.symm.trans hm
    · exact nomatch ha.symm.trans hu
  exact home_rest hready0 (Function.update_of_ne hxa _ _) hh

end LoginServerChat.QueuesStep
