import LoginServerChat.QueuesValues

/-!
The invariant holds in every run in which no compare-exchange of `_head` or `_tail` succeeds after its
count has changed.
-/

namespace LoginServerChat.QueuesRun

open FifoHistory LinkedChain Places Queues QueuesInv QueuesStep QueuesValues Runs

variable {ι α τ : Type*} [DecidableEq ι] [DecidableEq τ] {s : State τ ι α} {g g' : Layout τ ι} {t : τ} {q : ι}
  {m' : Mem ι α} {p p' : Pc ι α} {ev : List (Event (Item α))} {a n z : Node ι} {b : Ptr ι} {y w : Word ι}
  {x : Item α} {c : Choice ι α}

/-! ### What others see of a step -/

omit [DecidableEq ι] [DecidableEq τ] in
lemma young_same (g g' : Layout τ ι) (hb : g'.born = g.born) (hp : ∀ x u, g'.place x = .side u → ∃ v, g.place x = .side v)
    (h : Young g n a) : Young g' n a := by
  intro u hu
  obtain ⟨v, hv⟩ := hp a u hu
  rw [hb]
  exact h v hv

omit [DecidableEq ι] [DecidableEq τ] in
/-- The node behind one of the queue is one of the queue. -/
lemma behind_main (hS : Shape s g) (ha : a ∈ g.main q) (hz : s.mem.next a = .node z) : z ∈ g.main q := by
  obtain ⟨y, hy, hw⟩ := (hS.line q).onward ha (by rw [hz]; exact nofun)
  rw [hz] at hw
  obtain rfl := Word.node.inj hw
  exact List.mem_of_mem_tail hy

/-- A step keeps what others have read if it keeps the links and the values of the queues, the values of
new nodes, and `_head` and `_tail`, or counts their changes. -/
lemma carries (hS : Shape s g) (hn : ∀ r, ∀ x ∈ g.main r, ∀ y, s.mem.next x = .node y → m'.next x = .node y)
    (hd : ∀ r, ∀ x ∈ g.main r, m'.data x = s.mem.data x) (hd' : ∀ k, newNode p = some k → m'.data k = s.mem.data k)
    (hh : ∀ r, m'.head r = s.mem.head r ∨ (s.mem.head r).idx < (m'.head r).idx)
    (ht : ∀ r, m'.tail r = s.mem.tail r ∨
      (s.mem.tail r).idx < (m'.tail r).idx ∧ (m'.tail r).word ≠ (s.mem.head r).word)
    (hyoung : ∀ k x, newNode p = some k → Young g k x → Young g' k x)
    (hsound : ∀ x, Sound s g x → Sound (after s t q m' p' ev) g' x) :
    Carries s (after s t q m' p' ev) g g' p := by
  have hfollows : ∀ r, ∀ x ∈ g.main r, ∀ y, Follows s.mem (.node x) y → Follows m' (.node x) y ∧
      ∀ z, y = .node z → m'.data z = s.mem.data z := by
    rintro r x hx y ⟨x', z, hx', rfl, hxz⟩
    obtain rfl := Word.node.inj hx'
    refine ⟨⟨x, z, rfl, rfl, hn r x hx z hxz⟩, fun z' hz' => ?_⟩
    obtain rfl := Word.node.inj hz'
    exact hd r z (behind_main hS hx hxz)
  refine ⟨hd', hyoung, hsound, fun r => ?_, fun r he => ?_, fun r => ?_, fun r he => ?_⟩
  · rcases ht r with h | h
    · exact (congrArg Ptr.idx h).ge
    · exact h.1.le
  · obtain ⟨x, hx, hw⟩ := hS.tail r
    refine ⟨(ht r).resolve_right fun h => h.1.ne he.symm, fun y hy => ?_⟩
    rw [hw] at hy ⊢
    exact (hfollows r x hx y hy).1
  · rcases hh r with h | h
    · exact (congrArg Ptr.idx h).ge
    · exact h.le
  · obtain ⟨x, l, hx, hw⟩ := hS.head r
    refine ⟨(hh r).resolve_right fun h => h.ne he.symm, fun y hy => ?_, (ht r).imp_right And.right⟩
    rw [hw] at hy ⊢
    exact hfollows r x (hx ▸ List.mem_cons_self) y hy

lemma inv_after (hI : Inv s g) (hS : Shape (after s t q m' p' ev) g')
    (hC : ∀ u ≠ t, Carries s (after s t q m' p' ev) g g' (s.pc u)) (hat : At (after s t q m' p' ev) g' q p') :
    Inv (after s t q m' p' ev) g' := by
  refine ⟨hS, fun u r hr => ?_⟩
  by_cases hu : u = t
  · rw [hu, on_self, Option.some.injEq] at hr
    rw [hu, pc_self, ← hr]
    exact hat
  · rw [on_other hu] at hr
    rw [pc_other hu]
    exact (hI.at' u r hr).carry (hC u hu)

/-- A step of a thread that only goes from one point to another, or counts. -/
lemma inv_quiet (hI : Inv s g) (hon : s.pc t = .idle ∨ s.on t = some q) (hh : m'.head = s.mem.head)
    (ht : m'.tail = s.mem.tail) (hx : m'.next = s.mem.next) (hd : m'.data = s.mem.data)
    (hp : m'.pooled = s.mem.pooled) (hnew : newNode p' = newNode (s.pc t)) (hready : ready p' = ready (s.pc t))
    (htaken : taken p' = taken (s.pc t)) (hat : At s g q p') : Inv (after s t q m' p' ev) g := by
  have hC : ∀ p : Pc ι α, Carries s (after s t q m' p' ev) g g p := fun p =>
    carries hI.toShape (fun r x _ y hy => hx ▸ hy) (fun r x _ => congrFun hd x) (fun k _ => congrFun hd k)
      (fun r => .inl (congrFun hh r)) (fun r => .inl (congrFun ht r)) (fun _ _ _ h => h)
      fun x h => sound_same hon hx hready h
  exact inv_after hI (shape_same hI.toShape hon hh hx hp (ht ▸ hI.tail) hnew hready htaken) (fun u _ => hC _)
    (hat.carry (hC p'))

/-- The compare-exchange of `_tail`, when what was read behind it is right. -/
lemma inv_cas (hI : Inv s g) (hon : s.on t = some q) (hs : Seen (s.mem.tail q) b)
    (hw : b.same (s.mem.tail q) = true → b.idx = (s.mem.tail q).idx)
    (hy : b.idx = (s.mem.tail q).idx → Follows s.mem b.word y)
    (hm : m' = { s.mem with tail := Function.update s.mem.tail q (cas (s.mem.tail q) b ⟨y, b.idx + 1⟩) })
    (hnew : newNode p' = newNode (s.pc t)) (hready : ready p' = ready (s.pc t))
    (htaken : taken p' = taken (s.pc t))
    (hat : ∀ n x, newNode p' = some n → waiting p' = some x → s.mem.data n = x)
    (hp' : (∃ n x, p' = .loadTail n x) ∨ (∃ x, p' = .incSize x) ∨ p' = .loadHead) :
    Inv (after s t q m' p' []) g := by
  have hat' : ∀ s' : State τ ι α, s'.mem.data = s.mem.data → At s' g q p' := by
    intro s' hd
    rcases hp' with ⟨n, x, rfl⟩ | ⟨x, rfl⟩ | rfl
    · exact (congrFun hd n).trans (hat n x rfl rfl)
    · trivial
    · trivial
  rcases cas_cases ⟨y, b.idx + 1⟩ hs hw with ⟨rfl, hcas⟩ | hcas
  · obtain ⟨a, z, ha, rfl, haz⟩ := hy rfl
    obtain ⟨a', hm', ha'⟩ := hI.tail q
    obtain rfl := Word.node.inj (ha'.symm.trans ha)
    have htail : m'.tail q = ⟨.node z, (s.mem.tail q).idx + 1⟩ := by
      rw [hm]
      exact (Function.update_self _ _ _).trans hcas
    have htails : ∀ r, r ≠ q → m'.tail r = s.mem.tail r := by
      intro r hr
      rw [hm]
      exact Function.update_of_ne hr _ _
    have hzq := behind_main hI.toShape hm' haz
    have hzh : (m'.tail q).word ≠ (s.mem.head q).word := by
      obtain ⟨x, l, hx, hxw⟩ := hI.head q
      obtain ⟨z', hz', hzw⟩ := (hI.line q).onward hm' (by rw [haz]; exact nofun)
      obtain rfl := Word.node.inj (haz.symm.trans hzw)
      have hnd := hI.mains.nodup q
      rw [htail, hxw]
      rw [hx] at hz' hnd
      intro he
      exact (List.nodup_cons.mp hnd).1 (Word.node.inj he ▸ hz')
    refine inv_after hI (shape_same hI.toShape (.inr hon) (by rw [hm]) (by rw [hm]) (by rw [hm]) (fun r => ?_) hnew
      hready htaken) (fun u _ => ?_) (hat' _ (by rw [hm]; rfl))
    · by_cases hr : r = q
      · rw [hr, htail]
        exact ⟨z, hzq, rfl⟩
      · rw [htails r hr]
        exact hI.tail r
    · refine carries hI.toShape (fun r x _ y hy => by rw [hm]; exact hy) (fun r x _ => by rw [hm])
        (fun k _ => by rw [hm]) (fun r => .inl (by rw [hm])) (fun r => ?_) (fun _ _ _ h => h)
        fun x h => sound_same (.inr hon) (by rw [hm]) hready h
      by_cases hr : r = q
      · rw [hr]
        exact .inr ⟨by rw [htail]; exact Nat.lt_succ_self _, hzh⟩
      · exact .inl (htails r hr)
  · refine inv_quiet hI (.inr hon) (by rw [hm]) ?_ (by rw [hm]) (by rw [hm]) (by rw [hm]) hnew hready htaken (hat' _ rfl)
    rw [hm, hcas]
    exact Function.update_eq_self q _

/-! ### The steps of `Enqueue` -/

lemma inv_alloc {k : ℕ} (hI : Inv s g) (hp : s.pc t = .alloc x) (hb : s.mem.pooled k = true) :
    Inv (after s t q { s.mem with pooled := Function.update s.mem.pooled k false } (.setData (.pool k) x) [])
      (allocated g t (.pool k)) := by
  have hfree := (hI.pool k).mp hb
  have hready : ready (s.pc t) = none := by rw [hp]; rfl
  refine inv_after hI (shape_alloc hI.toShape hb (by rw [hp]; rfl) (by rw [hp]; rfl) rfl rfl rfl rfl rfl rfl)
    (fun u _ => carries hI.toShape (fun _ _ _ _ hy => hy) (fun _ _ _ => rfl) (fun _ _ => rfl) (fun _ => .inl rfl)
      (fun _ => .inl rfl) (fun j y hj hyoung => ?_) fun _ h => sound_alloc hfree hready rfl h) trivial
  have hju := place_new hI.toShape hj
  have hjk : j ≠ .pool k := by
    rintro rfl
    exact nomatch hfree.symm.trans hju
  have hbj : (allocated g t (.pool k)).born j = g.born j := Function.update_of_ne hjk _ _
  intro v hv
  rw [hbj]
  by_cases hyk : y = .pool k
  · rw [hyk, show (allocated g t (.pool k)).born (.pool k) = g.now from Function.update_self _ _ _]
    exact hI.bounded u j ((hI.sides.mem u j).mpr hju)
  · rw [show (allocated g t (.pool k)).born y = g.born y from Function.update_of_ne hyk _ _]
    exact hyoung v ((Function.update_of_ne hyk _ _).symm.trans hv)

omit [DecidableEq ι] [DecidableEq τ] in
/-- The new nodes of two threads are different. -/
lemma newNode_ne {u : τ} {k : Node ι} (hS : Shape s g) (hn : newNode (s.pc t) = some n) (hu : u ≠ t)
    (hk : newNode (s.pc u) = some k) : k ≠ n := by
  rintro rfl
  exact hu (side_inj ((place_new hS hk).symm.trans (place_new hS hn)))

omit [DecidableEq ι] [DecidableEq τ] in
lemma main_ne {r : ι} (hS : Shape s g) (hn : newNode (s.pc t) = some n) (ha : a ∈ g.main r) : a ≠ n := by
  rintro rfl
  exact not_main hS (place_new hS hn) r ha

lemma inv_setData (hI : Inv s g) (hon : s.on t = some q) (hp : s.pc t = .setData n x) :
    Inv (after s t q { s.mem with data := Function.update s.mem.data n x } (.setNext n x) []) g := by
  have hn : newNode (s.pc t) = some n := by rw [hp]; rfl
  refine inv_after hI
    (shape_same hI.toShape (.inr hon) rfl rfl rfl hI.tail hn.symm (by rw [hp]; rfl) (by rw [hp]; rfl))
    (fun u hu => carries hI.toShape (fun _ _ _ _ hy => hy)
      (fun r y hy => Function.update_of_ne (main_ne hI.toShape hn hy) _ _)
      (fun k hk => Function.update_of_ne (newNode_ne hI.toShape hn hu hk) _ _) (fun _ => .inl rfl)
      (fun _ => .inl rfl) (fun _ _ _ h => h) fun _ h => sound_same (.inr hon) rfl (by rw [hp]; rfl) h) ?_
  exact Function.update_self n x s.mem.data

lemma inv_setNext (hI : Inv s g) (hon : s.on t = some q) (hp : s.pc t = .setNext n x) :
    Inv (after s t q { s.mem with next := Function.update s.mem.next n (.mark q) } (.loadTail n x) []) g := by
  have hn : newNode (s.pc t) = some n := by rw [hp]; rfl
  have hready : ready (s.pc t) = none := by rw [hp]; rfl
  have hat := hI.at' t q hon
  rw [hp] at hat
  refine inv_after hI (shape_setNext hI.toShape hn hready rfl rfl (by rw [hp]; rfl) rfl rfl rfl rfl)
    (fun u hu => carries hI.toShape (fun r y hy z hz => ?_) (fun _ _ _ => rfl) (fun _ _ => rfl) (fun _ => .inl rfl)
      (fun _ => .inl rfl) (fun _ _ _ h => h) fun _ h => sound_setNext (place_new hI.toShape hn) hready rfl rfl h) hat
  exact (Function.update_of_ne (main_ne hI.toShape hn hy) _ _).trans hz

omit [DecidableEq τ] in
/-- A node that leads on still does when one that ends a queue has been made to lead on. -/
lemma leads_on (hmark : s.mem.next a = .mark q) {y : Node ι} (hy : s.mem.next y = .node z) :
    Function.update s.mem.next a (.node n) y = .node z := by
  refine (Function.update_of_ne ?_ _ _).trans hy
  rintro rfl
  exact nomatch hmark.symm.trans hy

omit [DecidableEq τ] in
/-- A node that is with a thread after the list of one was moved was with one before. -/
lemma pour_side {P : Place τ ι} {y : Node ι} {u : τ} (hS : Shape s g)
    (h : pour g.place (g.side t) P y = .side u) : ∃ v, g.place y = .side v := by
  by_cases hy : y ∈ g.side t
  · exact ⟨t, (hS.sides.mem t y).mp hy⟩
  · exact ⟨u, (pour_of_notMem hy).symm.trans h⟩

lemma inv_link (hI : Inv s g) (hon : s.on t = some q) (hp : s.pc t = .link n x b) (hb : b.word = .node a)
    (hmark : s.mem.next a = .mark q) (ha : g.place a = .main q) :
    Inv (after s t q { s.mem with next := Function.update s.mem.next a (.node n) } (.swing n x b) [])
      (linked g t q) := by
  have hat := hI.at' t q hon
  rw [hp] at hat
  refine inv_after hI (shape_link hI.toShape hon (by rw [hp]; rfl) ha hmark rfl rfl (by rw [hp]; rfl) rfl rfl rfl rfl)
    (fun u hu => carries hI.toShape (fun r y _ z hz => leads_on hmark hz) (fun _ _ _ => rfl) (fun _ _ => rfl)
      (fun _ => .inl rfl) (fun _ => .inl rfl)
      (fun _ _ _ h => young_same g (linked g t q) rfl (fun _ _ hy => pour_side hI.toShape hy) h)
      fun _ h => sound_link hI.toShape hon rfl h)
    ⟨hat.2.1, fun _ => ⟨a, n, hb, rfl, Function.update_self _ _ _⟩⟩

lemma inv_hang {u : τ} {k : Node ι} (hI : Inv s g) (hon : s.on t = some q) (hp : s.pc t = .link n x b)
    (hb : b.word = .node a) (hmark : s.mem.next a = .mark q) (ha : g.place a = .side u)
    (hu : ready (s.pc u) = some k) (hou : s.on u = some q) (hyoung : g.born n < g.born a) :
    Inv (after s t q { s.mem with next := Function.update s.mem.next a (.node n) } (.swing n x b) [])
      (hung g t u) := by
  have hat := hI.at' t q hon
  rw [hp] at hat
  have hr : ready (s.pc t) = some n := by rw [hp]; rfl
  have hut := other_side hI.toShape hr ha hu hou hmark hyoung
  refine inv_after hI
    (shape_hang hI.toShape hon hr ha hu hou hmark hyoung rfl rfl (by rw [hp]; rfl) rfl rfl rfl rfl)
    (fun v hv => carries hI.toShape (fun r y _ z hz => leads_on hmark hz) (fun _ _ _ => rfl) (fun _ _ => rfl)
      (fun _ => .inl rfl) (fun _ => .inl rfl)
      (fun _ _ _ h => young_same g (hung g t u) rfl (fun _ _ hy => pour_side hI.toShape hy) h)
      fun _ h => sound_hang hI.toShape hon hut hu hou rfl h)
    ⟨hat.2.1, fun _ => ⟨a, n, hb, rfl, Function.update_self _ _ _⟩⟩

/-! ### The steps of `Dequeue` -/

lemma inv_take {l : List (Node ι)} (hI : Inv s g) (hp : s.pc t = .takeHead b y x)
    (hc : g.main q = a :: z :: l)
    (htail : (s.mem.tail q).word ≠ .node a) {k : ℕ} (hk : (s.mem.head q).idx < k) :
    Inv (after s t q { s.mem with head := Function.update s.mem.head q ⟨.node z, k⟩ } (.freeHead (.node a)) [.take x])
      (took g t q a (z :: l)) := by
  have hready : ready (s.pc t) = none := by rw [hp]; rfl
  have hnext : s.mem.next a = .node z := by
    have hline := hI.line q
    rw [hc] at hline
    exact hline.1
  have hplace := (hI.mains.mem q a).mp (hc ▸ List.mem_cons_self)
  refine inv_after hI
    (shape_take hI.toShape hc htail (by rw [hp]; rfl) rfl (by rw [hp]; rfl) rfl rfl rfl rfl rfl rfl)
    (fun u hu => carries hI.toShape (fun _ _ _ _ hy => hy) (fun _ _ _ => rfl) (fun _ _ => rfl) (fun r => ?_)
      (fun _ => .inl rfl) (fun _ _ _ h => young_same g (took g t q a (z :: l)) rfl (fun c v hc => ⟨v, ?_⟩) h)
      fun _ h => sound_take hnext hready rfl h) ⟨a, rfl⟩
  · by_cases hr : r = q
    · rw [hr]
      right
      change _ < (Function.update s.mem.head q _ q).idx
      rw [Function.update_self]
      exact hk
    · exact .inl (Function.update_of_ne hr _ _)
  · exact (moved hplace (by nofun) (by nofun) c).mp hc

lemma inv_free {P : Place τ ι} (hI : Inv s g) (hp : s.pc t = .freeHead (.node a)) (hP : P = .free ∨ P = .lost)
    (hh : m'.head = s.mem.head) (ht : m'.tail = s.mem.tail) (hx : m'.next = s.mem.next) (hd : m'.data = s.mem.data)
    (hpool : ∀ c, m'.pooled c = true ↔ Function.update g.place a P (.pool c) = .free) :
    Inv (after s t q m' .idle []) (freed g a P) := by
  have hready : ready (s.pc t) = none := by rw [hp]; rfl
  have htaken : taken (s.pc t) = some (.node a) := by rw [hp]; rfl
  have hplace := (hI.gone t a).mpr htaken
  refine inv_after hI (shape_free hI.toShape htaken rfl (by rw [hp]; rfl) rfl rfl hh ht hx hP hpool)
    (fun u hu => carries hI.toShape (fun r y _ z hz => hx ▸ hz) (fun _ _ _ => congrFun hd _)
      (fun _ _ => congrFun hd _) (fun r => .inl (congrFun hh r)) (fun r => .inl (congrFun ht r))
      (fun _ _ _ h => young_same g (freed g a P) rfl (fun c v hc => ⟨v, ?_⟩) h) fun _ h => sound_free hplace hready hx h) trivial
  refine (moved hplace (by nofun) ?_ c).mp hc
  rintro rfl
  exact hP.elim nofun nofun

/-! ### What is read -/

section Reads

omit [DecidableEq ι] [DecidableEq τ]

variable {m : Mem ι α} {r : Ptr ι}

/-- What is read through a pointer that has not changed is there. -/
lemma readNext_eq (ha : b.word = .node a) (hidx : b.idx = r.idx) (h : readNext m b r c = some w) :
    w = m.next a := by
  cases c with
  | tick =>
    rw [readNext, ha] at h
    exact (Option.some.inj h).symm
  | staleWord v =>
    rw [readNext, if_neg fun hne => hne hidx] at h
    exact nomatch h
  | enqueue v => exact nomatch h
  | dequeue => exact nomatch h
  | node k => exact nomatch h
  | staleItem v => exact nomatch h

lemma readItem_eq (hidx : b.idx = r.idx) (h : readItem m y b r c = some x) (hy : y = .node z) : m.data z = x := by
  cases c with
  | tick =>
    subst hy
    exact Option.some.inj h
  | staleItem v =>
    rw [readItem, if_neg fun hne => hne hidx] at h
    exact nomatch h
  | enqueue v => exact nomatch h
  | dequeue => exact nomatch h
  | node k => exact nomatch h
  | staleWord v => exact nomatch h

/-- A node of a queue that does not hold its mark leads to another. -/
lemma follows_main (hS : Shape s g) (ha : a ∈ g.main q) (hne : s.mem.next a ≠ .mark q) :
    Follows s.mem (.node a) (s.mem.next a) := by
  obtain ⟨z, -, hw⟩ := (hS.line q).onward ha hne
  exact ⟨a, z, rfl, hw, hw⟩

lemma follows_tail (hS : Shape s g) (hs : Seen (s.mem.tail q) b)
    (h : readNext s.mem b (s.mem.tail q) c = some w) (hne : w ≠ .mark q) (hidx : b.idx = (s.mem.tail q).idx) :
    Follows s.mem b.word w := by
  obtain ⟨a, ha, hw⟩ := hS.tail q
  rw [← hs.2 hidx] at hw
  obtain rfl := readNext_eq hw hidx h
  rw [hw]
  exact follows_main hS ha hne

lemma follows_head (hS : Shape s g) (hs : Seen (s.mem.head q) b)
    (h : readNext s.mem b (s.mem.head q) c = some w) (hne : w ≠ .mark q) (hidx : b.idx = (s.mem.head q).idx) :
    Follows s.mem b.word w := by
  obtain ⟨a, l, hl, hw⟩ := hS.head q
  rw [← hs.2 hidx] at hw
  obtain rfl := readNext_eq hw hidx h
  rw [hw]
  exact follows_main hS (hl ▸ List.mem_cons_self) hne

lemma sound_main (hS : Shape s g) (ha : a ∈ g.main q) : Sound s g a := by
  by_cases hne : s.mem.next a = .mark q
  · unfold Sound
    rw [hne]
    exact .inl ((hS.mains.mem q a).mp ha)
  · obtain ⟨z, -, hw⟩ := (hS.line q).onward ha hne
    exact sound_node hw

/-- The end has been read behind `_tail`, and so `_tail` is not `_head`, behind which `y` was read. -/
lemma tail_ne (hs : Seen (s.mem.head q) b) (hidx : b.idx = (s.mem.head q).idx) (hf : Follows s.mem b.word y) {bt : Ptr ι}
    (hbt : bt = s.mem.tail q) (ha : bt.word = .node a) (h : readNext s.mem bt (s.mem.tail q) c = some (.mark q)) :
    (s.mem.tail q).word ≠ (s.mem.head q).word := by
  obtain ⟨a', z, ha', rfl, haz⟩ := hf
  have hread := readNext_eq ha (congrArg Ptr.idx hbt) h
  intro he
  rw [← hs.2 hidx, ha', ← hbt, ha] at he
  rw [Word.node.inj he, haz] at hread
  exact nomatch hread

end Reads

/-! ### The run -/

variable [DecidableEq α] [Fintype τ]

/-- The lists and the values. -/
structure Kept (s : State τ ι α) (g : Layout τ ι) : Prop extends Inv s g where
  stock : Stock s g

lemma kept_quiet {k : ℤ} (hK : Kept s g) (hon : s.pc t = .idle ∨ s.on t = some q) (hp : s.pc t = p)
    (hnew : newNode p' = newNode p) (hready : ready p' = ready p) (htaken : taken p' = taken p)
    (hwait : waiting p' = waiting p) (hev : ∀ x, .call x ∉ ev ∧ .take x ∉ ev) (hat : At s g q p') :
    Kept (after s t q { s.mem with size := Function.update s.mem.size q k } p' ev) g := by
  subst hp
  exact ⟨inv_quiet hK.toInv hon rfl rfl rfl rfl rfl hnew hready htaken hat,
    stock_still hK.toShape hon hK.stock hev rfl (fun _ => rfl) (fun _ => rfl) hwait fun _ _ => rfl⟩

lemma kept_silent (hK : Kept s g) (hon : s.pc t = .idle ∨ s.on t = some q) (hp : s.pc t = p)
    (hnew : newNode p' = newNode p) (hready : ready p' = ready p) (htaken : taken p' = taken p)
    (hwait : waiting p' = waiting p) (hev : ∀ x, .call x ∉ ev ∧ .take x ∉ ev) (hat : At s g q p') :
    Kept (after s t q s.mem p' ev) g := by
  subst hp
  exact ⟨inv_quiet hK.toInv hon rfl rfl rfl rfl rfl hnew hready htaken hat,
    stock_still hK.toShape hon hK.stock hev rfl (fun _ => rfl) (fun _ => rfl) hwait fun _ _ => rfl⟩

lemma kept_cas (hK : Kept s g) (hon : s.on t = some q) (hp : s.pc t = p) (hs : Seen (s.mem.tail q) b)
    (hw : b.same (s.mem.tail q) = true → b.idx = (s.mem.tail q).idx)
    (hy : b.idx = (s.mem.tail q).idx → Follows s.mem b.word y)
    (hnew : newNode p' = newNode p) (hready : ready p' = ready p) (htaken : taken p' = taken p)
    (hwait : waiting p' = waiting p)
    (hat : ∀ n x, newNode p' = some n → waiting p' = some x → s.mem.data n = x)
    (hp' : (∃ n x, p' = .loadTail n x) ∨ (∃ x, p' = .incSize x) ∨ p' = .loadHead) :
    Kept (after s t q { s.mem with
      tail := Function.update s.mem.tail q (cas (s.mem.tail q) b ⟨y, b.idx + 1⟩) } p' []) g := by
  subst hp
  exact ⟨inv_cas hK.toInv hon hs hw hy rfl hnew hready htaken hat hp',
    stock_still hK.toShape (.inr hon) hK.stock (fun _ => ⟨List.not_mem_nil, List.not_mem_nil⟩) rfl (fun _ => rfl)
      (fun _ => rfl) hwait fun _ _ => rfl⟩

/-- The link succeeds: on the last node of the queue, or on that of another thread. -/
lemma kept_link (hK : Kept s g) (hon : s.on t = some q) (hp : s.pc t = .link n x b) (hb : b.word = .node a)
    (hmark : s.mem.next a = .mark q) :
    ∃ g', Kept (after s t q { s.mem with next := Function.update s.mem.next a (.node n) } (.swing n x b) []) g' := by
  have hat := hK.at' t q hon
  rw [hp] at hat
  obtain ⟨hdata, -, a', ha', hsound, hyoung⟩ := hat
  obtain rfl := Word.node.inj (hb.symm.trans ha')
  have hr : ready (s.pc t) = some n := by rw [hp]; rfl
  have hwait : waiting (s.pc t) = some x := by rw [hp]; rfl
  rcases hsound.home hmark with ha | ⟨u, k, ha, hu, hou⟩
  · exact ⟨linked g t q, inv_link hK.toInv hon hp hb hmark ha,
      stock_link hK.toShape hon hK.stock hr hwait hdata rfl rfl rfl⟩
  · have hut := other_side hK.toShape hr ha hu hou hmark (hyoung u ha)
    exact ⟨hung g t u, inv_hang hK.toInv hon hp hb hmark ha hu hou (hyoung u ha),
      stock_hang hK.toShape hon hK.stock hr hut hu hou hwait hdata rfl rfl rfl⟩

lemma kept_take (hK : Kept s g) (hon : s.on t = some q) (hp : s.pc t = .takeHead b y x)
    (hw : b.same (s.mem.head q) = true → b.idx = (s.mem.head q).idx) (hb : b.same (s.mem.head q) = true) :
    ∃ g', Kept (after s t q { s.mem with head := Function.update s.mem.head q ⟨y, b.idx + 1⟩ }
      (.freeHead b.word) [.take x]) g' := by
  have hat := hK.at' t q hon
  rw [hp] at hat
  obtain ⟨⟨a', z, ha', rfl, haz⟩, htail, hdata⟩ := hat.2 (hw hb)
  obtain ⟨a, l, hl, ha⟩ := hK.head q
  have hbh := hat.1.2 (hw hb)
  obtain rfl := Word.node.inj (ha'.symm.trans (hbh ▸ ha))
  obtain ⟨l', rfl⟩ : ∃ l', l = z :: l' := by
    have hline := hK.line q
    rw [hl] at hline
    have hz := word_injective q (hline.1.symm.trans (haz.trans rfl : s.mem.next a' = word q (some z)))
    rcases l with _ | ⟨z', l'⟩
    · exact nomatch hz
    · exact ⟨l', by rw [Option.some.inj hz]⟩
  rw [ha']
  rw [ha] at htail
  exact ⟨took g t q a' (z :: l'), inv_take hK.toInv hp hl htail (by rw [hbh]; exact Nat.lt_succ_self _),
    stock_take hK.toShape hon hK.stock hl (by rw [hp]; rfl) (by rw [hp]; rfl) rfl (hdata z rfl) rfl rfl⟩

lemma kept_free (hK : Kept s g) (hon : s.on t = some q) (hp : s.pc t = .freeHead w) (h : free s.mem w = some m') :
    ∃ g', Kept (after s t q m' .idle []) g' := by
  have hat := hK.at' t q hon
  rw [hp] at hat
  obtain ⟨a, rfl⟩ := hat
  have hplace := (hK.gone t a).mpr (by rw [hp]; rfl)
  have hkept : ∀ P : Place τ ι, P = .free ∨ P = .lost → m'.head = s.mem.head → m'.tail = s.mem.tail →
      m'.next = s.mem.next → m'.data = s.mem.data → m'.calls = s.mem.calls →
      (∀ c, m'.pooled c = true ↔ Function.update g.place a P (.pool c) = .free) →
      Kept (after s t q m' .idle []) (freed g a P) := fun P hP hh ht hx hd hc hpool =>
    ⟨inv_free hK.toInv hp hP hh ht hx hd hpool,
      stock_still hK.toShape (.inr hon) hK.stock (fun _ => ⟨List.not_mem_nil, List.not_mem_nil⟩) hc (fun _ => rfl)
        (fun _ => rfl) (by rw [hp]; rfl) fun _ _ => congrFun hd _⟩
  cases a with
  | pool k =>
    obtain rfl := Option.some.inj h
    refine ⟨_, hkept .free (.inl rfl) rfl rfl rfl rfl rfl fun c => ?_⟩
    rw [arrived, arrived, hK.pool c, Node.pool.injEq]
  | dummy r =>
    obtain rfl := Option.some.inj h
    refine ⟨_, hkept .lost (.inr rfl) rfl rfl rfl rfl rfl fun c => ?_⟩
    exact (hK.pool c).trans (moved hplace (by nofun) (by nofun) _).symm

/-- **A step of a thread keeps the invariant.** -/
lemma tstep_kept (hK : Kept s g) (hon : s.pc t = .idle ∨ s.on t = some q) (hp : s.pc t = p)
    (hw : noAlias s.mem q p) (h : tstep s.mem q p c = some (m', p', ev)) :
    ∃ g', Kept (after s t q m' p' ev) g' := by
  have hbusy : p ≠ .idle → s.on t = some q := fun hne => hon.resolve_left fun he => hne (hp.symm.trans he)
  have hat : p ≠ .idle → At s g q p := fun hne => hp ▸ hK.at' t q (hbusy hne)
  have hev : ∀ x : Item α, .call x ∉ ([] : List (Event (Item α))) ∧ .take x ∉ ([] : List (Event (Item α))) :=
    fun _ => ⟨List.not_mem_nil, List.not_mem_nil⟩
  have hmiss : ∀ x : Item α, .call x ∉ ([.miss] : List (Event (Item α))) ∧ .take x ∉ ([.miss] : List (Event (Item α))) :=
    fun _ => ⟨by simp, by simp⟩
  have hsilent : ∀ {p''}, newNode p'' = newNode p → ready p'' = ready p → taken p'' = taken p →
      waiting p'' = waiting p → At s g q p'' → ∃ g', Kept (after s t q s.mem p'' []) g' :=
    fun h1 h2 h3 h4 h5 => ⟨g, kept_silent hK hon hp h1 h2 h3 h4 hev h5⟩
  revert h
  fun_cases tstep s.mem q p c
  all_goals intro h
  case case8 n x b =>
    obtain ⟨w, hread, h⟩ := Option.map_eq_some_iff.mp h
    have hat := hat nofun
    split at h
    · obtain ⟨rfl, rfl, rfl⟩ := h
      exact hsilent rfl rfl rfl rfl hat
    · next hne =>
      obtain ⟨rfl, rfl, rfl⟩ := h
      exact hsilent rfl rfl rfl rfl ⟨hat.1, hat.2.1, follows_tail hK.toShape hat.2.1 hread hne⟩
  case case19 b =>
    obtain ⟨w, hread, h⟩ := Option.map_eq_some_iff.mp h
    have hat := hat nofun
    split at h
    · obtain ⟨rfl, rfl, rfl⟩ := h
      exact hsilent rfl rfl rfl rfl trivial
    · next hne =>
      obtain ⟨rfl, rfl, rfl⟩ := h
      exact hsilent rfl rfl rfl rfl ⟨hat.1, follows_head hK.toShape hat.1 hread hne⟩
  case case23 b y bt =>
    obtain ⟨w, hread, h⟩ := Option.map_eq_some_iff.mp h
    obtain ⟨hs, ⟨hst, a, ha, -⟩, hidx⟩ := hat nofun
    split at h
    · next he =>
      obtain ⟨rfl, rfl, rfl⟩ := h
      refine hsilent rfl rfl rfl rfl ⟨hs, fun hb => ?_⟩
      obtain ⟨hf, hor⟩ := hidx hb
      exact ⟨hf, hor.elim (fun hbt => tail_ne hs hb hf hbt ha (he ▸ hread)) id⟩
    · next hne =>
      obtain ⟨rfl, rfl, rfl⟩ := h
      exact hsilent rfl rfl rfl rfl ⟨hst, follows_tail hK.toShape hst hread hne⟩
  case case25 b y =>
    obtain ⟨x, hread, h⟩ := Option.map_eq_some_iff.mp h
    obtain ⟨rfl, rfl, rfl⟩ := h
    obtain ⟨hs, hidx⟩ := hat nofun
    exact hsilent rfl rfl rfl rfl
      ⟨hs, fun hb => ⟨(hidx hb).1, (hidx hb).2, fun z hz => readItem_eq hb hread hz⟩⟩
  case case28 w =>
    obtain ⟨m, hfree, h⟩ := Option.map_eq_some_iff.mp h
    obtain ⟨rfl, rfl, rfl⟩ := h
    exact kept_free hK (hbusy nofun) hp hfree
  all_goals simp only [Option.some.injEq, Prod.mk.injEq, reduceCtorEq] at h
  all_goals obtain ⟨rfl, rfl, rfl⟩ := h
  case case1 v =>
    refine ⟨g, inv_quiet hK.toInv hon rfl rfl rfl rfl rfl ?_ ?_ ?_ trivial,
      stock_call hK.toShape hp hK.stock rfl rfl rfl⟩
    all_goals
      rw [hp]
      rfl
  case case3 x k hfree =>
    refine ⟨allocated g t (.pool k), inv_alloc hK.toInv hp hfree,
      stock_still hK.toShape hon hK.stock hev rfl (fun _ => rfl) (fun u => ?_) (by rw [hp]; rfl) fun _ _ => rfl⟩
    by_cases hu : u = t
    · have hnil := side_nil hK.toShape (t := t) (by rw [hp]; rfl)
      rw [hu, show (allocated g t (.pool k)).side t = .pool k :: g.side t from Function.update_self _ _ _, hnil]
      rfl
    · exact congrArg List.tail (Function.update_of_ne hu _ _)
  case case5 n x =>
    refine ⟨g, inv_setData hK.toInv (hbusy nofun) hp,
      stock_still hK.toShape hon hK.stock hev rfl (fun _ => rfl) (fun _ => rfl) (by rw [hp]; rfl) fun y hy => ?_⟩
    have hn : newNode (s.pc t) = some n := by rw [hp]; rfl
    refine Function.update_of_ne ?_ _ _
    rcases hy with ⟨r, hy⟩ | ⟨u, hy⟩
    · exact main_ne hK.toShape hn (List.mem_of_mem_tail hy)
    · rintro rfl
      have hu := (hK.sides.mem u y).mp (List.mem_of_mem_tail hy)
      obtain rfl := side_inj (hu.symm.trans (place_new hK.toShape hn))
      rw [hK.sideRaw u (by rw [hp]; rfl)] at hy
      exact absurd hy List.not_mem_nil
  case case6 n x =>
    exact ⟨g, inv_setNext hK.toInv (hbusy nofun) hp,
      stock_still hK.toShape hon hK.stock hev rfl (fun _ => rfl) (fun _ => rfl) (by rw [hp]; rfl) fun _ _ => rfl⟩
  case case7 n x =>
    obtain ⟨a, ha, hw⟩ := hK.tail q
    refine hsilent rfl rfl rfl rfl ⟨hat nofun, seen_refl _, a, hw, sound_main hK.toShape ha, fun u hu => ?_⟩
    exact nomatch ((hK.mains.mem q a).mp ha).symm.trans hu
  case case9 n x b a hb hmark => exact kept_link hK (hbusy nofun) hp hb hmark
  case case10 n x b a hb _ => exact hsilent rfl rfl rfl rfl (hat nofun).1
  case case12 n x b y =>
    obtain ⟨hdata, hs, hy⟩ := hat nofun
    exact ⟨g, kept_cas hK (hbusy nofun) hp hs hw hy rfl rfl rfl rfl
      (fun k z hk hz => Option.some.inj hk ▸ Option.some.inj hz ▸ hdata) (.inl ⟨n, x, rfl⟩)⟩
  case case13 n x b =>
    obtain ⟨hs, hy⟩ := hat nofun
    exact ⟨g, kept_cas hK (hbusy nofun) hp hs hw hy rfl rfl rfl rfl (by nofun) (.inr (.inl ⟨x, rfl⟩))⟩
  case case14 x =>
    exact ⟨g, kept_quiet hK hon hp rfl rfl rfl rfl (fun _ => ⟨by simp, by simp⟩) trivial⟩
  case case15 _ => exact ⟨g, kept_quiet hK hon hp rfl rfl rfl rfl hev trivial⟩
  case case16 _ => exact ⟨g, kept_quiet hK hon hp rfl rfl rfl rfl hev trivial⟩
  case case17 => exact ⟨g, kept_quiet hK hon hp rfl rfl rfl rfl hmiss trivial⟩
  case case18 =>
    obtain ⟨a, l, hl, hw⟩ := hK.head q
    exact hsilent rfl rfl rfl rfl ⟨seen_refl _, a, hw, sound_main hK.toShape (hl ▸ List.mem_cons_self)⟩
  case case20 b _ => exact ⟨g, kept_silent hK hon hp rfl rfl rfl rfl hmiss trivial⟩
  case case22 b y =>
    obtain ⟨hs, hidx⟩ := hat nofun
    obtain ⟨a, ha, hw⟩ := hK.tail q
    exact hsilent rfl rfl rfl rfl
      ⟨hs, ⟨seen_refl _, a, hw, sound_main hK.toShape ha⟩, fun hb => ⟨hidx hb, .inl rfl⟩⟩
  case case24 bt y =>
    obtain ⟨hs, hy⟩ := hat nofun
    exact ⟨g, kept_cas hK (hbusy nofun) hp hs hw hy rfl rfl rfl rfl (by nofun) (.inr (.inr rfl))⟩
  case case26 b y x hb => exact kept_take hK (hbusy nofun) hp hw hb
  all_goals exact hsilent rfl rfl rfl rfl trivial

/-- The queues as they are constructed. -/
def laidOut : Layout τ ι where
  main q := [.dummy q]
  side _ := []
  place n := match n with
    | .pool _ => .free
    | .dummy q => .main q
  born _ := 0
  now := 0

omit [DecidableEq τ] in
lemma construct_kept (next : Node ι → Word ι) (data : Node ι → Item α) :
    Kept (construct next data : State τ ι α) laidOut := by
  refine ⟨⟨⟨⟨fun q n => ?_, fun q => List.nodup_singleton _⟩, ⟨fun t n => ?_, fun t => List.nodup_nil⟩, fun a => ?_,
    fun t n => ?_, fun q => ⟨.dummy q, [], rfl, rfl⟩, fun q => ⟨.dummy q, List.mem_singleton_self _, rfl⟩,
    fun q => ⟨rfl, trivial⟩, fun t => rfl, fun t _ => rfl, fun t q n h => (nomatch h), fun t => List.Pairwise.nil,
    fun t n h => absurd h List.not_mem_nil⟩, fun t q h => (nomatch h)⟩, ⟨fun q x => ?_, fun q x h => ?_, fun q x => ?_⟩⟩
  · cases n with
    | pool a => exact ⟨fun h => (nomatch List.mem_singleton.mp h), nofun⟩
    | dummy r =>
      rw [show (laidOut : Layout τ ι).main q = [.dummy q] from rfl, List.mem_singleton, Node.dummy.injEq]
      exact ⟨fun h => congrArg _ h, fun h => main_inj h⟩
  · cases n <;> exact ⟨fun h => absurd h List.not_mem_nil, nofun⟩
  · exact ⟨fun _ => rfl, fun _ => rfl⟩
  · cases n <;> exact ⟨nofun, nofun⟩
  · have hpend : ∀ t : τ, pending (construct next data : State τ ι α) laidOut q t = [] := fun _ => rfl
    have hsum : ∑ t : τ, (pending (construct next data : State τ ι α) laidOut q t).count x = 0 :=
      Finset.sum_eq_zero fun t _ => by rw [hpend t]; rfl
    rw [hsum]
    rfl
  · exact absurd h List.not_mem_nil
  · exact Nat.zero_le 1

omit [DecidableEq τ] in
lemma noAlias_of_timely {e : Action τ ι α} (hK : Kept s g) (hon : s.pc e.1 = .idle ∨ s.on e.1 = some e.2.1)
    (h : timely s e) : noAlias s.mem e.2.1 (s.pc e.1) := by
  rcases hon with hp | hon
  · rw [hp]
    trivial
  · exact noAlias_of_noWrap (hK.at' e.1 e.2.1 hon) h

omit [Fintype τ] in
/-- What a step of the queues is. -/
lemma qstep_eq {s' : State τ ι α} {e : Action τ ι α} (h : qstep s e = some s') :
    (s.pc e.1 = .idle ∨ s.on e.1 = some e.2.1) ∧ ∃ m' p' ev,
      tstep s.mem e.2.1 (s.pc e.1) e.2.2 = some (m', p', ev) ∧ s' = after s e.1 e.2.1 m' p' ev := by
  unfold qstep at h
  split at h
  · next hon =>
    obtain ⟨⟨m', p', ev⟩, hs, rfl⟩ := Option.map_eq_some_iff.mp h
    exact ⟨hon, m', p', ev, hs, rfl⟩
  · exact nomatch h

variable {next : Node ι → Word ι} {data : Node ι → Item α} {ok : State τ ι α → Action τ ι α → Prop}

/-- **The invariant of every run** in which no compare-exchange succeeds after a change. -/
theorem reach_kept (hok : ∀ s g e, Kept s g → (s.pc e.1 = .idle ∨ s.on e.1 = some e.2.1) → ok s e →
      noAlias s.mem e.2.1 (s.pc e.1))
    (h : Reach qstep ok (construct next data) s) : ∃ g, Kept s g := by
  induction h with
  | init => exact ⟨_, construct_kept next data⟩
  | @step s s' e _ ho hs ih =>
    obtain ⟨g, hK⟩ := ih
    obtain ⟨hon, m', p', ev, ht, rfl⟩ := qstep_eq hs
    exact tstep_kept hK hon rfl (hok s g e hK hon ho) ht

end LoginServerChat.QueuesRun
