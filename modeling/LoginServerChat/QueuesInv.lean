import LoginServerChat.Queues
import LoginServerChat.Runs

/-!
The invariant of a family of queues. Each node is in one place: in `poolManager`, in the list of a
queue, in the list of a thread, or taken by one. The list of a queue leads from its `_head` to its mark.
The list of a thread begins with the node it has allocated and not linked; others may have linked theirs
behind it, and theirs only: a node is linked behind those that were allocated after it.
-/

namespace LoginServerChat.QueuesInv

open FifoHistory LinkedChain Places Queues

variable {ι α τ : Type*}

/-- The word for the node behind, or for none, in queue `q`. -/
def word (q : ι) : Option (Node ι) → Word ι
  | none => .mark q
  | some n => .node n

lemma word_injective (q : ι) : Function.Injective (word q) := by
  intro a b h
  cases a <;> cases b <;> simp_all [word]

/-- A new node whose `next` is not yet set. -/
def raw : Pc ι α → Option (Node ι)
  | .setData n _ | .setNext n _ => some n
  | _ => none

/-- A new node that may be linked. -/
def ready : Pc ι α → Option (Node ι)
  | .loadTail n _ | .loadNext n _ _ | .link n _ _ | .help n _ _ _ => some n
  | _ => none

/-- The node that an `Enqueue` has allocated and not linked. -/
def newNode : Pc ι α → Option (Node ι)
  | .setData n _ | .setNext n _ | .loadTail n _ | .loadNext n _ _ | .link n _ _ | .help n _ _ _ => some n
  | _ => none

/-- The node that a `Dequeue` has taken and not freed. -/
def taken : Pc ι α → Option (Word ι)
  | .freeHead w => some w
  | _ => none

/-- The item of an `Enqueue` that is not linked. -/
def waiting : Pc ι α → Option (Item α)
  | .alloc x | .setData _ x | .setNext _ x | .loadTail _ x | .loadNext _ x _ | .link _ x _ |
    .help _ x _ _ => some x
  | _ => none

lemma newNode_of_ready {p : Pc ι α} {n : Node ι} (h : ready p = some n) : newNode p = some n := by
  cases p <;> first | exact h | exact nomatch h

/-- Where a node is. -/
inductive Place (τ ι : Type*)
  | free
  | main (q : ι)
  | side (t : τ)
  | gone (t : τ)
  | lost

/-- The list of each queue and each thread, the place of each node, and when it was allocated. -/
structure Layout (τ ι : Type*) where
  main : ι → List (Node ι)
  side : τ → List (Node ι)
  place : Node ι → Place τ ι
  born : Node ι → ℕ
  now : ℕ

lemma main_inj : Function.Injective (Place.main : ι → Place τ ι) := fun _ _ => Place.main.inj

lemma side_inj : Function.Injective (Place.side : τ → Place τ ι) := fun _ _ => Place.side.inj

/-- Who has which nodes. -/
structure Shape (s : State τ ι α) (g : Layout τ ι) : Prop where
  mains : Filed g.main g.place .main
  sides : Filed g.side g.place .side
  pool : ∀ a, s.mem.pooled a = true ↔ g.place (.pool a) = .free
  gone : ∀ t a, g.place a = .gone t ↔ taken (s.pc t) = some (.node a)
  head : ∀ q, ∃ a l, g.main q = a :: l ∧ (s.mem.head q).word = .node a
  tail : ∀ q, ∃ a ∈ g.main q, (s.mem.tail q).word = .node a
  line : ∀ q, Line (word q) s.mem.next (g.main q)
  sideHead : ∀ t, (g.side t).head? = newNode (s.pc t)
  sideRaw : ∀ t, ready (s.pc t) = none → (g.side t).tail = []
  sideLine : ∀ t q n, ready (s.pc t) = some n → s.on t = some q → Line (word q) s.mem.next (g.side t)
  falling : ∀ t, (g.side t).Pairwise fun x y => g.born y < g.born x
  bounded : ∀ t, ∀ x ∈ g.side t, g.born x < g.now

/-- The node is in the list of queue `q`, or in that of a thread which may link its list to `q`. -/
def Home (s : State τ ι α) (g : Layout τ ι) (q : ι) (a : Node ι) : Prop :=
  g.place a = .main q ∨ ∃ t n, g.place a = .side t ∧ ready (s.pc t) = some n ∧ s.on t = some q

/-- A node whose `next` is the mark of a queue belongs there. -/
def Sound (s : State τ ι α) (g : Layout τ ι) (a : Node ι) : Prop :=
  match s.mem.next a with
  | .node _ => True
  | .mark q => Home s g q a
  | .other _ => False

/-- If `a` is allocated and not linked, it has been allocated after `n`. -/
def Young (g : Layout τ ι) (n a : Node ι) : Prop := ∀ t, g.place a = .side t → g.born n < g.born a

/-- Word `b` was loaded from a pointer that is now `p`. -/
def Seen (p b : Ptr ι) : Prop := b.idx ≤ p.idx ∧ (b.idx = p.idx → b = p)

/-- `y` is the node behind `b`. -/
def Follows (m : Mem ι α) (b y : Word ι) : Prop := ∃ a z, b = .node a ∧ y = .node z ∧ m.next a = .node z

/-- What holds when a thread that works on queue `q` is at a point. -/
def At (s : State τ ι α) (g : Layout τ ι) (q : ι) : Pc ι α → Prop
  | .setNext n x | .loadTail n x => s.mem.data n = x
  | .loadNext n x b | .link n x b => s.mem.data n = x ∧ Seen (s.mem.tail q) b ∧
      ∃ a, b.word = .node a ∧ Sound s g a ∧ Young g n a
  | .help n x b y => s.mem.data n = x ∧ Seen (s.mem.tail q) b ∧
      (b.idx = (s.mem.tail q).idx → Follows s.mem b.word y)
  | .swing n _ b => Seen (s.mem.tail q) b ∧ (b.idx = (s.mem.tail q).idx → Follows s.mem b.word (.node n))
  | .loadHeadNext b => Seen (s.mem.head q) b ∧ ∃ a, b.word = .node a ∧ Sound s g a
  | .loadDeqTail b y => Seen (s.mem.head q) b ∧ (b.idx = (s.mem.head q).idx → Follows s.mem b.word y)
  | .loadTailNext b y bt => Seen (s.mem.head q) b ∧ (Seen (s.mem.tail q) bt ∧
      ∃ a, bt.word = .node a ∧ Sound s g a) ∧ (b.idx = (s.mem.head q).idx → Follows s.mem b.word y ∧
        (bt = s.mem.tail q ∨ (s.mem.tail q).word ≠ (s.mem.head q).word))
  | .helpDeq bt y => Seen (s.mem.tail q) bt ∧ (bt.idx = (s.mem.tail q).idx → Follows s.mem bt.word y)
  | .readData b y => Seen (s.mem.head q) b ∧ (b.idx = (s.mem.head q).idx →
      Follows s.mem b.word y ∧ (s.mem.tail q).word ≠ (s.mem.head q).word)
  | .takeHead b y x => Seen (s.mem.head q) b ∧ (b.idx = (s.mem.head q).idx →
      Follows s.mem b.word y ∧ (s.mem.tail q).word ≠ (s.mem.head q).word ∧
        ∀ z, y = .node z → s.mem.data z = x)
  | .freeHead w => ∃ a, w = .node a
  | _ => True

structure Inv (s : State τ ι α) (g : Layout τ ι) : Prop extends Shape s g where
  at' : ∀ t q, s.on t = some q → At s g q (s.pc t)

/-! ### What a thread has read -/

variable {s s' : State τ ι α} {g g' : Layout τ ι} {q : ι} {p : Pc ι α} {b : Ptr ι} {y w : Word ι}
  {a n : Node ι} {m m' : Mem ι α}

/-- What a step of another thread leaves of that. -/
structure Carries (s s' : State τ ι α) (g g' : Layout τ ι) (p : Pc ι α) : Prop where
  data : ∀ n, newNode p = some n → s'.mem.data n = s.mem.data n
  young : ∀ n a, newNode p = some n → Young g n a → Young g' n a
  sound : ∀ a, Sound s g a → Sound s' g' a
  tail_le : ∀ q, (s.mem.tail q).idx ≤ (s'.mem.tail q).idx
  tail : ∀ q, (s'.mem.tail q).idx = (s.mem.tail q).idx → s'.mem.tail q = s.mem.tail q ∧
    ∀ y, Follows s.mem (s.mem.tail q).word y → Follows s'.mem (s.mem.tail q).word y
  head_le : ∀ q, (s.mem.head q).idx ≤ (s'.mem.head q).idx
  head : ∀ q, (s'.mem.head q).idx = (s.mem.head q).idx → s'.mem.head q = s.mem.head q ∧
    (∀ y, Follows s.mem (s.mem.head q).word y → Follows s'.mem (s.mem.head q).word y ∧
      ∀ z, y = .node z → s'.mem.data z = s.mem.data z) ∧
    (s'.mem.tail q = s.mem.tail q ∨ (s'.mem.tail q).word ≠ (s.mem.head q).word)

lemma Carries.seen_tail (hC : Carries s s' g g' p) (h : Seen (s.mem.tail q) b) : Seen (s'.mem.tail q) b := by
  refine ⟨h.1.trans (hC.tail_le q), fun hb => ?_⟩
  have hidx : (s'.mem.tail q).idx = (s.mem.tail q).idx := le_antisymm (hb ▸ h.1) (hC.tail_le q)
  rw [(hC.tail q hidx).1]
  exact h.2 (hb.trans hidx)

lemma Carries.seen_head (hC : Carries s s' g g' p) (h : Seen (s.mem.head q) b) : Seen (s'.mem.head q) b := by
  refine ⟨h.1.trans (hC.head_le q), fun hb => ?_⟩
  have hidx : (s'.mem.head q).idx = (s.mem.head q).idx := le_antisymm (hb ▸ h.1) (hC.head_le q)
  rw [(hC.head q hidx).1]
  exact h.2 (hb.trans hidx)

/-- What was read behind `_tail`. -/
lemma Carries.next_tail (hC : Carries s s' g g' p) (hs : Seen (s.mem.tail q) b)
    (h : b.idx = (s.mem.tail q).idx → Follows s.mem b.word y) (hb : b.idx = (s'.mem.tail q).idx) :
    Follows s'.mem b.word y := by
  have hidx : (s'.mem.tail q).idx = (s.mem.tail q).idx := le_antisymm (hb ▸ hs.1) (hC.tail_le q)
  have hbt := hs.2 (hb.trans hidx)
  have hn := h (hb.trans hidx)
  rw [hbt] at hn ⊢
  exact (hC.tail q hidx).2 y hn

/-- And behind `_head`. -/
lemma Carries.next_head (hC : Carries s s' g g' p) (hs : Seen (s.mem.head q) b)
    (hb : b.idx = (s'.mem.head q).idx) : b.idx = (s.mem.head q).idx ∧ s'.mem.head q = s.mem.head q ∧
      (∀ y, Follows s.mem b.word y → Follows s'.mem b.word y ∧ ∀ z, y = .node z → s'.mem.data z = s.mem.data z) ∧
      (s'.mem.tail q = s.mem.tail q ∨ (s'.mem.tail q).word ≠ (s.mem.head q).word) := by
  have hidx : (s'.mem.head q).idx = (s.mem.head q).idx := le_antisymm (hb ▸ hs.1) (hC.head_le q)
  have hbh := hs.2 (hb.trans hidx)
  obtain ⟨h1, h2, h3⟩ := hC.head q hidx
  refine ⟨hb.trans hidx, h1, ?_, h3⟩
  rw [hbh]
  exact h2

lemma At.carry (h : At s g q p) (hC : Carries s s' g g' p) : At s' g' q p := by
  have hdata : ∀ n x, newNode p = some n → s.mem.data n = x → s'.mem.data n = x :=
    fun n x hn hx => (hC.data n hn).trans hx
  have hapart : (s'.mem.tail q = s.mem.tail q ∨ (s'.mem.tail q).word ≠ (s.mem.head q).word) →
      (s.mem.tail q).word ≠ (s.mem.head q).word → (s'.mem.tail q).word ≠ (s.mem.head q).word := by
    intro hor hne
    rcases hor with he | h'
    · rw [he]
      exact hne
    · exact h'
  cases p
  case setNext n x => exact hdata n x rfl h
  case loadTail n x => exact hdata n x rfl h
  case loadNext n x b =>
    obtain ⟨a, ha, hsound, hyoung⟩ := h.2.2
    exact ⟨hdata n x rfl h.1, hC.seen_tail h.2.1, a, ha, hC.sound a hsound, hC.young n a rfl hyoung⟩
  case link n x b =>
    obtain ⟨a, ha, hsound, hyoung⟩ := h.2.2
    exact ⟨hdata n x rfl h.1, hC.seen_tail h.2.1, a, ha, hC.sound a hsound, hC.young n a rfl hyoung⟩
  case help n x b y => exact ⟨hdata n x rfl h.1, hC.seen_tail h.2.1, hC.next_tail h.2.1 h.2.2⟩
  case swing n x b => exact ⟨hC.seen_tail h.1, hC.next_tail h.1 h.2⟩
  case loadHeadNext b =>
    obtain ⟨hs, a, ha, hsound⟩ := h
    exact ⟨hC.seen_head hs, a, ha, hC.sound a hsound⟩
  case loadDeqTail b y =>
    refine ⟨hC.seen_head h.1, fun hb => ?_⟩
    obtain ⟨h1, -, h3, -⟩ := hC.next_head h.1 hb
    exact (h3 y (h.2 h1)).1
  case loadTailNext b y bt =>
    obtain ⟨hs, ⟨hst, a, ha, hsound⟩, hidx⟩ := h
    refine ⟨hC.seen_head hs, ⟨hC.seen_tail hst, a, ha, hC.sound a hsound⟩, fun hb => ?_⟩
    obtain ⟨h1, h2, h3, h4⟩ := hC.next_head hs hb
    obtain ⟨h5, h6⟩ := hidx h1
    rw [h2]
    refine ⟨(h3 y h5).1, ?_⟩
    rcases h6 with h6 | h6
    · exact h4.imp (fun he => h6.trans he.symm) id
    · exact .inr (hapart h4 h6)
  case helpDeq bt y => exact ⟨hC.seen_tail h.1, hC.next_tail h.1 h.2⟩
  case readData b y =>
    refine ⟨hC.seen_head h.1, fun hb => ?_⟩
    obtain ⟨h1, h2, h3, h4⟩ := hC.next_head h.1 hb
    obtain ⟨h5, h6⟩ := h.2 h1
    rw [h2]
    exact ⟨(h3 y h5).1, hapart h4 h6⟩
  case takeHead b y x =>
    refine ⟨hC.seen_head h.1, fun hb => ?_⟩
    obtain ⟨h1, h2, h3, h4⟩ := hC.next_head h.1 hb
    obtain ⟨h5, h6, h7⟩ := h.2 h1
    rw [h2]
    exact ⟨(h3 y h5).1, hapart h4 h6, fun z hz => ((h3 y h5).2 z hz).trans (h7 z hz)⟩
  case freeHead w => exact h
  all_goals trivial

lemma Sound.home (h : Sound s g a) (ha : s.mem.next a = .mark q) : Home s g q a := by
  unfold Sound at h
  rw [ha] at h
  exact h

lemma sound_node {z : Node ι} (ha : s.mem.next a = .node z) : Sound s g a := by
  unfold Sound
  rw [ha]
  trivial

/-- A step that leaves the `next` of the node. -/
lemma Sound.move (h : Sound s g a) (hn : s'.mem.next a = s.mem.next a)
    (hh : ∀ q, s.mem.next a = .mark q → Home s g q a → Home s' g' q a) : Sound s' g' a := by
  unfold Sound at h ⊢
  rw [hn]
  cases hw : s.mem.next a with
  | node z => trivial
  | mark q =>
    rw [hw] at h
    exact hh q hw h
  | other v =>
    rw [hw] at h
    exact h

/-! ### Comparisons -/

variable [DecidableEq ι]

/-- A comparison that succeeds in time has found the count unchanged. -/
lemma idx_of_same {r : Ptr ι} (hle : b.idx ≤ r.idx) (hw : r.idx < b.idx + 2 ^ 17) (h : b.same r = true) :
    b.idx = r.idx := by
  simp only [Ptr.same, decide_eq_true_eq] at h
  omega

lemma noAlias_of_noWrap (h : At s g q p) (hw : noWrap s.mem q p) : noAlias s.mem q p := by
  cases p
  case help n x b y => exact idx_of_same h.2.1.1 hw
  case swing n x b => exact idx_of_same h.1.1 hw
  case helpDeq b y => exact idx_of_same h.1.1 hw
  case takeHead b y x => exact idx_of_same h.1.1 hw
  all_goals trivial

omit [DecidableEq ι] in
lemma seen_refl (r : Ptr ι) : Seen r r := ⟨le_refl _, fun _ => rfl⟩

lemma cas_cases {r : Ptr ι} (new : Ptr ι) (hs : Seen r b) (hw : b.same r = true → b.idx = r.idx) :
    b = r ∧ cas r b new = new ∨ cas r b new = r := by
  unfold cas
  by_cases h : b.same r = true
  · exact .inl ⟨hs.2 (hw h), if_pos h⟩
  · exact .inr (if_neg h)

end LoginServerChat.QueuesInv
