import LoginServerChat.LockFreeQueue

/-!
The invariant of `CLockFreeQueue`. The nodes from `_head` on form a chain that ends with `_myCode`
and that `_tail` points into; a node that a thread has allocated and not linked, or has taken and
not given back, is in nobody else's hands and not in the chain. What a thread has read is right
as long as the pointer it came from has not changed.
-/

namespace LoginServerChat.QueueInv

open FifoHistory LinkedChain LockFreeQueue Runs

variable {α τ : Type*}

/-- The node that a thread has to itself: one that is not yet linked, or one that it has taken. -/
def owns : Pc α → Option ℕ
  | .freeHead a => some a
  | p => p.newNode

/-- The item of an `Enqueue` that is not linked. -/
def waiting : Pc α → Option (Item α)
  | .alloc x | .setData _ x | .setNext _ x | .loadTail _ x | .loadNext _ x _ | .link _ x _ |
    .help _ x _ _ => some x
  | _ => none

/-- The item of an `Enqueue` that is linked. -/
def placed : Pc α → Option (Item α)
  | .swing _ x _ | .incSize x => some x
  | _ => none

/-- A `Dequeue` that has taken its share of `_size`. -/
def reserved : Pc α → ℕ
  | .loadHead | .loadHeadNext _ | .recheck _ | .loadDeqTail _ _ | .loadTailNext _ _ _ | .helpDeq _ _ |
    .readData _ _ | .takeHead _ _ _ => 1
  | _ => 0

/-- One that will give it back. -/
def undoing : Pc α → ℕ
  | .undo => 1
  | _ => 0

/-- An `Enqueue` that has linked its node and not counted it. -/
def unsized (p : Pc α) : ℕ := if (placed p).isSome then 1 else 0

/-- What separates `_size` from the length of the queue because of a thread. -/
def share (p : Pc α) : ℕ := reserved p + undoing p + unsized p

/-- Word `b` was loaded from a pointer that is now `p`. -/
def Seen (p b : Ptr) : Prop := b.idx ≤ p.idx ∧ (b.idx = p.idx → b = p)

/-- What holds of the memory when a thread is at a point; `e` are the nodes that have been in the
queue. -/
def At (m : Mem α) (e : List ℕ) : Pc α → Prop
  | .setNext n x => m.data n = x
  | .loadTail n x => m.next n = none ∧ m.data n = x
  | .loadNext n x b | .link n x b => (m.next n = none ∧ m.data n = x) ∧ Seen m.tail b ∧ b.addr ∈ e
  | .help n x b y => (m.next n = none ∧ m.data n = x) ∧ Seen m.tail b ∧
      (b.idx = m.tail.idx → m.next b.addr = some y)
  | .swing n _ b => Seen m.tail b ∧ (b.idx = m.tail.idx → m.next b.addr = some n)
  | .loadHeadNext b => Seen m.head b
  -- the queue was empty when `next` was read, but never is while a share is taken
  | .recheck b => b.idx < m.head.idx
  | .loadDeqTail b y => Seen m.head b ∧ (b.idx = m.head.idx → m.next b.addr = some y)
  | .loadTailNext b y bt => Seen m.head b ∧ Seen m.tail bt ∧ (b.idx = m.head.idx →
      m.next b.addr = some y ∧ (bt.addr = m.head.addr ∨ m.tail.addr ≠ m.head.addr))
  | .helpDeq bt y => Seen m.tail bt ∧ (bt.idx = m.tail.idx → m.next bt.addr = some y)
  | .readData b y => Seen m.head b ∧
      (b.idx = m.head.idx → m.next b.addr = some y ∧ m.tail.addr ≠ m.head.addr)
  | .takeHead b y x => Seen m.head b ∧ (b.idx = m.head.idx →
      m.next b.addr = some y ∧ m.tail.addr ≠ m.head.addr ∧ m.data y = x)
  | _ => True

/-- The chain `c`, and who has the other nodes. -/
structure Shape (s : Queue τ α) (c e : List ℕ) : Prop where
  head : c.head? = some s.mem.head.addr
  nodup : c.Nodup
  chain : Chain s.mem.next c
  tail : s.mem.tail.addr ∈ c
  used : ∀ x ∈ c, s.mem.pooled x = false ∧ ∀ t, owns (s.pc t) ≠ some x
  owned : ∀ t x, owns (s.pc t) = some x → s.mem.pooled x = false
  apart : ∀ t u x, owns (s.pc t) = some x → owns (s.pc u) = some x → t = u
  ever : c ⊆ e
  ends : ∀ x ∈ e, s.mem.next x = none → x ∈ c ∨ ∃ t, (s.pc t).newNode = some x

variable [Fintype τ]

/-- `_size` and the chain. -/
structure Sized (s : Queue τ α) (c : List ℕ) : Prop where
  total : s.mem.size + (∑ t, share (s.pc t) : ℕ) + 1 = c.length
  nonneg : 0 ≤ s.mem.size + (∑ t, undoing (s.pc t) : ℕ)

/-- The queue as one whose operations take time. -/
def hist (s : Queue τ α) (c : List ℕ) : Hist τ (Item α) :=
  ⟨fun t => waiting (s.pc t), fun t => placed (s.pc t), c.tail.map s.mem.data, s.log⟩

variable [DecidableEq τ]

structure Inv (s : Queue τ α) (c e : List ℕ) : Prop extends Shape s c e, Sized s c where
  at' : ∀ t, At s.mem e (s.pc t)
  numbered : ∀ x, .call x ∈ s.log → x.2 < s.mem.calls
  run : Run (hist s c)

/-! ### What a thread has read -/

variable {m m' : Mem α} {e e' c c' : List ℕ} {p p' : Pc α} {b q : Ptr} {y n : ℕ}

lemma newNode_owns {n : ℕ} (h : p.newNode = some n) : owns p = some n := by
  unfold owns
  split
  · exact absurd h.symm (Option.some_ne_none n)
  · exact h

/-- What a step of another thread leaves of that. -/
structure Carries (m m' : Mem α) (e e' : List ℕ) (p : Pc α) : Prop where
  own : ∀ n, p.newNode = some n → m'.next n = m.next n ∧ m'.data n = m.data n
  tail_le : m.tail.idx ≤ m'.tail.idx
  tail : m'.tail.idx = m.tail.idx → m'.tail = m.tail ∧
    ∀ y, m.next m.tail.addr = some y → m'.next m.tail.addr = some y
  head_le : m.head.idx ≤ m'.head.idx
  head : m'.head.idx = m.head.idx → m'.head = m.head ∧
    (∀ y, m.next m.head.addr = some y → m'.next m.head.addr = some y ∧ m'.data y = m.data y) ∧
    (m.tail.addr ≠ m.head.addr → m'.tail.addr ≠ m.head.addr)
  ever : e ⊆ e'

lemma Carries.seen_tail (hC : Carries m m' e e' p) (h : Seen m.tail b) : Seen m'.tail b := by
  refine ⟨h.1.trans hC.tail_le, fun hb => ?_⟩
  have hidx : m'.tail.idx = m.tail.idx := le_antisymm (hb ▸ h.1) hC.tail_le
  rw [(hC.tail hidx).1]
  exact h.2 (hb.trans hidx)

lemma Carries.seen_head (hC : Carries m m' e e' p) (h : Seen m.head b) : Seen m'.head b := by
  refine ⟨h.1.trans hC.head_le, fun hb => ?_⟩
  have hidx : m'.head.idx = m.head.idx := le_antisymm (hb ▸ h.1) hC.head_le
  rw [(hC.head hidx).1]
  exact h.2 (hb.trans hidx)

/-- What was read behind `_tail`. -/
lemma Carries.next_tail (hC : Carries m m' e e' p) (hs : Seen m.tail b)
    (h : b.idx = m.tail.idx → m.next b.addr = some y) (hb : b.idx = m'.tail.idx) :
    m'.next b.addr = some y := by
  have hidx : m'.tail.idx = m.tail.idx := le_antisymm (hb ▸ hs.1) hC.tail_le
  have hbt := hs.2 (hb.trans hidx)
  have hn := h (hb.trans hidx)
  rw [hbt] at hn ⊢
  exact (hC.tail hidx).2 y hn

/-- And behind `_head`. -/
lemma Carries.next_head (hC : Carries m m' e e' p) (hs : Seen m.head b) (hb : b.idx = m'.head.idx) :
    b.idx = m.head.idx ∧ m'.head = m.head ∧
      (∀ y, m.next b.addr = some y → m'.next b.addr = some y ∧ m'.data y = m.data y) ∧
      (m.tail.addr ≠ m.head.addr → m'.tail.addr ≠ m.head.addr) := by
  have hidx : m'.head.idx = m.head.idx := le_antisymm (hb ▸ hs.1) hC.head_le
  have hbh := hs.2 (hb.trans hidx)
  obtain ⟨h1, h2, h3⟩ := hC.head hidx
  exact ⟨hb.trans hidx, h1, hbh ▸ h2, h3⟩

lemma At.carry (h : At m e p) (hC : Carries m m' e e' p) : At m' e' p := by
  have hown : ∀ n x, p.newNode = some n → m.next n = none ∧ m.data n = x →
      m'.next n = none ∧ m'.data n = x := by
    intro n x hn hx
    rw [(hC.own n hn).1, (hC.own n hn).2]
    exact hx
  cases p
  case setNext n x => exact (hC.own n rfl).2.trans h
  case loadTail n x => exact hown n x rfl h
  case loadNext n x b => exact ⟨hown n x rfl h.1, hC.seen_tail h.2.1, hC.ever h.2.2⟩
  case link n x b => exact ⟨hown n x rfl h.1, hC.seen_tail h.2.1, hC.ever h.2.2⟩
  case help n x b y => exact ⟨hown n x rfl h.1, hC.seen_tail h.2.1, hC.next_tail h.2.1 h.2.2⟩
  case swing n x b => exact ⟨hC.seen_tail h.1, hC.next_tail h.1 h.2⟩
  case loadHeadNext b => exact hC.seen_head h
  case recheck b => exact Nat.lt_of_lt_of_le h hC.head_le
  case loadDeqTail b y =>
    refine ⟨hC.seen_head h.1, fun hb => ?_⟩
    obtain ⟨h1, -, h3, -⟩ := hC.next_head h.1 hb
    exact (h3 y (h.2 h1)).1
  case loadTailNext b y bt =>
    refine ⟨hC.seen_head h.1, hC.seen_tail h.2.1, fun hb => ?_⟩
    obtain ⟨h1, h2, h3, h4⟩ := hC.next_head h.1 hb
    obtain ⟨h5, h6⟩ := h.2.2 h1
    rw [h2]
    exact ⟨(h3 y h5).1, h6.imp_right h4⟩
  case helpDeq bt y => exact ⟨hC.seen_tail h.1, hC.next_tail h.1 h.2⟩
  case readData b y =>
    refine ⟨hC.seen_head h.1, fun hb => ?_⟩
    obtain ⟨h1, h2, h3, h4⟩ := hC.next_head h.1 hb
    obtain ⟨h5, h6⟩ := h.2 h1
    rw [h2]
    exact ⟨(h3 y h5).1, h4 h6⟩
  case takeHead b y x =>
    refine ⟨hC.seen_head h.1, fun hb => ?_⟩
    obtain ⟨h1, h2, h3, h4⟩ := hC.next_head h.1 hb
    obtain ⟨h5, h6, h7⟩ := h.2 h1
    rw [h2, (h3 y h5).2]
    exact ⟨(h3 y h5).1, h4 h6, h7⟩
  all_goals trivial

/-- A comparison that succeeds in time has found the count unchanged. -/
lemma idx_of_same (hle : b.idx ≤ q.idx) (hw : q.idx < b.idx + 2 ^ 17) (h : b.same q = true) : b.idx = q.idx := by
  simp only [Ptr.same, decide_eq_true_eq] at h
  omega

lemma noAlias_of_noWrap (h : At m e p) (hw : noWrap m p) : noAlias m p := by
  cases p
  case help n x b y => exact idx_of_same h.2.1.1 hw
  case swing n x b => exact idx_of_same h.1.1 hw
  case helpDeq b y => exact idx_of_same h.1.1 hw
  case recheck b => exact idx_of_same (Nat.le_of_lt h) hw
  case takeHead b y x => exact idx_of_same h.1.1 hw
  all_goals trivial

lemma seen_refl (q : Ptr) : Seen q q := ⟨le_refl _, fun _ => rfl⟩

lemma cas_cases (new : Ptr) (hs : Seen q b) (hw : b.same q = true → b.idx = q.idx) :
    b = q ∧ cas q b new = new ∨ cas q b new = q := by
  unfold cas
  by_cases h : b.same q = true
  · exact .inl ⟨hs.2 (hw h), if_pos h⟩
  · exact .inr (if_neg h)

end LoginServerChat.QueueInv
