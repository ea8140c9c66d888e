import LoginServerChat.FifoHistory
import LoginServerChat.LinkedChain
import LoginServerChat.Places

/-!
Any number of `CLockFreeQueue`s of one type, which have `poolManager` in common; every load, store and
interlocked operation is one step.

What `next` holds is a word: the address of a node, the mark `_myCode` of a queue, or whatever the
memory held before. `_head` and `_tail` are words with a count of their changes, of which 17 bits are
compared. A node is one of `poolManager` or the `_dummy` of a queue, which `Free` does not take.
A word is dereferenced only where it is the address of a node; elsewhere there is no step.

A read through a pointer that has changed since it was loaded may return anything.
-/

namespace LoginServerChat.Queues

open FifoHistory

inductive Node (ι : Type*)
  | pool (a : ℕ)
  | dummy (q : ι)
  deriving DecidableEq

inductive Word (ι : Type*)
  | node (n : Node ι)
  | mark (q : ι)
  | other (v : ℕ)
  deriving DecidableEq

/-- A tagged pointer. -/
structure Ptr (ι : Type*) where
  word : Word ι
  idx : ℕ
  deriving DecidableEq

variable {ι α τ : Type*}

/-- A value and the number of its `Enqueue`. -/
abbrev Item (α : Type*) := α × ℕ

structure Mem (ι α : Type*) where
  head : ι → Ptr ι
  tail : ι → Ptr ι
  size : ι → ℤ
  next : Node ι → Word ι
  data : Node ι → Item α
  /-- The nodes in `poolManager`. -/
  pooled : ℕ → Bool
  /-- How often `Enqueue` has been called. -/
  calls : ℕ

/-- The points of `Enqueue` and `Dequeue`. `n` is `newNode`, `b` is `bkTail` or `bkHead`, `y` is
`bkNext` or, in `helpDeq`, `bkTailNext`. -/
inductive Pc (ι α : Type*)
  | idle
  -- `Enqueue`
  | alloc (x : Item α)
  | setData (n : Node ι) (x : Item α)
  | setNext (n : Node ι) (x : Item α)
  | loadTail (n : Node ι) (x : Item α)
  | loadNext (n : Node ι) (x : Item α) (b : Ptr ι)
  | link (n : Node ι) (x : Item α) (b : Ptr ι)
  | help (n : Node ι) (x : Item α) (b : Ptr ι) (y : Word ι)
  | swing (n : Node ι) (x : Item α) (b : Ptr ι)
  | incSize (x : Item α)
  -- `Dequeue`
  | decSize
  | undo
  | loadHead
  | loadHeadNext (b : Ptr ι)
  | recheck (b : Ptr ι)
  | loadDeqTail (b : Ptr ι) (y : Word ι)
  | loadTailNext (b : Ptr ι) (y : Word ι) (bt : Ptr ι)
  | helpDeq (bt : Ptr ι) (y : Word ι)
  | readData (b : Ptr ι) (y : Word ι)
  | takeHead (b : Ptr ι) (y : Word ι) (x : Item α)
  | freeHead (w : Word ι)
  deriving DecidableEq

/-- A call, the node that `Alloc` finds, what a read through a stale pointer finds, or the next step. -/
inductive Choice (ι α : Type*)
  | enqueue (v : α)
  | dequeue
  | node (a : ℕ)
  | staleWord (w : Word ι)
  | staleItem (x : Item α)
  | tick

variable [DecidableEq ι]

/-- The two words are equal. -/
def Ptr.same (a b : Ptr ι) : Bool := a.word = b.word ∧ a.idx % 2 ^ 17 = b.idx % 2 ^ 17

/-- `InterlockedCompareExchange64` on a tagged pointer. -/
def cas (p b new : Ptr ι) : Ptr ι := if b.same p then new else p

/-- The `next` behind `b`, which was loaded from what is now `p`. -/
def readNext (m : Mem ι α) (b p : Ptr ι) : Choice ι α → Option (Word ι)
  | .tick => match b.word with
    | .node a => some (m.next a)
    | _ => none
  | .staleWord w => if b.idx ≠ p.idx then some w else none
  | _ => none

/-- The `data` behind `y`, which was read through `b`. -/
def readItem (m : Mem ι α) (y : Word ι) (b p : Ptr ι) : Choice ι α → Option (Item α)
  | .tick => match y with
    | .node a => some (m.data a)
    | _ => none
  | .staleItem x => if b.idx ≠ p.idx then some x else none
  | _ => none

/-- `poolManager.Free`. -/
def free (m : Mem ι α) : Word ι → Option (Mem ι α)
  | .node (.pool a) => some { m with pooled := Function.update m.pooled a true }
  | .node (.dummy _) => some m
  | _ => none

/-- One step of a thread on queue `q`, with what it adds to the log of the queue. -/
def tstep (m : Mem ι α) (q : ι) : Pc ι α → Choice ι α → Option (Mem ι α × Pc ι α × List (Event (Item α)))
  | .idle, .enqueue v =>
    some ({ m with calls := m.calls + 1 }, .alloc (v, m.calls), [.call (v, m.calls)])
  | .idle, .dequeue => some (m, .decSize, [])
  | .alloc x, .node a =>
    if m.pooled a then
      some ({ m with pooled := Function.update m.pooled a false }, .setData (.pool a) x, [])
    else none
  | .setData n x, .tick => some ({ m with data := Function.update m.data n x }, .setNext n x, [])
  | .setNext n x, .tick => some ({ m with next := Function.update m.next n (.mark q) }, .loadTail n x, [])
  | .loadTail n x, .tick => some (m, .loadNext n x (m.tail q), [])
  | .loadNext n x b, c => (readNext m b (m.tail q) c).map fun w =>
    if w = .mark q then (m, .link n x b, []) else (m, .help n x b w, [])
  | .link n x b, .tick =>
    match b.word with
    | .node a =>
      if m.next a = .mark q then
        some ({ m with next := Function.update m.next a (.node n) }, .swing n x b, [])
      else some (m, .loadTail n x, [])
    | _ => none
  | .help n x b y, .tick =>
    some ({ m with tail := Function.update m.tail q (cas (m.tail q) b ⟨y, b.idx + 1⟩) }, .loadTail n x, [])
  | .swing n x b, .tick =>
    some ({ m with tail := Function.update m.tail q (cas (m.tail q) b ⟨.node n, b.idx + 1⟩) }, .incSize x, [])
  | .incSize x, .tick =>
    some ({ m with size := Function.update m.size q (m.size q + 1) }, .idle, [.ret x])
  | .decSize, .tick =>
    let m' := { m with size := Function.update m.size q (m.size q - 1) }
    if m.size q - 1 < 0 then some (m', .undo, []) else some (m', .loadHead, [])
  | .undo, .tick => some ({ m with size := Function.update m.size q (m.size q + 1) }, .idle, [.miss])
  | .loadHead, .tick => some (m, .loadHeadNext (m.head q), [])
  | .loadHeadNext b, c => (readNext m b (m.head q) c).map fun w =>
    if w = .mark q then (m, .recheck b, []) else (m, .loadDeqTail b w, [])
  | .recheck b, .tick =>
    if b.same (m.head q) then some (m, .idle, [.miss]) else some (m, .loadHead, [])
  | .loadDeqTail b y, .tick => some (m, .loadTailNext b y (m.tail q), [])
  | .loadTailNext b y bt, c => (readNext m bt (m.tail q) c).map fun w =>
    if w = .mark q then (m, .readData b y, []) else (m, .helpDeq bt w, [])
  | .helpDeq bt y, .tick =>
    some ({ m with tail := Function.update m.tail q (cas (m.tail q) bt ⟨y, bt.idx + 1⟩) }, .loadHead, [])
  | .readData b y, c => (readItem m y b (m.head q) c).map fun x => (m, .takeHead b y x, [])
  | .takeHead b y x, .tick =>
    if b.same (m.head q) then
      some ({ m with head := Function.update m.head q ⟨y, b.idx + 1⟩ }, .freeHead b.word, [.take x])
    else some (m, .loadHead, [])
  | .freeHead w, .tick => (free m w).map fun m' => (m', .idle, [])
  | _, _ => none

structure State (τ ι α : Type*) where
  mem : Mem ι α
  /-- The queue that a thread is working on, or has worked on last. -/
  on : τ → Option ι
  pc : τ → Pc ι α
  log : ι → List (Event (Item α))

variable [DecidableEq τ]

/-- A thread, a queue and a choice. -/
abbrev Action (τ ι α : Type*) := τ × ι × Choice ι α

def qstep [DecidableEq α] (s : State τ ι α) (a : Action τ ι α) : Option (State τ ι α) :=
  if s.pc a.1 = .idle ∨ s.on a.1 = some a.2.1 then
    (tstep s.mem a.2.1 (s.pc a.1) a.2.2).map fun r =>
      ⟨r.1, Function.update s.on a.1 (some a.2.1), Function.update s.pc a.1 r.2.1,
        Function.update s.log a.2.1 (s.log a.2.1 ++ r.2.2)⟩
  else none

/-- The constructors of the queues, over what the memory of the nodes holds. -/
def construct (next : Node ι → Word ι) (data : Node ι → Item α) : State τ ι α where
  mem :=
    { head := fun q => ⟨.node (.dummy q), 0⟩
      tail := fun q => ⟨.node (.dummy q), 0⟩
      size := fun _ => 0
      next := fun n => match n with
        | .pool a => next (.pool a)
        | .dummy q => .mark q
      data := data
      pooled := fun _ => true
      calls := 0 }
  on _ := none
  pc _ := .idle
  log _ := []

/-! ### Runs -/

/-- Fewer than `2 ^ 17` changes of a pointer lie between its load and the compare-exchange. -/
def noWrap (m : Mem ι α) (q : ι) : Pc ι α → Prop
  | .help _ _ b _ | .swing _ _ b | .helpDeq b _ => (m.tail q).idx < b.idx + 2 ^ 17
  | .takeHead b _ _ => (m.head q).idx < b.idx + 2 ^ 17
  | _ => True

/-- No compare-exchange of a pointer succeeds after its count has changed. -/
def noAlias (m : Mem ι α) (q : ι) : Pc ι α → Prop
  | .help _ _ b _ | .swing _ _ b | .helpDeq b _ => b.same (m.tail q) = true → b.idx = (m.tail q).idx
  | .takeHead b _ _ => b.same (m.head q) = true → b.idx = (m.head q).idx
  | _ => True

instance (m : Mem ι α) (q : ι) (p : Pc ι α) : Decidable (noWrap m q p) := by
  cases p <;> first | exact Nat.decLt _ _ | exact instDecidableTrue

instance (m : Mem ι α) (q : ι) (p : Pc ι α) : Decidable (noAlias m q p) := by
  cases p <;> first | exact instDecidableTrue | exact inferInstanceAs (Decidable (_ = _ → _ = _))

/-- The runs in which no count wraps between a load and its compare-exchange. -/
def timely (s : State τ ι α) (a : Action τ ι α) : Prop := noWrap s.mem a.2.1 (s.pc a.1)

instance (s : State τ ι α) (a : Action τ ι α) : Decidable (timely s a) :=
  inferInstanceAs (Decidable (noWrap _ _ _))

end LoginServerChat.Queues
