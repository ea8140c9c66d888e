import LoginServerChat.FifoHistory
import LoginServerChat.LinkedChain

/-!
`CLockFreeQueue`, with every load, store and interlocked operation one step.

A node is a number, `next` leads to the node behind it, and `none` stands for `_myCode`, the mark
at the end. `_head` and `_tail` hold the address of a node in their low 47 bits and a count of
their changes in the upper 17; only what is left of the count in 17 bits is compared. Nodes come
from `poolManager` and go back to it, and keep what they held there. `_size` is an integer, which a
`long` holds while fewer than `2 ^ 31` values are in the queue.

A value carries the number of the `Enqueue` it came with, and the log of the calls is kept beside
the state; no step reads either.
-/

namespace LoginServerChat.LockFreeQueue

open FifoHistory Runs

/-- A tagged pointer. -/
structure Ptr where
  addr : ℕ
  idx : ℕ
  deriving DecidableEq

/-- The two words are equal. -/
def Ptr.same (a b : Ptr) : Bool := a.addr = b.addr ∧ a.idx % 2 ^ 17 = b.idx % 2 ^ 17

variable {α : Type*}

/-- A value and the number of its `Enqueue`. -/
abbrev Item (α : Type*) := α × ℕ

structure Mem (α : Type*) where
  head : Ptr
  tail : Ptr
  next : ℕ → Option ℕ
  data : ℕ → Item α
  size : ℤ
  /-- The nodes in `poolManager`. -/
  pooled : ℕ → Bool
  /-- How often `Enqueue` has been called. -/
  calls : ℕ

/-- The points of `Enqueue` and `Dequeue`. `n` is `newNode`, `b` is `bkTail` or `bkHead`, `y` is
`bkNext` or, in `helpDeq`, `bkTailNext`. -/
inductive Pc (α : Type*)
  | idle
  -- `Enqueue`
  | alloc (x : Item α)
  | setData (n : ℕ) (x : Item α)
  | setNext (n : ℕ) (x : Item α)
  | loadTail (n : ℕ) (x : Item α)
  | loadNext (n : ℕ) (x : Item α) (b : Ptr)
  | link (n : ℕ) (x : Item α) (b : Ptr)
  | help (n : ℕ) (x : Item α) (b : Ptr) (y : ℕ)
  | swing (n : ℕ) (x : Item α) (b : Ptr)
  | incSize (x : Item α)
  -- `Dequeue`
  | decSize
  | undo
  | loadHead
  | loadHeadNext (b : Ptr)
  | recheck (b : Ptr)
  | loadDeqTail (b : Ptr) (y : ℕ)
  | loadTailNext (b : Ptr) (y : ℕ) (bt : Ptr)
  | helpDeq (bt : Ptr) (y : ℕ)
  | readData (b : Ptr) (y : ℕ)
  | takeHead (b : Ptr) (y : ℕ) (x : Item α)
  | freeHead (a : ℕ)
  deriving DecidableEq

/-- A call, the node that `Alloc` finds, or the next step. -/
inductive Choice (α : Type*)
  | enqueue (v : α)
  | dequeue
  | node (q : ℕ)
  | tick

/-- `InterlockedCompareExchange64` on a tagged pointer. -/
def cas (p b new : Ptr) : Ptr := if b.same p then new else p

/-- One step of a thread, with what it adds to the log. -/
def tstep (m : Mem α) : Pc α → Choice α → Option (Mem α × Pc α × List (Event (Item α)))
  | .idle, .enqueue v =>
    some ({ m with calls := m.calls + 1 }, .alloc (v, m.calls), [.call (v, m.calls)])
  | .idle, .dequeue => some (m, .decSize, [])
  | .alloc x, .node q =>
    if m.pooled q then
      some ({ m with pooled := Function.update m.pooled q false }, .setData q x, [])
    else none
  | .setData n x, .tick => some ({ m with data := Function.update m.data n x }, .setNext n x, [])
  | .setNext n x, .tick => some ({ m with next := Function.update m.next n none }, .loadTail n x, [])
  | .loadTail n x, .tick => some (m, .loadNext n x m.tail, [])
  | .loadNext n x b, .tick =>
    match m.next b.addr with
    | none => some (m, .link n x b, [])
    | some y => some (m, .help n x b y, [])
  | .link n x b, .tick =>
    if m.next b.addr = none then
      some ({ m with next := Function.update m.next b.addr (some n) }, .swing n x b, [])
    else some (m, .loadTail n x, [])
  | .help n x b y, .tick => some ({ m with tail := cas m.tail b ⟨y, b.idx + 1⟩ }, .loadTail n x, [])
  | .swing n x b, .tick => some ({ m with tail := cas m.tail b ⟨n, b.idx + 1⟩ }, .incSize x, [])
  | .incSize x, .tick => some ({ m with size := m.size + 1 }, .idle, [.ret x])
  | .decSize, .tick =>
    if m.size - 1 < 0 then some ({ m with size := m.size - 1 }, .undo, [])
    else some ({ m with size := m.size - 1 }, .loadHead, [])
  | .undo, .tick => some ({ m with size := m.size + 1 }, .idle, [.miss])
  | .loadHead, .tick => some (m, .loadHeadNext m.head, [])
  | .loadHeadNext b, .tick =>
    match m.next b.addr with
    | none => some (m, .recheck b, [])
    | some y => some (m, .loadDeqTail b y, [])
  | .recheck b, .tick =>
    if b.same m.head then some (m, .idle, [.miss]) else some (m, .loadHead, [])
  | .loadDeqTail b y, .tick => some (m, .loadTailNext b y m.tail, [])
  | .loadTailNext b y bt, .tick =>
    match m.next bt.addr with
    | none => some (m, .readData b y, [])
    | some z => some (m, .helpDeq bt z, [])
  | .helpDeq bt y, .tick => some ({ m with tail := cas m.tail bt ⟨y, bt.idx + 1⟩ }, .loadHead, [])
  | .readData b y, .tick => some (m, .takeHead b y (m.data y), [])
  | .takeHead b y x, .tick =>
    if b.same m.head then
      some ({ m with head := ⟨y, b.idx + 1⟩ }, .freeHead b.addr, [.take x])
    else some (m, .loadHead, [])
  | .freeHead a, .tick => some ({ m with pooled := Function.update m.pooled a true }, .idle, [])
  | _, _ => none

structure Queue (τ α : Type*) where
  mem : Mem α
  pc : τ → Pc α
  log : List (Event (Item α))

variable {τ : Type*} [DecidableEq τ]

def qstep (s : Queue τ α) (a : τ × Choice α) : Option (Queue τ α) :=
  (tstep s.mem (s.pc a.1) a.2).map fun r =>
    ⟨r.1, Function.update s.pc a.1 r.2.1, s.log ++ r.2.2⟩

/-- The constructor, over what the memory of the nodes holds; `_dummy` is node `d`. -/
def construct (d : ℕ) (next : ℕ → Option ℕ) (data : ℕ → Item α) : Queue τ α where
  mem :=
    { head := ⟨d, 0⟩
      tail := ⟨d, 0⟩
      next := Function.update next d none
      data := data
      size := 0
      pooled := fun q => q ≠ d
      calls := 0 }
  pc _ := .idle
  log := []

/-- `GetUseSize`. -/
def getUseSize (s : Queue τ α) : ℤ := s.mem.size

/-! ### Runs -/

/-- Fewer than `2 ^ 17` changes of a pointer lie between its load and the step that compares it. -/
def noWrap (m : Mem α) : Pc α → Prop
  | .help _ _ b _ | .swing _ _ b | .helpDeq b _ => m.tail.idx < b.idx + 2 ^ 17
  | .recheck b | .takeHead b _ _ => m.head.idx < b.idx + 2 ^ 17
  | _ => True

instance (m : Mem α) (p : Pc α) : Decidable (noWrap m p) := by
  cases p <;> first | exact Nat.decLt _ _ | exact instDecidableTrue

/-- No comparison of a pointer finds it equal to what was loaded after its count has changed. -/
def noAlias (m : Mem α) : Pc α → Prop
  | .help _ _ b _ | .swing _ _ b | .helpDeq b _ => b.same m.tail = true → b.idx = m.tail.idx
  | .recheck b | .takeHead b _ _ => b.same m.head = true → b.idx = m.head.idx
  | _ => True

instance (m : Mem α) (p : Pc α) : Decidable (noAlias m p) := by
  cases p <;> first | exact instDecidableTrue | exact inferInstanceAs (Decidable (_ = _ → _ = _))

/-- The node that an `Enqueue` has allocated and not linked. -/
def Pc.newNode : Pc α → Option ℕ
  | .setData n _ | .setNext n _ | .loadTail n _ | .loadNext n _ _ | .link n _ _ | .help n _ _ _ => some n
  | _ => none

/-- The compare-exchange that links does not succeed on a node which another `Enqueue` has
allocated and not linked. -/
def linksQueue (s : Queue τ α) : Pc α → Prop
  | .link _ _ b => s.mem.next b.addr = none → ∀ u, (s.pc u).newNode ≠ some b.addr
  | _ => True

instance [Fintype τ] (s : Queue τ α) (p : Pc α) : Decidable (linksQueue s p) := by
  cases p <;> first
    | exact instDecidableTrue
    | exact inferInstanceAs (Decidable (_ = _ → ∀ u, _ ≠ _))

/-- The runs in which no count wraps between a load and its comparison. -/
def timely (s : Queue τ α) (a : τ × Choice α) : Prop := noWrap s.mem (s.pc a.1)

/-- And in which, besides, nothing is linked to a node that is not in the queue. -/
def sane (s : Queue τ α) (a : τ × Choice α) : Prop := timely s a ∧ linksQueue s (s.pc a.1)

instance (s : Queue τ α) (a : τ × Choice α) : Decidable (timely s a) :=
  inferInstanceAs (Decidable (noWrap _ _))

instance [Fintype τ] (s : Queue τ α) (a : τ × Choice α) : Decidable (sane s a) :=
  inferInstanceAs (Decidable (timely _ _ ∧ linksQueue _ _))

end LoginServerChat.LockFreeQueue
