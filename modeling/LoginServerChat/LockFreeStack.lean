import LoginServerChat.LifoHistory
import LoginServerChat.Runs
import LoginServerChat.StaleReads

/-!
`CLockFreeStack`, with every load, store and compare-exchange one step, for any number of stacks
that share `poolManager`.

A node is a number, `next` leads to the node below it, and `none` stands for the null pointer, which
only the dummy node at the bottom of each stack has. `Push` exchanges `_top` alone; `Pop` exchanges
`_top` and `_uniqIdx` together. The counter is kept whole, and compared in its 64 bits.

The log of what the calls do is kept beside the state, and no step reads it.
-/

namespace LoginServerChat.LockFreeStack

open LifoHistory

variable {τ ι α : Type*}

structure Mem (ι α : Type*) where
  top : ι → ℕ
  uniqIdx : ι → ℕ
  next : ℕ → Option ℕ
  data : ℕ → α
  /-- The nodes in `poolManager`. -/
  pooled : ℕ → Bool

/-- The points of `Push` and `Pop` on stack `i`. `n` is `pNewnode`, `b` is `bkTop`, `v` and `a` are
the two halves of `popNode`, and `y` is `pNextTop`. -/
inductive Pc (ι α : Type*)
  | idle
  -- `Push`
  | alloc (i : ι) (x : α)
  | setData (i : ι) (n : ℕ) (x : α)
  | loadTop (i : ι) (n : ℕ) (x : α)
  | setNext (i : ι) (n : ℕ) (x : α) (b : ℕ)
  | casTop (i : ι) (n : ℕ) (x : α) (b : ℕ)
  -- `Pop`
  | loadIdx (i : ι)
  | loadPopTop (i : ι) (v : ℕ)
  | loadNext (i : ι) (v a : ℕ)
  | casBoth (i : ι) (v a y : ℕ)
  | readData (i : ι) (a : ℕ)
  | free (i : ι) (a : ℕ) (x : α)
  deriving DecidableEq

/-- A call, the node that `Alloc` finds, or the next step. -/
inductive Choice (ι α : Type*)
  | push (i : ι) (x : α)
  | pop (i : ι)
  | node (q : ℕ)
  | tick

variable [DecidableEq ι]

/-- One step of thread `t`, with what it adds to the log. -/
def tstep (t : τ) (m : Mem ι α) : Pc ι α → Choice ι α → Option (Mem ι α × Pc ι α × List (Event τ ι α))
  | .idle, .push i x => some (m, .alloc i x, [])
  | .idle, .pop i => some (m, .loadIdx i, [])
  | .alloc i x, .node q =>
    if m.pooled q then
      some ({ m with pooled := Function.update m.pooled q false }, .setData i q x, [])
    else none
  | .setData i n x, .tick => some ({ m with data := Function.update m.data n x }, .loadTop i n x, [])
  | .loadTop i n x, .tick => some (m, .setNext i n x (m.top i), [])
  | .setNext i n x b, .tick =>
    some ({ m with next := Function.update m.next n (some b) }, .casTop i n x b, [])
  | .casTop i n x b, .tick =>
    if m.top i = b then some ({ m with top := Function.update m.top i n }, .idle, [.push t i x])
    else some (m, .loadTop i n x, [])
  | .loadIdx i, .tick => some (m, .loadPopTop i (m.uniqIdx i), [])
  | .loadPopTop i v, .tick => some (m, .loadNext i v (m.top i), [])
  | .loadNext i v a, .tick =>
    match m.next a with
    | none => some (m, .idle, [.miss t i])
    | some y => some (m, .casBoth i v a y, [])
  | .casBoth i v a y, .tick =>
    if m.top i = a ∧ m.uniqIdx i % 2 ^ 64 = v % 2 ^ 64 then
      some ({ m with
        top := Function.update m.top i y
        uniqIdx := Function.update m.uniqIdx i (v + 1) }, .readData i a, [.pop t i (m.data a)])
    else some (m, .loadIdx i, [])
  | .readData i a, .tick => some (m, .free i a (m.data a), [])
  | .free i a x, .tick =>
    some ({ m with pooled := Function.update m.pooled a true }, .idle, [.ret t i x])
  | _, _ => none

structure Stacks (τ ι α : Type*) where
  mem : Mem ι α
  pc : τ → Pc ι α
  log : List (Event τ ι α)

variable [DecidableEq τ]

def sstep (s : Stacks τ ι α) (a : τ × Choice ι α) : Option (Stacks τ ι α) :=
  (tstep a.1 s.mem (s.pc a.1) a.2).map fun r =>
    ⟨r.1, Function.update s.pc a.1 r.2.1, s.log ++ r.2.2⟩

/-- What the constructors find: the dummy nodes, one to a stack, the nodes of the pool, and what the
memory of the nodes holds. -/
structure Boot (ι α : Type*) where
  dummy : ι → ℕ
  next : ℕ → Option ℕ
  data : ℕ → α
  pooled : ℕ → Bool
  dummy_inj : Function.Injective dummy
  dummy_next : ∀ i, next (dummy i) = none
  dummy_out : ∀ i, pooled (dummy i) = false

/-- The stacks as their constructors leave them. -/
def construct (b : Boot ι α) : Stacks τ ι α where
  mem := ⟨b.dummy, fun _ => 0, b.next, b.data, b.pooled⟩
  pc _ := .idle
  log := []

/-- Fewer than `2 ^ 64` removals from a stack lie between the load of its count and the step that
compares it. In a run with fewer than `2 ^ 64` removals this is always so. -/
def fewPops (s : Stacks τ ι α) (a : τ × Choice ι α) : Prop :=
  match s.pc a.1 with
  | .casBoth i v _ _ => s.mem.uniqIdx i < v + 2 ^ 64
  | _ => True

instance (s : Stacks τ ι α) (a : τ × Choice ι α) : Decidable (fewPops s a) := by
  unfold fewPops
  split
  · exact Nat.decLt _ _
  · exact instDecidableTrue

/-- The values on the list from `_top` of stack `i` down to its dummy node. -/
def Holds (b : Boot ι α) (s : Stacks τ ι α) (i : ι) (l : List α) : Prop :=
  ∃ c, LinkedChain.Chain s.mem.next (c ++ [b.dummy i]) ∧
    (c ++ [b.dummy i]).head? = some (s.mem.top i) ∧ c.Nodup ∧ c.map s.mem.data = l

end LoginServerChat.LockFreeStack
