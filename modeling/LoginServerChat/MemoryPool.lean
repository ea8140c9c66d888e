import LoginServerChat.Places
import LoginServerChat.Runs
import LoginServerChat.StaleReads

/-!
`MemoryPool` in its debugging form, with every load, store and interlocked operation one step.

An address is a number, and null is 0. `_freeStackTop` is a word of 64 bits: the address of a block
in its low 47 bits, and in the upper 17 a tag that `Pop` counts up. A block keeps what it held while
it is in the pool. What the callers hold is kept beside the state; only a caller's own call reads it.
-/

namespace LoginServerChat.MemoryPool

variable {τ : Type*}

/-! ### Tagged words -/

def mask : ℕ := 0x00007FFFFFFFFFFF

/-- The address in a word. -/
def addr (w : ℕ) : ℕ := w &&& mask

/-- `(UINT64)w >> 47`. -/
def tag (w : ℕ) : ℕ := w >>> 47

/-- `(LONG64)a | ((UINT64)idx << 47)`. -/
def pack (a idx : ℕ) : ℕ := a ||| ((idx <<< 47) % 2 ^ 64)

lemma addr_eq (w : ℕ) : addr w = w % 2 ^ 47 := Nat.and_two_pow_sub_one_eq_mod w 47

lemma tag_eq (w : ℕ) : tag w = w / 2 ^ 47 := Nat.shiftRight_eq_div_pow w 47

lemma addr_lt (w : ℕ) : addr w < 2 ^ 47 := by
  rw [addr_eq]
  exact Nat.mod_lt _ (by norm_num)

/-- Address and tag do not overlap, and of the tag 17 bits are left. -/
lemma pack_eq {a : ℕ} (ha : a < 2 ^ 47) (idx : ℕ) : pack a idx = 2 ^ 47 * (idx % 2 ^ 17) + a := by
  have hshift : (idx <<< 47) % 2 ^ 64 = 2 ^ 47 * (idx % 2 ^ 17) := by
    rw [Nat.shiftLeft_eq, show (2 : ℕ) ^ 64 = 2 ^ 17 * 2 ^ 47 by norm_num, Nat.mul_mod_mul_right, Nat.mul_comm]
  rw [pack, hshift, Nat.two_pow_add_eq_or_of_lt ha, Nat.or_comm]

lemma addr_pack {a : ℕ} (ha : a < 2 ^ 47) (idx : ℕ) : addr (pack a idx) = a := by
  rw [addr_eq, pack_eq ha, Nat.mul_add_mod, Nat.mod_eq_of_lt ha]

lemma tag_pack {a : ℕ} (ha : a < 2 ^ 47) (idx : ℕ) : tag (pack a idx) = idx % 2 ^ 17 := by
  rw [tag_eq, pack_eq ha]
  omega

/-! ### The pool -/

structure Mem where
  freeStackTop : ℕ
  next : ℕ → ℕ
  preCode : ℕ → UInt64
  postCode : ℕ → UInt64
  addAllocCnt : UInt64
  useCnt : UInt64
  totalCnt : UInt64
  /-- `_allocTop` of the `BlockAllocator`, and the `_next` of its nodes. -/
  allocTop : ℕ
  nodeNext : ℕ → ℕ
  /-- The memory that has been allocated for blocks. -/
  created : ℕ → Bool
  /-- How often `Pop` has taken a block. -/
  pops : ℕ

/-- The points of `Alloc` and `Free`, with those of the functions they call. `w` is `bkTop`, and `v`
the number of pops when it was loaded; `y` is `nextTop`, and `q` the block of the call. -/
inductive Pc
  | idle
  -- `Pop`
  | popLoad
  | popNext (w v : ℕ)
  | popCas (w y v : ℕ)
  -- `Alloc` of a block from the stack
  | readPost (q : ℕ)
  | flipPost (q : ℕ) (code : UInt64)
  -- `Alloc` of a new block
  | incCnt
  | decCnt
  | malloc
  | addLoad (q : ℕ)
  | addNext (q w : ℕ)
  | addCas (q w : ℕ)
  | setPre (q : ℕ)
  | setPost (q : ℕ)
  | incTotal (q : ℕ)
  | setNext (q : ℕ)
  -- the end of both
  | incUse (q : ℕ)
  -- `Free`
  | freePre (q : ℕ)
  | freePost (q : ℕ) (pre : UInt64)
  | freeCode (q : ℕ)
  | readFree (q : ℕ)
  | flipFree (q : ℕ) (code : UInt64)
  | decUse (q : ℕ)
  -- `Push`
  | pushLoad (q : ℕ)
  | pushNext (q w : ℕ)
  | pushCas (q w : ℕ)
  deriving DecidableEq

/-- A call, a block handed to another caller, what `_aligned_malloc` gives, or the next step. -/
inductive Choice (τ : Type*)
  | alloc
  | free (q : ℕ)
  | give (u : τ) (q : ℕ)
  | memory (q : ℕ)
  | noMemory
  | tick

/-- What a pool is set up with: its code and limit, and the blocks of `_blockPool` over what their
memory held. -/
structure Boot where
  myCode : UInt64
  addAllocMax : UInt64
  blocks : List ℕ
  next : ℕ → ℕ
  preCode : ℕ → UInt64
  postCode : ℕ → UInt64
  nodup : blocks.Nodup
  range : ∀ q ∈ blocks, 0 < q ∧ q < 2 ^ 47

/-- What a step does with the block of its call: nothing, or the caller has it from then on. -/
abbrev Result := Mem × Pc × Option ℕ

/-- One step of a call. -/
def tstep (b : Boot) (m : Mem) : Pc → Choice τ → Option Result
  | .idle, .alloc => some (m, .popLoad, none)
  | .popLoad, .tick =>
    if addr m.freeStackTop = 0 then some (m, .incCnt, none)
    else some (m, .popNext m.freeStackTop m.pops, none)
  | .popNext w v, .tick => some (m, .popCas w (m.next (addr w)) v, none)
  | .popCas w y _, .tick =>
    if m.freeStackTop = w then
      some ({ m with freeStackTop := pack y (tag w + 1), pops := m.pops + 1 }, .readPost (addr w), none)
    else some (m, .popLoad, none)
  | .readPost q, .tick => some (m, .flipPost q (m.postCode q), none)
  | .flipPost q code, .tick =>
    some ({ m with postCode := Function.update m.postCode q (~~~code) }, .incUse q, none)
  | .incCnt, .tick =>
    let myNum := m.addAllocCnt + 1
    if myNum = b.addAllocMax then some ({ m with addAllocCnt := myNum }, .idle, none)
    else if b.addAllocMax < myNum then some ({ m with addAllocCnt := myNum }, .decCnt, none)
    else some ({ m with addAllocCnt := myNum }, .malloc, none)
  | .decCnt, .tick => some ({ m with addAllocCnt := m.addAllocCnt - 1 }, .idle, none)
  | .malloc, .memory q =>
    if m.created q = false ∧ 0 < q ∧ q < 2 ^ 47 then
      some ({ m with created := Function.update m.created q true }, .addLoad q, none)
    else none
  | .malloc, .noMemory => some (m, .idle, none)
  | .addLoad q, .tick => some (m, .addNext q m.allocTop, none)
  | .addNext q w, .tick =>
    some ({ m with nodeNext := Function.update m.nodeNext q (addr w) }, .addCas q w, none)
  | .addCas q w, .tick =>
    if m.allocTop = w then some ({ m with allocTop := pack q (tag w) }, .setPre q, none)
    else some (m, .addLoad q, none)
  | .setPre q, .tick =>
    some ({ m with preCode := Function.update m.preCode q b.myCode }, .setPost q, none)
  | .setPost q, .tick =>
    some ({ m with postCode := Function.update m.postCode q b.myCode }, .incTotal q, none)
  | .incTotal q, .tick => some ({ m with totalCnt := m.totalCnt + 1 }, .setNext q, none)
  | .setNext q, .tick => some ({ m with next := Function.update m.next q 0 }, .incUse q, none)
  | .incUse q, .tick => some ({ m with useCnt := m.useCnt + 1 }, .idle, some q)
  | .freePre q, .tick => some (m, .freePost q (m.preCode q), none)
  | .freePost q pre, .tick =>
    if pre = m.postCode q then some (m, .freeCode q, none) else some (m, .idle, some q)
  | .freeCode q, .tick =>
    if m.preCode q = b.myCode then some (m, .readFree q, none) else some (m, .idle, some q)
  | .readFree q, .tick => some (m, .flipFree q (m.postCode q), none)
  | .flipFree q code, .tick =>
    some ({ m with postCode := Function.update m.postCode q (~~~code) }, .decUse q, none)
  | .decUse q, .tick => some ({ m with useCnt := m.useCnt - 1 }, .pushLoad q, none)
  | .pushLoad q, .tick => some (m, .pushNext q m.freeStackTop, none)
  | .pushNext q w, .tick =>
    some ({ m with next := Function.update m.next q (addr w) }, .pushCas q w, none)
  | .pushCas q w, .tick =>
    if m.freeStackTop = w then some ({ m with freeStackTop := pack q (tag w) }, .idle, none)
    else some (m, .pushLoad q, none)
  | _, _ => none

structure Pool (τ : Type*) where
  mem : Mem
  pc : τ → Pc
  /-- The blocks that callers hold. -/
  holds : τ → List ℕ

variable [DecidableEq τ]

/-- One step: a caller frees a block that it holds, hands one to another, or goes on with its call. -/
def pstep (b : Boot) (s : Pool τ) (a : τ × Choice τ) : Option (Pool τ) :=
  match s.pc a.1, a.2 with
  | .idle, .free q =>
    if q ∈ s.holds a.1 then
      some { s with
        pc := Function.update s.pc a.1 (.freePre q)
        holds := Function.update s.holds a.1 ((s.holds a.1).erase q) }
    else none
  | .idle, .give u q =>
    if q ∈ s.holds a.1 then
      let h := Function.update s.holds a.1 ((s.holds a.1).erase q)
      some { s with holds := Function.update h u (q :: h u) }
    else none
  | p, c => (tstep b s.mem p c).map fun r =>
    ⟨r.1, Function.update s.pc a.1 r.2.1, Function.update s.holds a.1 (r.2.2.toList ++ s.holds a.1)⟩

/-- The loop of the constructor over the blocks. -/
def linkAll (b : Boot) (m : Mem) (blocks : List ℕ) : Mem :=
  blocks.foldl (fun m q =>
    { m with
      preCode := Function.update m.preCode q b.myCode
      postCode := Function.update m.postCode q (~~~b.myCode)
      next := Function.update m.next q m.freeStackTop
      freeStackTop := q
      created := Function.update m.created q true }) m

/-- What the loop starts from. -/
def bare (b : Boot) : Mem where
  freeStackTop := 0
  next := b.next
  preCode := b.preCode
  postCode := b.postCode
  addAllocCnt := -1
  useCnt := 0
  totalCnt := 0
  allocTop := 0
  nodeNext _ := 0
  created _ := false
  pops := 0

/-- The constructor. -/
def construct (b : Boot) : Pool τ where
  mem := { linkAll b (bare b) b.blocks with totalCnt := UInt64.ofNat b.blocks.length }
  pc _ := .idle
  holds _ := []

/-- Fewer than `2 ^ 17` pops lie between the load of `_freeStackTop` and the step that compares it. -/
def timely (s : Pool τ) (a : τ × Choice τ) : Prop :=
  match s.pc a.1 with
  | .popCas _ _ v => s.mem.pops < v + 2 ^ 17
  | _ => True

instance (s : Pool τ) (a : τ × Choice τ) : Decidable (timely s a) := by
  unfold timely
  split
  · exact Nat.decLt _ _
  · exact instDecidableTrue

/-- The block that a call is working on. -/
def Pc.transit : Pc → Option ℕ
  | .readPost q | .flipPost q _ | .addLoad q | .addNext q _ | .addCas q _ | .setPre q | .setPost q |
    .incTotal q | .setNext q | .incUse q | .freePre q | .freePost q _ | .freeCode q | .readFree q |
    .flipFree q _ | .decUse q | .pushLoad q | .pushNext q _ | .pushCas q _ => some q
  | _ => none

/-- The block behind another, by its `_next`. -/
def link (w : ℕ) : Option ℕ := if w = 0 then none else some w

end LoginServerChat.MemoryPool
