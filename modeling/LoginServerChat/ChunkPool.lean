import LoginServerChat.MemoryPool
import LoginServerChat.MemoryPoolTLS

/-!
`ChunkAlloc` and `ChunkFree` of a `MemoryPoolTLS`, with every load, store and interlocked operation
one step. `_emptyChunkManager` gives some chunk that is not null, whatever has become of it before.

Addresses and tagged words are those of `MemoryPool`. A block is named by its array and its place.
-/

namespace LoginServerChat.ChunkPool

open MemoryPool

variable {τ : Type*}

abbrev Block := ℕ × ℕ

structure Mem where
  freeStackTop : ℕ
  -- the chunks
  next : ℕ → ℕ
  chunkTop : ℕ → Option Block
  size : ℕ → ℕ
  -- the blocks
  blockNext : Block → Option Block
  preCode : Block → UInt64
  postCode : Block → UInt64
  addAllocCnt : UInt64
  totalChunk : UInt64
  useChunk : UInt64
  /-- `_allocTop` of the `BlockArrayAllocator`, and the `_next` of its nodes. -/
  allocTop : ℕ
  nodeNext : ℕ → ℕ
  /-- The arrays that have been allocated. -/
  arrays : ℕ → Bool

/-- The points of the two functions. `w` is the word that was loaded, `y` is `nextTop`, `a` the new
array, `q` the chunk of the call, and `i` the counter of the loop. -/
inductive Pc
  | idle
  -- `Pop`
  | popLoad
  | popNext (w : ℕ)
  | popCas (w y : ℕ)
  -- a new array
  | incCnt
  | decCnt
  | malloc
  | addLoad (a : ℕ)
  | addNext (a w : ℕ)
  | addCas (a w : ℕ)
  | manager (a : ℕ)
  | fill (a q i : ℕ)
  | incTotal (q : ℕ)
  | incUse (q : ℕ)
  -- `ChunkFree`
  | pushLoad (q : ℕ)
  | pushNext (q w : ℕ)
  | pushCas (q w : ℕ)
  | decUse
  deriving DecidableEq

/-- A call, a chunk that has run dry handed back to `_emptyChunkManager`, what `_aligned_malloc` and
`_emptyChunkManager` give, or the next step. -/
inductive Choice
  | chunkAlloc
  | chunkFree (q : ℕ)
  | handBack (q : ℕ)
  | memory (a : ℕ)
  | noMemory
  | chunk (q : ℕ)
  | tick

/-- What a pool is set up with: the arguments of the constructor, the chunks that it takes from
`_emptyChunkManager` and the array `_blockPool`, over what the memory held. -/
structure Boot where
  chunkSize : ℕ
  myCode : UInt64
  initBlockNum : UInt64
  maxBlockLimit : UInt64
  chunks : List ℕ
  blockPool : ℕ
  next : ℕ → ℕ
  chunkTop : ℕ → Option Block
  size : ℕ → ℕ
  blockNext : Block → Option Block
  preCode : Block → UInt64
  postCode : Block → UInt64
  /-- The tests of the constructor. -/
  accepted : ¬ maxBlockLimit < initBlockNum ∧ ¬ (initBlockNum = 0 ∧ maxBlockLimit = 0)
  chunks_length : chunks.length = (MemoryPoolTLS.chunkCount chunkSize initBlockNum).toNat
  chunkSize_pos : 0 < chunkSize ∧ chunkSize < 2 ^ 64

/-- `maxChunkCnt - initChunkCnt`. -/
def Boot.addAllocMax (b : Boot) : UInt64 :=
  MemoryPoolTLS.chunkCount b.chunkSize b.maxBlockLimit -
    MemoryPoolTLS.chunkCount b.chunkSize b.initBlockNum

/-- A round of the loops over the blocks: the codes are set, and `Chunk::Push`. -/
def fillBlock (b : Boot) (q : ℕ) (m : Mem) (x : Block) : Mem :=
  let m := { m with
    preCode := Function.update m.preCode x b.myCode
    postCode := Function.update m.postCode x (~~~b.myCode) }
  if m.size q = b.chunkSize then m
  else { m with
    blockNext := Function.update m.blockNext x (m.chunkTop q)
    chunkTop := Function.update m.chunkTop q (some x)
    size := Function.update m.size q (m.size q + 1) }

/-- The memory and the point after a step, and the chunk that the caller has from then on. -/
abbrev Result := Mem × Pc × Option ℕ

/-- One step of a call. -/
def tstep (b : Boot) (m : Mem) : Pc → Choice → Option Result
  | .idle, .chunkAlloc => some (m, .popLoad, none)
  | .popLoad, .tick =>
    if addr m.freeStackTop = 0 then some (m, .incCnt, none)
    else some (m, .popNext m.freeStackTop, none)
  | .popNext w, .tick => some (m, .popCas w (m.next (addr w)), none)
  | .popCas w y, .tick =>
    if m.freeStackTop = w then some ({ m with freeStackTop := pack y (tag w + 1) }, .incUse (addr w), none)
    else some (m, .popLoad, none)
  | .incCnt, .tick =>
    let myNum := m.addAllocCnt + 1
    if myNum = b.addAllocMax then some ({ m with addAllocCnt := myNum }, .idle, none)
    else if b.addAllocMax < myNum then some ({ m with addAllocCnt := myNum }, .decCnt, none)
    else some ({ m with addAllocCnt := myNum }, .malloc, none)
  | .decCnt, .tick => some ({ m with addAllocCnt := m.addAllocCnt - 1 }, .idle, none)
  | .malloc, .memory a =>
    if m.arrays a = false ∧ 0 < a ∧ a < 2 ^ 47 then
      some ({ m with arrays := Function.update m.arrays a true }, .addLoad a, none)
    else none
  | .malloc, .noMemory => some (m, .idle, none)
  | .addLoad a, .tick => some (m, .addNext a m.allocTop, none)
  | .addNext a w, .tick =>
    some ({ m with nodeNext := Function.update m.nodeNext a (addr w) }, .addCas a w, none)
  | .addCas a w, .tick =>
    if m.allocTop = w then some ({ m with allocTop := pack a (tag w) }, .manager a, none)
    else some (m, .addLoad a, none)
  | .manager a, .chunk q => if 0 < q ∧ q < 2 ^ 47 then some (m, .fill a q 0, none) else none
  | .fill a q i, .tick =>
    if i < b.chunkSize then some (fillBlock b q m (a, i), .fill a q (i + 1), none)
    else some (m, .incTotal q, none)
  | .incTotal q, .tick => some ({ m with totalChunk := m.totalChunk + 1 }, .incUse q, none)
  | .incUse q, .tick => some ({ m with useChunk := m.useChunk + 1 }, .idle, some q)
  | .pushLoad q, .tick => some (m, .pushNext q m.freeStackTop, none)
  | .pushNext q w, .tick =>
    some ({ m with next := Function.update m.next q (addr w) }, .pushCas q w, none)
  | .pushCas q w, .tick =>
    if m.freeStackTop = w then some ({ m with freeStackTop := pack q (tag w) }, .decUse, none)
    else some (m, .pushLoad q, none)
  | .decUse, .tick => some ({ m with useChunk := m.useChunk - 1 }, .idle, none)
  | _, _ => none

structure Pool (τ : Type*) where
  mem : Mem
  pc : τ → Pc
  /-- The chunks that threads have from `ChunkAlloc`. -/
  holds : τ → List ℕ

variable [DecidableEq τ]

/-- One step: a thread calls `ChunkFree` with its chunk, hands an empty one back, or goes on with its
call. -/
def pstep (b : Boot) (s : Pool τ) (a : τ × Choice) : Option (Pool τ) :=
  match s.pc a.1, a.2 with
  | .idle, .chunkFree q =>
    if q ∈ s.holds a.1 then
      some { s with
        pc := Function.update s.pc a.1 (.pushLoad q)
        holds := Function.update s.holds a.1 ((s.holds a.1).erase q) }
    else none
  | .idle, .handBack q =>
    if q ∈ s.holds a.1 then
      some { s with holds := Function.update s.holds a.1 ((s.holds a.1).erase q) }
    else none
  | p, c => (tstep b s.mem p c).map fun r =>
    ⟨r.1, Function.update s.pc a.1 r.2.1, Function.update s.holds a.1 (r.2.2.toList ++ s.holds a.1)⟩

/-- The loop of the constructor over the chunks; `i` counts them. -/
def linkAll (b : Boot) (m : Mem) : ℕ → List ℕ → Mem
  | _, [] => m
  | i, q :: qs =>
    let m := ((List.range' (b.chunkSize * i) b.chunkSize).map fun j => (b.blockPool, j)).foldl
      (fillBlock b q) m
    linkAll b { m with next := Function.update m.next q m.freeStackTop, freeStackTop := q } (i + 1) qs

/-- What the loop starts from. -/
def bare (b : Boot) : Mem where
  freeStackTop := 0
  next := b.next
  chunkTop := b.chunkTop
  size := b.size
  blockNext := b.blockNext
  preCode := b.preCode
  postCode := b.postCode
  addAllocCnt := -1
  totalChunk := MemoryPoolTLS.chunkCount b.chunkSize b.initBlockNum
  useChunk := 0
  allocTop := 0
  nodeNext _ := 0
  arrays _ := false

/-- The constructor. -/
def construct (b : Boot) : Pool τ where
  mem := linkAll b (bare b) 0 b.chunks
  pc _ := .idle
  holds _ := []

end LoginServerChat.ChunkPool
