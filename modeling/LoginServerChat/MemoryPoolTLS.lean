import LoginServerChat.LinkedChain
import LoginServerChat.Places
import LoginServerChat.Runs

/-!
`MemoryPoolTLS` in its debugging form, with every call of it one step: any number of pools, of threads
and of blocks in a chunk.

Pools, blocks and chunks are named by their number in the order they are made, and a pointer to one
is an option. What the callers hold is kept beside each pool; no call reads it.
-/

namespace LoginServerChat.MemoryPoolTLS

variable {τ : Type*}

structure Pool (τ : Type*) where
  myCode : UInt64
  freeStackTop : Option ℕ
  /-- The chunks that are free in the `MemoryPool<Chunk>`. -/
  emptyChunkManager : List ℕ
  addAllocCnt : UInt64
  addAllocMax : UInt64
  totalChunk : UInt64
  useChunk : UInt64
  /-- What each thread has stored under `_tlsIdx`. -/
  tls : τ → Option ℕ
  /-- The blocks that have been allocated here and not yet freed. -/
  held : List ℕ

structure World (τ : Type*) where
  -- the blocks
  preCode : ℕ → UInt64
  postCode : ℕ → UInt64
  next : ℕ → Option ℕ
  -- the chunks
  chunkNext : ℕ → Option ℕ
  chunkTop : ℕ → Option ℕ
  size : ℕ → ℕ
  -- the pools
  pool : ℕ → Pool τ
  secureCode : UInt64
  -- how many of each there are
  blockCnt : ℕ
  chunkCnt : ℕ
  poolCnt : ℕ

/-- A pool is changed. -/
def World.setPool (w : World τ) (p : ℕ) (a : Pool τ) : World τ :=
  { w with pool := Function.update w.pool p a }

@[simp] lemma setPool_self (w : World τ) (p : ℕ) (a : Pool τ) : (w.setPool p a).pool p = a :=
  Function.update_self _ _ _

@[simp] lemma setPool_other {p i : ℕ} (hi : i ≠ p) (w : World τ) (a : Pool τ) :
    (w.setPool p a).pool i = w.pool i := Function.update_of_ne hi _ _

/-- How `Alloc` ends when it does not return: it calls `Pop` on the null that `ChunkAlloc` has
returned, or a chunk of some size has no block. -/
inductive Fault
  | noChunk
  | nullBlock
  deriving DecidableEq

/-! ### `Chunk` -/

def link (c q : ℕ) (w : World τ) : World τ :=
  { w with
    next := Function.update w.next q (w.chunkTop c)
    chunkTop := Function.update w.chunkTop c (some q)
    size := Function.update w.size c (w.size c + 1) }

def unlink (c q : ℕ) (w : World τ) : World τ :=
  { w with
    chunkTop := Function.update w.chunkTop c (w.next q)
    size := Function.update w.size c (w.size c - 1) }

/-- `Chunk::Push`. -/
def pushBlock (n c q : ℕ) (w : World τ) : Bool × World τ :=
  if w.size c = n then (false, w) else (true, link c q w)

/-- `Chunk::Pop`. -/
def popBlock (c : ℕ) (w : World τ) : Except Fault (Option ℕ × World τ) :=
  if w.size c = 0 then .ok (none, w)
  else match w.chunkTop c with
    | none => .error .nullBlock
    | some q => .ok (some q, unlink c q w)

/-! ### The shared stack and the empty chunks -/

/-- `Push`. -/
def pushChunk (p c : ℕ) (w : World τ) : World τ :=
  { w with
    chunkNext := Function.update w.chunkNext c (w.pool p).freeStackTop
    pool := Function.update w.pool p { w.pool p with freeStackTop := some c } }

/-- `Pop`. -/
def popChunk (p : ℕ) (w : World τ) : Option (ℕ × World τ) :=
  match (w.pool p).freeStackTop with
  | none => none
  | some c => some (c, w.setPool p { w.pool p with freeStackTop := w.chunkNext c })

/-- `Chunk::Chunk`. -/
def newChunk (w : World τ) : World τ :=
  { w with
    chunkNext := Function.update w.chunkNext w.chunkCnt none
    chunkTop := Function.update w.chunkTop w.chunkCnt none
    size := Function.update w.size w.chunkCnt 0
    chunkCnt := w.chunkCnt + 1 }

/-- `_emptyChunkManager->Alloc`: a chunk that is free there, as it is, or a new one. -/
def managerAlloc (p : ℕ) (w : World τ) : ℕ × World τ :=
  match (w.pool p).emptyChunkManager with
  | c :: l => (c, w.setPool p { w.pool p with emptyChunkManager := l })
  | [] => (w.chunkCnt, newChunk w)

/-- `_emptyChunkManager->Free`. -/
def managerFree (p c : ℕ) (w : World τ) : World τ :=
  w.setPool p { w.pool p with emptyChunkManager := c :: (w.pool p).emptyChunkManager }

/-- The addresses below `lpMaximumApplicationAddress` that the constructor asks for. -/
def space : ℕ := 2 ^ 47

/-- The numbers of the next `n` blocks. -/
def fresh (n : ℕ) (w : World τ) : List ℕ := List.range' w.blockCnt n

@[simp] lemma mem_fresh {n q : ℕ} {w : World τ} : q ∈ fresh n w ↔ w.blockCnt ≤ q ∧ q < w.blockCnt + n := by
  rw [fresh, List.mem_range'_1]

@[simp] lemma length_fresh (n : ℕ) (w : World τ) : (fresh n w).length = n := List.length_range'

lemma nodup_fresh (n : ℕ) (w : World τ) : (fresh n w).Nodup := List.nodup_range'

/-- The loop over the blocks of an array: the codes are set, and the block goes to the chunk. -/
def fill (n p c : ℕ) (blocks : List ℕ) (w : World τ) : World τ :=
  blocks.foldl (fun w q =>
    (pushBlock n c q { w with
      preCode := Function.update w.preCode q (w.pool p).myCode
      postCode := Function.update w.postCode q (~~~(w.pool p).myCode) }).2) w

/-- An empty chunk, filled from an array that is new. -/
def arrayChunk (n p : ℕ) (w : World τ) : ℕ × World τ :=
  let (pChunk, w') := managerAlloc p { w with blockCnt := w.blockCnt + n }
  (pChunk, fill n p pChunk (fresh n w) w')

/-- `InterlockedIncrement64(&_useChunk)`. -/
def incUse (p : ℕ) (w : World τ) : World τ :=
  w.setPool p { w.pool p with useChunk := (w.pool p).useChunk + 1 }

/-- `InterlockedIncrement64(&_totalChunk)`. -/
def incTotal (p : ℕ) (w : World τ) : World τ :=
  w.setPool p { w.pool p with totalChunk := (w.pool p).totalChunk + 1 }

/-- `ChunkAlloc`. -/
def chunkAlloc (n p : ℕ) (w : World τ) : Option ℕ × World τ :=
  match popChunk p w with
  | some (popChunk, w) => (some popChunk, incUse p w)
  | none =>
    let myNum := (w.pool p).addAllocCnt + 1
    if myNum = (w.pool p).addAllocMax then (none, w.setPool p { w.pool p with addAllocCnt := myNum })
    else if (w.pool p).addAllocMax < myNum then (none, w)
    else
      let w := w.setPool p { w.pool p with addAllocCnt := myNum }
      -- `_aligned_malloc` finds no room
      if space < w.blockCnt + n then (none, w)
      else
        let (popChunk, w) := arrayChunk n p w
        (some popChunk, incUse p (incTotal p w))

/-- `InterlockedDecrement64(&_useChunk)`. -/
def decUse (p : ℕ) (w : World τ) : World τ :=
  w.setPool p { w.pool p with useChunk := (w.pool p).useChunk - 1 }

/-- `ChunkFree`. -/
def chunkFree (p c : ℕ) (w : World τ) : World τ := decUse p (pushChunk p c w)

/-! ### `Alloc` and `Free` -/

variable [DecidableEq τ]

/-- `TlsSetValue`. -/
def tlsSet (p : ℕ) (t : τ) (c : ℕ) (w : World τ) : World τ :=
  w.setPool p { w.pool p with tls := Function.update (w.pool p).tls t (some c) }

/-- The end of `Alloc`: the caller has the block. -/
def handOut (p q : ℕ) (w : World τ) : World τ :=
  { w with
    postCode := Function.update w.postCode q (~~~w.postCode q)
    pool := Function.update w.pool p { w.pool p with held := q :: (w.pool p).held } }

/-- The beginning of `Free`: the caller no longer has the block. -/
def takeBack (p q : ℕ) (w : World τ) : World τ :=
  { w with
    postCode := Function.update w.postCode q (~~~w.postCode q)
    pool := Function.update w.pool p { w.pool p with held := (w.pool p).held.erase q } }

/-- A chunk of `ChunkAlloc`, on which `Pop` is called next. -/
def chunkOf (n p : ℕ) (w : World τ) : Except Fault (ℕ × World τ) :=
  match chunkAlloc n p w with
  | (none, _) => .error .noChunk
  | (some c, w) => .ok (c, w)

/-- The chunk of the thread, or one that becomes so. -/
def tlsChunk (n p : ℕ) (t : τ) (w : World τ) : Except Fault (ℕ × World τ) :=
  match (w.pool p).tls t with
  | some c => .ok (c, w)
  | none => (chunkOf n p w).map fun r => (r.1, tlsSet p t r.1 r.2)

/-- `Alloc`. -/
def alloc (n p : ℕ) (t : τ) (w : World τ) : Except Fault (ℕ × World τ) := do
  let (pTlsChunk, w) ← tlsChunk n p t w
  match ← popBlock pTlsChunk w with
  | (some pPopedBlock, w) => return (pPopedBlock, handOut p pPopedBlock w)
  | (none, w) =>
    let (pTlsChunk, w) ← chunkOf n p (managerFree p pTlsChunk w)
    match ← popBlock pTlsChunk w with
    | (none, _) => .error .nullBlock
    | (some pPopedBlock, w) => return (pPopedBlock, handOut p pPopedBlock (tlsSet p t pTlsChunk w))

/-- `Free`. -/
def free (n p : ℕ) (t : τ) (pushNode : ℕ) (w : World τ) : Bool × World τ :=
  if w.preCode pushNode ≠ w.postCode pushNode then (false, w)
  else if w.preCode pushNode ≠ (w.pool p).myCode then (false, w)
  else
    let w := takeBack p pushNode w
    let (pTlsChunk, w) := match (w.pool p).tls t with
      | some c => (c, w)
      | none => ((managerAlloc p w).1, tlsSet p t (managerAlloc p w).1 (managerAlloc p w).2)
    match pushBlock n pTlsChunk pushNode w with
    | (true, w) => (true, w)
    | (false, w) =>
      let (c, w) := managerAlloc p (chunkFree p pTlsChunk w)
      (true, tlsSet p t c (pushBlock n c pushNode w).2)

/-! ### The constructor -/

/-- What the constructor throws. -/
inductive Thrown
  | limit
  | parameter
  | memory
  deriving DecidableEq

/-- `(num + (ChunkSize - 1)) / ChunkSize`. -/
def chunkCount (n : ℕ) (num : UInt64) : UInt64 := (num + (UInt64.ofNat n - 1)) / UInt64.ofNat n

/-- The chunks that the `MemoryPool<Chunk>` is made with: the last is on top. -/
def bootChunks (p k : ℕ) (w : World τ) : World τ :=
  (List.range k).foldl (fun w _ => managerFree p w.chunkCnt (newChunk w)) w

/-- The loop over the chunks of `_blockPool`. -/
def initChunks (n p k : ℕ) (w : World τ) : World τ :=
  (List.range k).foldl (fun w _ =>
    let (pChunk, w) := arrayChunk n p w
    pushChunk p pChunk w) w

/-- A pool is added, under the next code and before it has a chunk. -/
def addPool (initChunkCnt maxChunkCnt : UInt64) (w : World τ) : World τ :=
  { w with
    secureCode := w.secureCode + 1
    poolCnt := w.poolCnt + 1
    pool := Function.update w.pool w.poolCnt {
      myCode := w.secureCode + 1
      freeStackTop := none
      emptyChunkManager := []
      addAllocCnt := -1
      addAllocMax := maxChunkCnt - initChunkCnt
      totalChunk := initChunkCnt
      useChunk := 0
      tls := fun _ => none
      held := [] } }

/-- `MemoryPoolTLS::MemoryPoolTLS`, on a machine with some number of processors. -/
def construct (n : ℕ) (initBlockNum maxBlockLimit : UInt64) (processors : ℕ) (w : World τ) :
    Except Thrown (World τ) :=
  if maxBlockLimit < initBlockNum then .error .limit
  else if initBlockNum = 0 ∧ maxBlockLimit = 0 then .error .parameter
  else
    let initChunkCnt := chunkCount n initBlockNum
    if space < w.blockCnt + initChunkCnt.toNat * n ∨ space ≤ w.poolCnt then .error .memory
    else
      let w' := addPool initChunkCnt (chunkCount n maxBlockLimit) w
      .ok (initChunks n w.poolCnt initChunkCnt.toNat (bootChunks w.poolCnt (initChunkCnt.toNat + processors) w'))

/-! ### Runs -/

inductive Call (τ : Type*)
  | construct (initBlockNum maxBlockLimit : UInt64) (processors : ℕ)
  | alloc (p : ℕ) (t : τ)
  | free (p : ℕ) (t : τ) (q : ℕ)

/-- A call on a pool that there is, and with a block of some pool. An `Alloc` whose `ChunkAlloc` fails
does not return. -/
def next (n : ℕ) (w : World τ) : Call τ → Option (World τ)
  | .construct i m k => (construct n i m k w).toOption
  | .alloc p t => if p < w.poolCnt then (alloc n p t w).toOption.map Prod.snd else none
  | .free p t q => if p < w.poolCnt ∧ q < w.blockCnt then some (free n p t q w).2 else none

/-- Before the first pool is made. -/
def start : World τ where
  preCode _ := 0
  postCode _ := 0
  next _ := none
  chunkNext _ := none
  chunkTop _ := none
  size _ := 0
  pool _ := ⟨0, none, [], 0, 0, 0, 0, fun _ => none, []⟩
  secureCode := 0
  blockCnt := 0
  chunkCnt := 0
  poolCnt := 0

end LoginServerChat.MemoryPoolTLS
