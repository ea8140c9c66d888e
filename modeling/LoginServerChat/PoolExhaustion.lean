import LoginServerChat.ChunkRun

/-!
`MemoryPoolTLS` when the memory may fail at any call, and what `Alloc` does when `ChunkAlloc` returns
null.

The calls are those of `MemoryPoolTLS`, with the memory that the system has for each of them, and with
the state in which a call stops that does not return.
-/

namespace LoginServerChat.PoolExhaustion

open ChunkCalls ChunkInv ChunkRun MemoryPoolTLS Runs

variable {τ : Type} {α β : Type}

/-- Whether the system has the memory for an array of blocks, and for a chunk. -/
structure Memory where
  array : Bool
  chunk : Bool

/-- Where a call stops that does not return: at the null of `ChunkAlloc`, at the null of
`_emptyChunkManager->Alloc`, or at a chunk of some size that has no block. -/
inductive Crash
  | nullChunk
  | nullEmpty
  | nullBlock
  deriving DecidableEq

abbrev Code (τ : Type) := EStateM Crash (World τ)

lemma bind_ok {x : Code τ α} {a : α} {f : α → Code τ β} {w w' : World τ} (h : x w = .ok a w') :
    (x >>= f) w = f a w' := by
  change EStateM.bind x f w = f a w'
  rw [EStateM.bind, h]

lemma bind_error {x : Code τ α} {e : Crash} {f : α → Code τ β} {w w' : World τ} (h : x w = .error e w') :
    (x >>= f) w = .error e w' := by
  change EStateM.bind x f w = .error e w'
  rw [EStateM.bind, h]

/-! ### The calls -/

/-- A chunk is used. -/
def deref : Option ℕ → Code τ ℕ
  | none => throw .nullChunk
  | some c => pure c

/-- `Chunk::Pop`. -/
def pop (c : ℕ) : Code τ (Option ℕ) := fun w =>
  match popBlock c w with
  | .error _ => .error .nullBlock w
  | .ok (q, w') => .ok q w'

/-- `_emptyChunkManager->Alloc`, with the chunk used next. -/
def emptyChunk (m : Memory) (p : ℕ) : Code τ ℕ := fun w =>
  if m.chunk = false ∧ (w.pool p).emptyChunkManager = [] then .error .nullEmpty w
  else .ok (managerAlloc p w).1 (managerAlloc p w).2

/-- `InterlockedIncrement64(&_addAllocCnt)`. -/
def incAdd (p : ℕ) (w : World τ) : World τ :=
  w.setPool p { w.pool p with addAllocCnt := (w.pool p).addAllocCnt + 1 }

/-- `ChunkAlloc`. -/
def chunkAllocOr (m : Memory) (n p : ℕ) : Code τ (Option ℕ) := fun w =>
  match popChunk p w with
  | some (popChunk, w) => .ok (some popChunk) (incUse p w)
  | none =>
    let myNum := (w.pool p).addAllocCnt + 1
    if myNum = (w.pool p).addAllocMax then .ok none (incAdd p w)
    else if (w.pool p).addAllocMax < myNum then .ok none w
    else if m.array = false ∨ space < w.blockCnt + n then .ok none (incAdd p w)
    else
      match emptyChunk m p { incAdd p w with blockCnt := w.blockCnt + n } with
      | .error f w' => .error f w'
      | .ok popChunk w' => .ok (some popChunk) (incUse p (incTotal p (fill n p popChunk (fresh n w) w')))

variable [DecidableEq τ]

/-- The chunk of the thread, or what `ChunkAlloc` returns in its place. -/
def tlsChunkOr (m : Memory) (n p : ℕ) (t : τ) : Code τ (Option ℕ) := fun w =>
  match (w.pool p).tls t with
  | some c => .ok (some c) w
  | none =>
    match chunkAllocOr m n p w with
    | .error f w => .error f w
    | .ok (some c) w => .ok (some c) (tlsSet p t c w)
    -- the null is stored where a null is
    | .ok none w => .ok none w

/-- `Alloc`. -/
def allocOr (m : Memory) (n p : ℕ) (t : τ) : Code τ (Option ℕ) := do
  let pTlsChunk ← deref (← tlsChunkOr m n p t)
  match ← pop pTlsChunk with
  | some pPopedBlock =>
    modify (handOut p pPopedBlock)
    pure (some pPopedBlock)
  | none =>
    modify (managerFree p pTlsChunk)
    let pTlsChunk ← deref (← chunkAllocOr m n p)
    match ← pop pTlsChunk with
    | none => throw .nullBlock
    | some pPopedBlock =>
      modify fun w => handOut p pPopedBlock (tlsSet p t pTlsChunk w)
      pure (some pPopedBlock)

/-- The chunk of the thread, or an empty one that becomes so. -/
def ownChunk (m : Memory) (p : ℕ) (t : τ) : Code τ ℕ := fun w =>
  match (w.pool p).tls t with
  | some c => .ok c w
  | none =>
    match emptyChunk m p w with
    | .error f w => .error f w
    | .ok c w => .ok c (tlsSet p t c w)

/-- The block goes to the chunk of the thread, or to an empty one when that is full. -/
def giveBlock (m : Memory) (n p : ℕ) (t : τ) (pushNode pTlsChunk : ℕ) : Code τ Bool := fun w =>
  match pushBlock n pTlsChunk pushNode w with
  | (true, w) => .ok true w
  | (false, w) =>
    match emptyChunk m p (chunkFree p pTlsChunk w) with
    | .error f w => .error f w
    | .ok c w => .ok true (tlsSet p t c (pushBlock n c pushNode w).2)

/-- `Free`. -/
def freeOr (m : Memory) (n p : ℕ) (t : τ) (pushNode : ℕ) : Code τ Bool := fun w =>
  if w.preCode pushNode ≠ w.postCode pushNode then .ok false w
  else if w.preCode pushNode ≠ (w.pool p).myCode then .ok false w
  else (ownChunk m p t >>= giveBlock m n p t pushNode) (takeBack p pushNode w)

/-- A call, and the memory that there is for it. -/
inductive Attempt (τ : Type)
  | construct (initBlockNum maxBlockLimit : UInt64) (processors : ℕ)
  | alloc (p : ℕ) (t : τ) (m : Memory)
  | free (p : ℕ) (t : τ) (q : ℕ) (m : Memory)

/-- The state after a call that returns. -/
def returned : EStateM.Result Crash (World τ) α → Option (World τ)
  | .ok _ w => some w
  | .error _ _ => none

/-- A call that does not return ends the run. -/
def attempt (n : ℕ) (w : World τ) : Attempt τ → Option (World τ)
  | .construct i m k => (construct n i m k w).toOption
  | .alloc p t m => if p < w.poolCnt then returned (allocOr m n p t w) else none
  | .free p t q m => if p < w.poolCnt ∧ q < w.blockCnt then returned (freeOr m n p t q w) else none

/-! ### A call that returns -/

section Returns

variable {m : Memory} {n p c q : ℕ} {t : τ} {w w' v : World τ} {g : Layout τ}

omit [DecidableEq τ] in
lemma emptyChunk_ok (h : emptyChunk m p w = .ok c w') : managerAlloc p w = (c, w') := by
  unfold emptyChunk at h
  split_ifs at h
  injection h with h1 h2
  rw [← h1, ← h2]

/-- What `ChunkAlloc` needs: a shared chunk, or a number below the limit and the memory for an array. -/
def Ample (m : Memory) (n p : ℕ) (w : World τ) : Prop :=
  (w.pool p).freeStackTop ≠ none ∨
    ((w.pool p).addAllocCnt + 1 < (w.pool p).addAllocMax ∧ m.array = true ∧ w.blockCnt + n ≤ space)

/-- `ChunkAlloc` has returned null, and has changed nothing but its counter. -/
structure Refused (m : Memory) (n p : ℕ) (w v : World τ) : Prop where
  short : ¬Ample m n p w
  run : chunkAllocOr m n p w = .ok none v
  slots : slots v = slots w
  empties : (v.pool p).emptyChunkManager = (w.pool p).emptyChunkManager

omit [DecidableEq τ] in
lemma refused_same (h : ¬Ample m n p w) (hrun : chunkAllocOr m n p w = .ok none w) : Refused m n p w w :=
  ⟨h, hrun, rfl, rfl⟩

omit [DecidableEq τ] in
lemma refused_incAdd (h : ¬Ample m n p w) (hrun : chunkAllocOr m n p w = .ok none (incAdd p w)) :
    Refused m n p w (incAdd p w) :=
  ⟨h, hrun, slots_setPool rfl, by rw [incAdd, setPool_self]⟩

/-- With the memory that there is, `ChunkAlloc` ends as it does when there is all that it asks for, or it
stops at the null of the empty chunks. -/
structure Granted (m : Memory) (n p : ℕ) (w : World τ) : Prop where
  ample : Ample m n p w
  run : (∃ c v, chunkAllocOr m n p w = .ok (some c) v ∧ chunkAlloc n p w = (some c, v)) ∨
    m.chunk = false ∧ ∃ v, chunkAllocOr m n p w = .error .nullEmpty v

omit [DecidableEq τ] in
/-- The shared stack is empty: `ChunkAlloc` takes a number. -/
lemma chunkAllocOr_number (htop : (w.pool p).freeStackTop = none) (m : Memory) (n : ℕ) :
    (∃ v, Refused m n p w v) ∨ Granted m n p w := by
  have hpop : popChunk p w = none := by
    rw [popChunk, htop]
  have hshort : ¬((w.pool p).addAllocCnt + 1 < (w.pool p).addAllocMax ∧ m.array = true ∧
      w.blockCnt + n ≤ space) → ¬Ample m n p w := fun hn h => h.elim (absurd htop) hn
  by_cases h1 : (w.pool p).addAllocCnt + 1 = (w.pool p).addAllocMax
  · refine .inl ⟨_, refused_incAdd (hshort fun h => ?_) ?_⟩
    · exact absurd h.1 (h1 ▸ UInt64.lt_irrefl _)
    · simp only [chunkAllocOr, hpop, if_pos h1]
  by_cases h2 : (w.pool p).addAllocMax < (w.pool p).addAllocCnt + 1
  · refine .inl ⟨_, refused_same (hshort fun h => ?_) ?_⟩
    · exact absurd h.1 (UInt64.lt_asymm h2)
    · simp only [chunkAllocOr, hpop, if_neg h1, if_pos h2]
  by_cases h3 : m.array = false ∨ space < w.blockCnt + n
  · refine .inl ⟨_, refused_incAdd (hshort fun h => ?_) ?_⟩
    · rcases h3 with h3 | h3
      · exact absurd h.2.1 (h3 ▸ Bool.false_ne_true)
      · exact absurd h.2.2 (Nat.not_le_of_lt h3)
    · simp only [chunkAllocOr, hpop, if_neg h1, if_neg h2, if_pos h3]
  right
  have h4 := not_or.mp h3
  rw [Bool.not_eq_false, not_lt] at h4
  have hlt : (w.pool p).addAllocCnt + 1 < (w.pool p).addAllocMax :=
    UInt64.lt_of_le_of_ne (UInt64.not_lt.mp h2) h1
  refine ⟨.inr ⟨hlt, h4⟩, ?_⟩
  simp only [chunkAllocOr, hpop, if_neg h1, if_neg h2, if_neg h3]
  rcases he : emptyChunk m p { incAdd p w with blockCnt := w.blockCnt + n } with ⟨c, v⟩ | ⟨e, v⟩
  · left
    refine ⟨c, _, rfl, ?_⟩
    have hroom : ¬space < (incAdd p w).blockCnt + n := Nat.not_lt.mpr h4.2
    have hget : managerAlloc p { incAdd p w with blockCnt := (incAdd p w).blockCnt + n } = (c, v) := emptyChunk_ok he
    simp only [chunkAlloc, hpop, if_neg h1, if_neg h2]
    change (if space < (incAdd p w).blockCnt + n then _ else _) = _
    rw [if_neg hroom]
    have harr : arrayChunk n p (incAdd p w) = (c, fill n p c (fresh n w) v) := by
      rw [arrayChunk, hget]
      rfl
    change (some (arrayChunk n p (incAdd p w)).1, incUse p (incTotal p (arrayChunk n p (incAdd p w)).2)) = _
    rw [harr]
  · right
    unfold emptyChunk at he
    split_ifs at he with h5
    injection he with h6 h7
    exact ⟨h5.1, v, by rw [h6]⟩

omit [DecidableEq τ] in
lemma chunkAllocOr_cases (m : Memory) (n p : ℕ) (w : World τ) :
    (∃ v, Refused m n p w v) ∨ Granted m n p w := by
  rcases htop : (w.pool p).freeStackTop with _ | c
  · exact chunkAllocOr_number htop m n
  · right
    refine ⟨.inl (by rw [htop]; exact nofun), .inl ?_⟩
    have hpop : popChunk p w = some (c, w.setPool p { w.pool p with freeStackTop := w.chunkNext c }) := by
      rw [popChunk, htop]
    exact ⟨c, _, by rw [chunkAllocOr, hpop], by rw [chunkAlloc, hpop]⟩

omit [DecidableEq τ] in
/-- The chunk that `ChunkAlloc` returns is the one that it returns when there is all the memory. -/
lemma chunkAllocOr_some (h : chunkAllocOr m n p w = .ok (some c) v) : chunkAlloc n p w = (some c, v) := by
  rcases chunkAllocOr_cases m n p w with ⟨v', hr⟩ | ⟨-, ⟨c', v', h1, h2⟩ | ⟨-, v', h1⟩⟩
  · exact nomatch hr.run.symm.trans h
  · injection h1.symm.trans h with h3 h4
    rw [h2, h3, h4]
  · exact nomatch h1.symm.trans h

/-- What `Alloc` needs: a block in the chunk of the thread, or what `ChunkAlloc` needs. -/
def Supplied (m : Memory) (n p : ℕ) (t : τ) (w : World τ) : Prop :=
  (∃ c, (w.pool p).tls t = some c ∧ w.size c ≠ 0) ∨ Ample m n p w

/-- `Alloc` has stopped at the null of `ChunkAlloc`. The thread has the chunk that it had, and that chunk
is among the empty ones. -/
structure Stopped (m : Memory) (n p : ℕ) (t : τ) (w v : World τ) : Prop where
  run : allocOr m n p t w = .error .nullChunk v
  slots : slots v = slots w
  empties : ∀ c, (w.pool p).tls t = some c → c ∈ (v.pool p).emptyChunkManager

/-- `Alloc` has returned the block that it returns when there is all the memory, or stopped at the null of
the empty chunks. -/
def Served (m : Memory) (n p : ℕ) (t : τ) (w : World τ) : Prop :=
  (∃ q w', allocOr m n p t w = .ok (some q) w' ∧ alloc n p t w = .ok (q, w')) ∨
    m.chunk = false ∧ ∃ v, allocOr m n p t w = .error .nullEmpty v

/-- The first `Alloc` of a thread. -/
lemma alloc_first (h : Rest n w g) (hn : 0 < n) (hp : p < w.poolCnt) (htls : (w.pool p).tls t = none)
    (m : Memory) : (Ample m n p w ∧ Served m n p t w) ∨ (¬Ample m n p w ∧ ∃ v, Stopped m n p t w v) := by
  rcases chunkAllocOr_cases m n p w with ⟨v, hr⟩ | ⟨hample, ⟨c, v, hrun, hca⟩ | ⟨hm, v, hrun⟩⟩
  · right
    have htc : tlsChunkOr m n p t w = .ok none v := by
      rw [tlsChunkOr, htls, hr.run]
    refine ⟨hr.short, v, ?_, hr.slots, fun c hc => nomatch htls.symm.trans hc⟩
    exact (bind_ok htc).trans (bind_error rfl)
  · refine .inl ⟨hample, .inl ?_⟩
    have htc : tlsChunkOr m n p t w = .ok (some c) (tlsSet p t c v) := by
      rw [tlsChunkOr, htls, hrun]
    obtain ⟨g₁, hg⟩ := chunkAlloc_spec h.calm hp hca
    have hcat : g₁.cat c = .hand p := by
      rw [hg.cat, Function.update_self]
    have hfree : ∀ z i, z ≠ c → g₁.cat z ≠ .hand i := by
      intro z i hz
      rw [hg.cat, Function.update_of_ne hz]
      exact h.free z i
    obtain ⟨q, g', -, hpop, -⟩ := full_rest (t := t) hg.calm hn hcat hg.full hfree htls (by rw [hg.slots])
    refine ⟨q, handOut p q (unlink c q (tlsSet p t c v)), ?_, ?_⟩
    · have hpop' : pop c (tlsSet p t c v) = .ok (some q) (unlink c q (tlsSet p t c v)) := by
        rw [pop, hpop]
      calc allocOr m n p t w = _ := bind_ok htc
        _ = _ := bind_ok rfl
        _ = _ := bind_ok hpop'
        _ = .ok (some q) (handOut p q (unlink c q (tlsSet p t c v))) := rfl
    · simp only [alloc, tlsChunk, htls, chunkOf, hca, hpop, bind, Except.bind, Except.map, pure, Except.pure]
  · refine .inl ⟨hample, .inr ⟨hm, v, ?_⟩⟩
    have htc : tlsChunkOr m n p t w = .error .nullEmpty v := by
      rw [tlsChunkOr, htls, hrun]
    exact bind_error htc

lemma tlsChunkOr_some (htls : (w.pool p).tls t = some c) (m : Memory) (n : ℕ) :
    tlsChunkOr m n p t w = .ok (some c) w := by
  rw [tlsChunkOr, htls]

omit [DecidableEq τ] in
lemma ample_managerFree : Ample m n p (managerFree p c w) ↔ Ample m n p w := by
  rw [Ample, managerFree, setPool_self]
  exact Iff.rfl

/-- An `Alloc` that finds the chunk of the thread without a block. -/
lemma alloc_dry (h : Rest n w g) (hn : 0 < n) (hp : p < w.poolCnt) (htls : (w.pool p).tls t = some c)
    (hl : g.blocks c = []) (m : Memory) :
    (Ample m n p w ∧ Served m n p t w) ∨ (¬Ample m n p w ∧ ∃ v, Stopped m n p t w v) := by
  have hcat : g.cat c = .tls p t := (h.calm.inv.chunks.slot p t c).mp htls
  have hpop := popBlock_nil h.calm hl
  have hpop' : pop c w = .ok none w := by
    rw [pop, hpop]
  have hslots : slots (managerFree p c w) = slots w := slots_setPool rfl
  have hrun : allocOr m n p t w = _ := (bind_ok (tlsChunkOr_some htls m n)).trans
    ((bind_ok rfl).trans ((bind_ok hpop').trans (bind_ok rfl)))
  rcases chunkAllocOr_cases m n p (managerFree p c w) with
    ⟨v, hr⟩ | ⟨hample, ⟨c', v, hca', hca⟩ | ⟨hm, v, hca'⟩⟩
  · right
    refine ⟨fun ha => hr.short (ample_managerFree.mpr ha), v, ?_, hr.slots.trans hslots, fun c' hc' => ?_⟩
    · exact hrun.trans ((bind_ok hr.run).trans (bind_error rfl))
    · rw [← Option.some.inj (htls.symm.trans hc'), hr.empties, managerFree, setPool_self]
      exact List.mem_cons_self
  · refine .inl ⟨ample_managerFree.mp hample, .inl ?_⟩
    have hdis := (h.calm.disown hcat).managerFree (Function.update_self _ _ _) hl
    dsimp only at hdis
    rw [Function.update_idem] at hdis
    have hfree₀ := cat_free (c := c) (P := .empty p) (fun z i _ => h.free z i) nofun
    obtain ⟨g₁, hg⟩ := chunkAlloc_spec hdis hp hca
    have hcat' : g₁.cat c' = .hand p := by
      rw [hg.cat, Function.update_self]
    have hfree : ∀ z i, z ≠ c' → g₁.cat z ≠ .hand i := by
      intro z i hz
      rw [hg.cat, Function.update_of_ne hz]
      exact hfree₀ z i
    obtain ⟨q, g', hget, -, -⟩ := full_rest (t := t) hg.calm hn hcat' hg.full hfree (Function.update_self _ _ _)
      (by rw [Function.update_idem, hg.slots.trans hslots])
    have hget' : pop c' v = .ok (some q) (unlink c' q v) := by
      rw [pop, hget]
    refine ⟨q, handOut p q (tlsSet p t c' (unlink c' q v)), ?_, ?_⟩
    · calc allocOr m n p t w = _ := hrun
        _ = _ := bind_ok hca'
        _ = _ := bind_ok rfl
        _ = _ := bind_ok hget'
        _ = .ok (some q) (handOut p q (tlsSet p t c' (unlink c' q v))) := rfl
    · simp only [alloc, tlsChunk, htls, hpop, hget, chunkOf, hca, bind, Except.bind, pure, Except.pure]
  · exact .inl ⟨ample_managerFree.mp hample, .inr ⟨hm, v, hrun.trans (bind_error hca')⟩⟩

/-- An `Alloc` that finds a block in the chunk of the thread. -/
lemma alloc_own (h : Rest n w g) {l : List ℕ} (htls : (w.pool p).tls t = some c) (hl : g.blocks c = q :: l)
    (m : Memory) : Served m n p t w := by
  have hpop := popBlock_cons h.calm hl
  have hpop' : pop c w = .ok (some q) (unlink c q w) := by
    rw [pop, hpop]
  refine .inl ⟨q, handOut p q (unlink c q w), ?_, ?_⟩
  · calc allocOr m n p t w = _ := bind_ok (tlsChunkOr_some htls m n)
      _ = _ := bind_ok rfl
      _ = _ := bind_ok hpop'
      _ = .ok (some q) (handOut p q (unlink c q w)) := rfl
  · simp only [alloc, tlsChunk, htls, hpop, bind, Except.bind, pure, Except.pure]

/-- `Alloc` returns a block, or stops at a null. -/
lemma alloc_cases (h : Rest n w g) (hn : 0 < n) (hp : p < w.poolCnt) (t : τ) (m : Memory) :
    (Supplied m n p t w ∧ Served m n p t w) ∨ (¬Supplied m n p t w ∧ ∃ v, Stopped m n p t w v) := by
  rcases htls : (w.pool p).tls t with _ | c
  · have hiff : Supplied m n p t w ↔ Ample m n p w :=
      ⟨fun hs => hs.resolve_left fun ⟨c, hc, _⟩ => (nomatch htls.symm.trans hc), .inr⟩
    rw [hiff]
    exact alloc_first h hn hp htls m
  · have hsize := h.calm.inv.blocks.size c
    rcases hl : g.blocks c with _ | ⟨q, l⟩
    · rw [hl, List.length_nil] at hsize
      have hiff : Supplied m n p t w ↔ Ample m n p w := by
        refine ⟨fun hs => hs.resolve_left fun ⟨c', hc', hne⟩ => hne ?_, .inr⟩
        rw [← Option.some.inj (htls.symm.trans hc'), hsize]
      rw [hiff]
      exact alloc_dry h hn hp htls hl m
    · rw [hl, List.length_cons] at hsize
      exact .inl ⟨.inl ⟨c, htls, by rw [hsize]; exact Nat.succ_ne_zero _⟩, alloc_own h htls hl m⟩

/-- An `Alloc` that returns is one that has all the memory. -/
lemma allocOr_ok (h : Rest n w g) (hn : 0 < n) (hp : p < w.poolCnt) {r : Option ℕ}
    (hr : allocOr m n p t w = .ok r w') : ∃ q, r = some q ∧ alloc n p t w = .ok (q, w') := by
  rcases alloc_cases h hn hp t m with ⟨-, ⟨q, v, h1, h2⟩ | ⟨-, v, h1⟩⟩ | ⟨-, v, h1⟩
  · injection h1.symm.trans hr with h3 h4
    exact ⟨q, h3.symm, h4 ▸ h2⟩
  · exact nomatch h1.symm.trans hr
  · exact nomatch h1.run.symm.trans hr

lemma giveBlock_ok {r : Bool} (hr : giveBlock m n p t q c w = .ok r w') :
    (match pushBlock n c q w with
    | (true, w) => (true, w)
    | (false, w) =>
      let (c, w) := managerAlloc p (chunkFree p c w)
      (true, tlsSet p t c (pushBlock n c q w).2)) = (r, w') := by
  unfold giveBlock at hr
  rcases hpush : pushBlock n c q w with ⟨_ | _, v⟩
  · rw [hpush] at hr
    rcases he : emptyChunk m p (chunkFree p c v) with ⟨c', v'⟩ | ⟨e, v'⟩
    · simp only [he] at hr
      injection hr with h1 h2
      simp only [emptyChunk_ok he, ← h1, ← h2]
    · simp only [he] at hr
      exact nomatch hr
  · rw [hpush] at hr
    injection hr with h1 h2
    rw [← h1, ← h2]

/-- A `Free` that returns is one that has all the memory. -/
lemma freeOr_ok {r : Bool} (hr : freeOr m n p t q w = .ok r w') : free n p t q w = (r, w') := by
  unfold freeOr at hr
  unfold free
  split_ifs at hr ⊢ with h1 h2
  · injection hr with h3 h4
    rw [← h3, ← h4]
  · injection hr with h3 h4
    rw [← h3, ← h4]
  dsimp only
  generalize takeBack p q w = v at *
  rcases htls : (v.pool p).tls t with _ | c
  · rcases he : emptyChunk m p v with ⟨c, v'⟩ | ⟨e, v'⟩
    · have hown : ownChunk m p t v = .ok c (tlsSet p t c v') := by
        rw [ownChunk, htls, he]
      rw [bind_ok hown] at hr
      simp only [emptyChunk_ok he]
      exact giveBlock_ok hr
    · have hown : ownChunk m p t v = .error e v' := by
        rw [ownChunk, htls, he]
      exact nomatch (bind_error hown).symm.trans hr
  · have hown : ownChunk m p t v = .ok c v := by
      rw [ownChunk, htls]
    rw [bind_ok hown] at hr
    exact giveBlock_ok hr

end Returns

/-! ### Every run -/

section Runs

variable {m : Memory} {n p c q : ℕ} {t : τ} {w w' v : World τ} {g : Layout τ}

/-- A call that returns is a call of `MemoryPoolTLS` with all the memory. -/
lemma attempt_next (h : Rest n w g) (hn : 0 < n) {a : Attempt τ} (hs : attempt n w a = some w') :
    ∃ b, next n w b = some w' := by
  cases a with
  | construct i m k => exact ⟨.construct i m k, hs⟩
  | alloc p t m =>
    rw [attempt, Option.ite_none_right_eq_some] at hs
    obtain ⟨hp, hs⟩ := hs
    rcases hr : allocOr m n p t w with ⟨r, v⟩ | ⟨e, v⟩
    · rw [hr] at hs
      obtain ⟨q, -, ha⟩ := allocOr_ok h hn hp hr
      refine ⟨.alloc p t, ?_⟩
      rw [next, if_pos hp, ha]
      exact hs
    · rw [hr] at hs
      cases hs
  | free p t q m =>
    rw [attempt, Option.ite_none_right_eq_some] at hs
    obtain ⟨hp, hs⟩ := hs
    rcases hr : freeOr m n p t q w with ⟨r, v⟩ | ⟨e, v⟩
    · rw [hr] at hs
      refine ⟨.free p t q, ?_⟩
      rw [next, if_pos hp, freeOr_ok hr]
      exact hs
    · rw [hr] at hs
      cases hs

lemma reach_rest (hn : 0 < n) (h : Reach (attempt n) (fun _ _ => True) (start : World τ) w) : ∃ g, Rest n w g :=
  Reach.inv (I := fun w => ∃ g, Rest n w g) ⟨nothing, start_rest⟩
    (fun _ _ _ _ hi _ hs => by
      obtain ⟨g, hg⟩ := hi
      obtain ⟨b, hb⟩ := attempt_next hg hn hs
      exact next_rest hg hn hb) h

/-- The states in which an `Alloc` calls `ChunkAlloc`: the thread has no chunk, or no block in it. -/
inductive Asks (m : Memory) (n p : ℕ) (t : τ) (w : World τ) : World τ → Prop
  | first : (w.pool p).tls t = none → Asks m n p t w w
  | again {c : ℕ} {v : World τ} :
      tlsChunkOr m n p t w = .ok (some c) v → v.size c = 0 → Asks m n p t w (managerFree p c v)

/-- The pool after an `Alloc` that has returned null: the thread does not have a chunk that is among the
empty ones, and once a block is freed it can allocate again. -/
structure Consistent (n p : ℕ) (t : τ) (w : World τ) : Prop where
  slot : ∀ c, (w.pool p).tls t = some c → c ∉ (w.pool p).emptyChunkManager
  later : ∀ q ∈ (w.pool p).held, ∀ m v, freeOr m n p t q w = .ok true v →
    ∀ m', ∃ q' v', allocOr m' n p t v = .ok (some q') v'

/-- An `Alloc` for which `ChunkAlloc` returns null returns null itself, and leaves the pool consistent. -/
def Tolerates (m : Memory) (n p : ℕ) (t : τ) (w : World τ) : Prop :=
  ∀ v v', Asks m n p t w v → chunkAllocOr m n p v = .ok none v' →
    ∃ w', allocOr m n p t w = .ok none w' ∧ Consistent n p t w'

omit [DecidableEq τ] in
lemma short_of_none (h : chunkAllocOr m n p w = .ok none v) : ¬Ample m n p w := by
  rcases chunkAllocOr_cases m n p w with ⟨v', hr⟩ | ⟨-, ⟨c, v', h1, -⟩ | ⟨-, v', h1⟩⟩
  · exact hr.short
  · exact nomatch h1.symm.trans h
  · exact nomatch h1.symm.trans h

/-- `ChunkAlloc` is called only where the chunk of the thread gives no block, and by then nothing that
`ChunkAlloc` needs has changed. -/
lemma ample_of_asks (h : Rest n w g) (hn : 0 < n) (hp : p < w.poolCnt) (ha : Asks m n p t w v)
    (hs : Supplied m n p t w) : Ample m n p v := by
  cases ha with
  | first htls => exact hs.resolve_left fun ⟨c, hc, _⟩ => (nomatch htls.symm.trans hc)
  | @again c v hc hsize =>
    rw [ample_managerFree]
    rcases htls : (w.pool p).tls t with _ | c'
    · -- the chunk of `ChunkAlloc` is full
      exfalso
      rw [tlsChunkOr, htls] at hc
      rcases hca : chunkAllocOr m n p w with ⟨_ | c', v'⟩ | ⟨e, v'⟩
      · simp only [hca] at hc
        exact nomatch hc
      · simp only [hca] at hc
        injection hc with h1 h2
        obtain ⟨g', hg⟩ := chunkAlloc_spec h.calm hp (chunkAllocOr_some hca)
        have hfull := hg.calm.inv.blocks.size c'
        rw [hg.full] at hfull
        rw [← h2, ← Option.some.inj h1] at hsize
        exact hn.ne' (hfull.symm.trans hsize)
      · simp only [hca] at hc
        exact nomatch hc
    · rw [tlsChunkOr_some htls] at hc
      injection hc with h1 h2
      rw [← h2, ← Option.some.inj h1] at hsize
      rw [← h2]
      refine hs.resolve_left fun ⟨c'', hc'', hne⟩ => hne ?_
      rw [← Option.some.inj (htls.symm.trans hc''), hsize]

/-- Where the memory or the limit does not suffice, `ChunkAlloc` is called and returns null. -/
lemma null_of_not_supplied (h : ¬Supplied m n p t w) :
    ∃ v v', Asks m n p t w v ∧ chunkAllocOr m n p v = .ok none v' := by
  obtain ⟨hown, hshort⟩ := not_or.mp h
  rcases htls : (w.pool p).tls t with _ | c
  · obtain ⟨v', hr⟩ := (chunkAllocOr_cases m n p w).resolve_right fun hg => hshort hg.ample
    exact ⟨w, v', .first htls, hr.run⟩
  · have hsize : w.size c = 0 := by
      by_contra hne
      exact hown ⟨c, htls, hne⟩
    obtain ⟨v', hr⟩ := (chunkAllocOr_cases m n p (managerFree p c w)).resolve_right
      fun hg => hshort (ample_managerFree.mp hg.ample)
    exact ⟨_, v', .again (tlsChunkOr_some htls m n) hsize, hr.run⟩

lemma supplied_of_tolerates (h : Rest n w g) (hn : 0 < n) (hp : p < w.poolCnt) (htol : Tolerates m n p t w) :
    Supplied m n p t w := by
  rcases alloc_cases h hn hp t m with ⟨hs, -⟩ | ⟨hs, v, hstop⟩
  · exact hs
  · obtain ⟨v₁, v₂, ha, hnull⟩ := null_of_not_supplied hs
    obtain ⟨w', hret, -⟩ := htol v₁ v₂ ha hnull
    exact nomatch hstop.run.symm.trans hret

/-- **A null of `ChunkAlloc` is not tolerated.** In every run, an `Alloc` meets the promise exactly where its
thread has a block, a chunk is shared, or the limit and the memory admit another array; elsewhere it
uses the null, and the chunk that it has handed back is still that of its thread. -/
theorem alloc_tolerates_iff (hn : 0 < n) (h : Reach (attempt n) (fun _ _ => True) (start : World τ) w)
    (hp : p < w.poolCnt) (t : τ) (m : Memory) :
    (Tolerates m n p t w ↔ Supplied m n p t w) ∧
    (Supplied m n p t w → m.chunk = true → ∃ q w', allocOr m n p t w = .ok (some q) w') ∧
    (¬Supplied m n p t w → ∃ v, allocOr m n p t w = .error .nullChunk v ∧
      ∀ c, (w.pool p).tls t = some c → (v.pool p).tls t = some c ∧ c ∈ (v.pool p).emptyChunkManager) := by
  obtain ⟨g, hr⟩ := reach_rest hn h
  refine ⟨⟨supplied_of_tolerates hr hn hp, fun hs v v' ha hnull => ?_⟩, fun hs hm => ?_, fun hs => ?_⟩
  · exact absurd (ample_of_asks hr hn hp ha hs) (short_of_none hnull)
  · rcases alloc_cases hr hn hp t m with ⟨-, ⟨q, w', h1, -⟩ | ⟨hm', -⟩⟩ | ⟨hs', -⟩
    · exact ⟨q, w', h1⟩
    · exact absurd (hm'.symm.trans hm) Bool.false_ne_true
    · exact absurd hs hs'
  · rcases alloc_cases hr hn hp t m with ⟨hs', -⟩ | ⟨-, v, hstop⟩
    · exact absurd hs' hs
    · exact ⟨v, hstop.run, fun c hc => ⟨(congrFun hstop.slots (p, t)).trans hc, hstop.empties c hc⟩⟩

/-- A run that can be evaluated. -/
lemma reach_attempts (n : ℕ) (l : List (Attempt τ)) {p : World τ → Bool}
    (h : (run (attempt n) (fun _ _ => true) start l).map p = some true) :
    ∃ w, Reach (attempt n) (fun _ _ => True) start w ∧ p w = true :=
  reach_of_run (fun _ _ _ => trivial) l h

/-- All the memory that is asked for. -/
def plenty : Memory := ⟨true, true⟩

/-- A pool has been made, with two blocks in one chunk that no thread has. -/
theorem alloc_tolerates_made : ∃ w : World (Fin 2), Reach (attempt 2) (fun _ _ => True) start w ∧
    Tolerates plenty 2 0 1 w ∧ ∃ q w', allocOr plenty 2 0 1 w = .ok (some q) w' := by
  obtain ⟨w, hr, hw⟩ := reach_attempts 2 [.construct 2 2 1]
    (p := fun w : World (Fin 2) => decide (w.poolCnt = 1 ∧ (w.pool 0).freeStackTop = some 1)) (by decide +kernel)
  obtain ⟨hp, htop⟩ := of_decide_eq_true hw
  have hs : Supplied plenty 2 0 1 w := .inr (.inl (by rw [htop]; exact nofun))
  obtain ⟨hiff, hblock, -⟩ := alloc_tolerates_iff (by decide) hr (by rw [hp]; exact Nat.one_pos) 1 plenty
  exact ⟨w, hr, hiff.mpr hs, hblock hs rfl⟩

/-- A pool of two blocks in one chunk, which is all that it may have. The thread takes both. -/
def used : List (Attempt (Fin 2)) := [.construct 2 2 1, .alloc 0 0 plenty, .alloc 0 0 plenty]

/-- After it the other thread has no chunk, there is none for it, and the limit admits no other. The chunk
of the first has no block. -/
def usedUp (w : World (Fin 2)) : Prop :=
  w.poolCnt = 1 ∧ (w.pool 0).tls 0 = some 1 ∧ (w.pool 0).tls 1 = none ∧ w.size 1 = 0 ∧
    (w.pool 0).freeStackTop = none ∧ ¬(w.pool 0).addAllocCnt + 1 < (w.pool 0).addAllocMax

instance : DecidablePred usedUp := fun w => by
  unfold usedUp
  infer_instance

lemma reach_usedUp : ∃ w, Reach (attempt 2) (fun _ _ => True) start w ∧ usedUp w := by
  obtain ⟨w, hr, hw⟩ := reach_attempts 2 used (p := fun w => decide (usedUp w)) (by decide +kernel)
  exact ⟨w, hr, of_decide_eq_true hw⟩

lemma not_supplied_usedUp {w : World (Fin 2)} (h : usedUp w) (t : Fin 2) : ¬Supplied plenty 2 0 t w := by
  obtain ⟨-, h0, h1, hsize, htop, hcnt⟩ := h
  rintro (⟨c, hc, hne⟩ | hs | hs)
  · fin_cases t
    · exact hne (Option.some.inj (h0.symm.trans hc) ▸ hsize)
    · exact nomatch h1.symm.trans hc
  · exact hs htop
  · exact hcnt hs.1

theorem alloc_exhausted : ∃ w : World (Fin 2), Reach (attempt 2) (fun _ _ => True) start w ∧ 0 < w.poolCnt ∧
    (¬Tolerates plenty 2 0 0 w ∧ ∃ v, allocOr plenty 2 0 0 w = .error .nullChunk v ∧
      (v.pool 0).tls 0 = some 1 ∧ 1 ∈ (v.pool 0).emptyChunkManager) ∧
    (¬Tolerates plenty 2 0 1 w ∧ ∃ v, allocOr plenty 2 0 1 w = .error .nullChunk v) := by
  obtain ⟨w, hr, hw⟩ := reach_usedUp
  obtain ⟨g, hg⟩ := reach_rest (by decide) hr
  have hp : 0 < w.poolCnt := by
    rw [hw.1]
    exact Nat.one_pos
  have hnot := not_supplied_usedUp hw
  obtain ⟨-, v, hv⟩ := (alloc_cases hg (by decide) hp 0 plenty).resolve_left fun h => hnot 0 h.1
  obtain ⟨-, v', hv'⟩ := (alloc_cases hg (by decide) hp 1 plenty).resolve_left fun h => hnot 1 h.1
  refine ⟨w, hr, hp, ⟨fun h => hnot 0 (supplied_of_tolerates hg (by decide) hp h), v, hv.run, ?_, ?_⟩,
    fun h => hnot 1 (supplied_of_tolerates hg (by decide) hp h), v', hv'.run⟩
  · exact (congrFun hv.slots (0, 0)).trans hw.2.1
  · exact hv.empties 1 hw.2.1

end Runs

end LoginServerChat.PoolExhaustion
