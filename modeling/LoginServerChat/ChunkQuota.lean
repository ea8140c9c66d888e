import LoginServerChat.ChunkPool
import LoginServerChat.PoolQuota

/-!
The quota of a `MemoryPoolTLS`, counted in chunks, and with it that of both pools. The constructor
rounds its two numbers up to chunks in 64 bits; the quota is that of the numbers rounded up as they
are.
-/

namespace LoginServerChat.ChunkQuota

open ChunkPool Runs Tickets
open MemoryPoolTLS (chunkCount)

variable {τ : Type*}

/-- The chunks that some number of blocks makes. -/
def chunkLimit (n : ℕ) (num : UInt64) : ℕ := (num.toNat + (n - 1)) / n

/-- The limit can be rounded up in 64 bits. -/
def Fits (b : Boot) : Prop := b.maxBlockLimit.toNat + (b.chunkSize - 1) < 2 ^ 64

/-- A pool, and the record of its counter. -/
structure Book (τ : Type*) where
  pool : Pool τ
  counter : Counter τ

/-- What a step of a call does with the counter. -/
def act : Pc → Choice → Act
  | .incCnt, .tick => .draw
  | .decCnt, .tick => .takeBack
  | .malloc, .memory _ => .use
  | .malloc, .noMemory => .forgo
  | _, _ => .quiet

variable [DecidableEq τ]

def bstep (b : Boot) (s : Book τ) (a : τ × Choice) : Option (Book τ) :=
  (pstep b s.pool a).map fun p => ⟨p, s.counter.act b.addAllocMax a.1 (act (s.pool.pc a.1) a.2)⟩

def book (b : Boot) : Book τ := ⟨construct b, Counter.fresh⟩

/-- There is room above `_addAllocMax` for the increments that wait to be taken back. -/
def roomy (b : Boot) (s : Book τ) (_ : τ × Choice) : Prop := Room b.addAllocMax s.counter

instance (b : Boot) (s : Book τ) (a : τ × Choice) : Decidable (roomy b s a) :=
  inferInstanceAs (Decidable (Room _ _))

/-- What the pool promises of its chunks. -/
structure Quota (b : Boot) (s : Book τ) : Prop where
  /-- The arrays that have ever been allocated, besides the chunks of the constructor. -/
  created : ∃ l : List ℕ, (∀ a, s.pool.mem.arrays a = true ↔ a ∈ l) ∧
    b.chunks.length + l.length ≤ chunkLimit b.chunkSize b.maxBlockLimit
  counter : s.counter.cnt = s.pool.mem.addAllocCnt
  extra : b.addAllocMax.toNat =
    chunkLimit b.chunkSize b.maxBlockLimit - chunkLimit b.chunkSize b.initBlockNum
  honest : Honest b.addAllocMax s.counter

/-- What a call has to do with the counter. -/
def phase : Pc → Phase
  | .decCnt => .late
  | .malloc => .due
  | _ => .out

structure Inv (b : Boot) (s : Book τ) : Prop where
  tied : Tied b.addAllocMax s.counter s.pool.mem.addAllocCnt (fun t => phase (s.pool.pc t))
  stock : Stock s.pool.mem.arrays 0 s.counter

variable {b : Boot} {m m' : Mem} {p p' : Pc} {c : Choice} {s s' : Book τ} {o : Option ℕ}

omit [DecidableEq τ] in
lemma fillBlock_same (b : Boot) (q : ℕ) (m : Mem) (x : Block) :
    (fillBlock b q m x).addAllocCnt = m.addAllocCnt ∧ (fillBlock b q m x).arrays = m.arrays := by
  unfold fillBlock
  dsimp only
  split_ifs <;> exact ⟨rfl, rfl⟩

omit [DecidableEq τ] in
/-- **What a step of a call does to the counter**, and to the arrays that there are. -/
lemma tstep_obeys (h : tstep b m p c = some (m', p', o)) :
    Obeys b.addAllocMax m.addAllocCnt (act p c) m'.addAllocCnt (phase p) (phase p') ∧
      Makes m.arrays m'.arrays (act p c) := by
  revert h
  fun_cases tstep b m p c
  all_goals intro h
  all_goals simp only [Option.some.injEq, Prod.mk.injEq, reduceCtorEq] at h
  all_goals obtain ⟨rfl, rfl, rfl⟩ := h
  case case7 myNum hn =>
    have hd : drawn b.addAllocMax (m.addAllocCnt + 1) = .out := if_pos hn
    exact ⟨obeys_draw hd, .inr ⟨Act.noConfusion, rfl⟩⟩
  case case8 myNum hn hlt =>
    have hd : drawn b.addAllocMax (m.addAllocCnt + 1) = .late := by rw [drawn, if_neg hn, if_pos hlt]
    exact ⟨obeys_draw hd, .inr ⟨Act.noConfusion, rfl⟩⟩
  case case9 myNum hn hlt =>
    have hd : drawn b.addAllocMax (m.addAllocCnt + 1) = .due := by rw [drawn, if_neg hn, if_neg hlt]
    exact ⟨obeys_draw hd, .inr ⟨Act.noConfusion, rfl⟩⟩
  case case10 => exact ⟨.takeBack, .inr ⟨Act.noConfusion, rfl⟩⟩
  case case11 a ha => exact ⟨.use, .inl ⟨rfl, a, rfl⟩⟩
  case case13 => exact ⟨.forgo, .inr ⟨Act.noConfusion, rfl⟩⟩
  case case20 a q i hi =>
    obtain ⟨h1, h2⟩ := fillBlock_same b q m (a, i)
    rw [h1]
    exact ⟨.quiet, .inr ⟨Act.noConfusion, h2⟩⟩
  all_goals exact ⟨.quiet, .inr ⟨Act.noConfusion, rfl⟩⟩

/-- A step of the pool is a step of a call, or a thread that is not in a call gives its chunk away. -/
lemma pstep_obeys {x q : Pool τ} {a : τ × Choice} (h : pstep b x a = some q) :
    Obeys b.addAllocMax x.mem.addAllocCnt (act (x.pc a.1) a.2) q.mem.addAllocCnt (phase (x.pc a.1))
      (phase (q.pc a.1)) ∧
    Makes x.mem.arrays q.mem.arrays (act (x.pc a.1) a.2) ∧ ∀ u ≠ a.1, q.pc u = x.pc u := by
  unfold pstep at h
  split at h
  · rename_i hp hc
    rw [Option.ite_none_right_eq_some, Option.some.injEq] at h
    obtain ⟨-, rfl⟩ := h
    rw [hp, hc]
    refine ⟨?_, .inr ⟨(by nofun), rfl⟩, fun u hu => Function.update_of_ne hu _ _⟩
    dsimp only
    rw [Function.update_self]
    exact .quiet
  · rename_i hp hc
    rw [Option.ite_none_right_eq_some, Option.some.injEq] at h
    obtain ⟨-, rfl⟩ := h
    dsimp only
    rw [hp, hc]
    exact ⟨.quiet, .inr ⟨(by nofun), rfl⟩, fun _ _ => rfl⟩
  · rw [Option.map_eq_some_iff] at h
    obtain ⟨⟨m', p', o⟩, hr, rfl⟩ := h
    obtain ⟨h1, h2⟩ := tstep_obeys hr
    refine ⟨?_, h2, fun u hu => Function.update_of_ne hu _ _⟩
    dsimp only
    rw [Function.update_self]
    exact h1

/-- **One step** keeps the invariant. -/
lemma bstep_inv {a : τ × Choice} (hI : Inv b s) (ho : roomy b s a) (h : bstep b s a = some s') :
    Inv b s' := by
  rw [bstep, Option.map_eq_some_iff] at h
  obtain ⟨q, hq, rfl⟩ := h
  obtain ⟨h1, h2, h3⟩ := pstep_obeys hq
  refine ⟨hI.tied.act ho h1 fun u hu => ?_, hI.stock.act h2⟩
  dsimp only
  rw [h3 u hu]

/-! ### Every state -/

omit [DecidableEq τ] in
lemma fillAll_same (b : Boot) (q : ℕ) (l : List Block) (m : Mem) :
    (l.foldl (fillBlock b q) m).addAllocCnt = m.addAllocCnt ∧
      (l.foldl (fillBlock b q) m).arrays = m.arrays := by
  induction l generalizing m with
  | nil => exact ⟨rfl, rfl⟩
  | cons x l ih =>
    obtain ⟨h1, h2⟩ := fillBlock_same b q m x
    obtain ⟨h3, h4⟩ := ih (fillBlock b q m x)
    rw [List.foldl_cons]
    exact ⟨h3.trans h1, h4.trans h2⟩

omit [DecidableEq τ] in
lemma linkAll_same (b : Boot) (m : Mem) (i : ℕ) (qs : List ℕ) :
    (linkAll b m i qs).addAllocCnt = m.addAllocCnt ∧ (linkAll b m i qs).arrays = m.arrays := by
  induction qs generalizing m i with
  | nil => exact ⟨rfl, rfl⟩
  | cons q qs ih =>
    rw [linkAll]
    obtain ⟨h1, h2⟩ := fillAll_same b q
      ((List.range' (b.chunkSize * i) b.chunkSize).map fun j => (b.blockPool, j)) m
    obtain ⟨h3, h4⟩ := ih _ (i + 1)
    exact ⟨h3.trans h1, h4.trans h2⟩

omit [DecidableEq τ] in
lemma book_inv (b : Boot) : Inv b (book b : Book τ) := by
  obtain ⟨h1, h2⟩ := linkAll_same b (bare b) 0 b.chunks
  refine ⟨?_, [], fun a => ?_, rfl⟩
  · have hcnt : (book b : Book τ).pool.mem.addAllocCnt = -1 := h1
    rw [hcnt]
    exact tied_fresh fun _ => rfl
  · have harr : (book b : Book τ).pool.mem.arrays = fun _ => false := h2
    rw [harr]
    exact ⟨fun h => (nomatch h), fun h => absurd h List.not_mem_nil⟩

lemma reach_inv (h : Reach (bstep b) (roomy b) (book b) s) : Inv b s :=
  Reach.inv (I := Inv b) (book_inv b) (fun _ _ _ _ hi ho hs => bstep_inv hi ho hs) h

/-! ### Rounding up -/

/-- Where the sum fits, the constructor rounds up. -/
lemma chunkCount_toNat {n : ℕ} {num : UInt64} (hn : 0 < n ∧ n < 2 ^ 64)
    (h : num.toNat + (n - 1) < 2 ^ 64) : (chunkCount n num).toNat = chunkLimit n num := by
  have hof : (UInt64.ofNat n).toNat = n := UInt64.toNat_ofNat_of_lt' hn.2
  have hone : (1 : UInt64) ≤ UInt64.ofNat n := by
    rw [UInt64.le_iff_toNat_le, hof]
    exact hn.1
  unfold chunkCount chunkLimit
  rw [UInt64.toNat_div, UInt64.toNat_add, UInt64.toNat_sub_of_le _ _ hone, hof]
  change (num.toNat + (n - 1)) % 2 ^ 64 / n = _
  rw [Nat.mod_eq_of_lt h]

lemma Fits.limits (h : Fits b) :
    b.chunks.length = chunkLimit b.chunkSize b.initBlockNum ∧
      chunkLimit b.chunkSize b.initBlockNum ≤ chunkLimit b.chunkSize b.maxBlockLimit ∧
      b.addAllocMax.toNat =
        chunkLimit b.chunkSize b.maxBlockLimit - chunkLimit b.chunkSize b.initBlockNum := by
  have hn := b.chunkSize_pos
  have hle : b.initBlockNum.toNat ≤ b.maxBlockLimit.toNat := by
    have := b.accepted.1
    rw [UInt64.lt_iff_toNat_lt] at this
    omega
  have hmax := chunkCount_toNat hn h
  have hinit : (chunkCount b.chunkSize b.initBlockNum).toNat = chunkLimit b.chunkSize b.initBlockNum :=
    chunkCount_toNat hn (by unfold Fits at h; omega)
  have hmono : chunkLimit b.chunkSize b.initBlockNum ≤ chunkLimit b.chunkSize b.maxBlockLimit :=
    Nat.div_le_div_right (Nat.add_le_add_right hle _)
  refine ⟨b.chunks_length.trans hinit, hmono, ?_⟩
  rw [Boot.addAllocMax, UInt64.toNat_sub_of_le, hmax, hinit]
  rw [UInt64.le_iff_toNat_le, hmax, hinit]
  exact hmono

lemma chunk_quota (hb : Fits b) (h : Reach (bstep b) (roomy b) (book b) s) : Quota b s := by
  obtain ⟨hT, hS⟩ := reach_inv h
  obtain ⟨h1, h2, h3⟩ := hb.limits
  have hh := hT.inv.honest
  obtain ⟨l, hl, hlen⟩ := hS.bounded hh
  exact ⟨⟨l, hl, by omega⟩, hT.cnt, h3, hh⟩

/-! ### Both pools -/

/-- **The quotas.** In every state of a `MemoryPool` and of a `MemoryPoolTLS` no more has been created
than the limit allows, the tickets issued are 0, 1, 2 and so on up to the quota, the counter does not
drop below `_addAllocMax` once it has been there, and a call is refused only when no ticket is left. -/
theorem quotas_kept {b₁ : MemoryPool.Boot} {initBlockNum maxBlockLimit : UInt64}
    {s₁ : PoolQuota.Book τ} {b₂ : Boot} {s₂ : Book τ}
    (hb₁ : PoolQuota.SetUp b₁ initBlockNum maxBlockLimit)
    (h₁ : Reach (PoolQuota.bstep b₁) (PoolQuota.roomy b₁) (PoolQuota.book b₁) s₁)
    (hb₂ : Fits b₂) (h₂ : Reach (bstep b₂) (roomy b₂) (book b₂) s₂) :
    PoolQuota.Quota b₁ initBlockNum maxBlockLimit s₁ ∧ Quota b₂ s₂ :=
  ⟨PoolQuota.pool_quota hb₁ h₁, chunk_quota hb₂ h₂⟩

/-- `n` steps of thread `t`. -/
def ticks (t : τ) (n : ℕ) : List (τ × Choice) := List.replicate n (t, .tick)

/-- A run that can be evaluated. -/
lemma reach_roomy (l : List (τ × Choice)) {p : Book τ → Bool}
    (h : (run (bstep b) (fun s a => decide (roomy b s a)) (book b) l).map p = some true) :
    ∃ s, Reach (bstep b) (roomy b) (book b) s ∧ p s = true :=
  reach_of_run (fun _ _ => of_decide_eq_true) l h

lemma reach_roomy_pool {b : MemoryPool.Boot} (l : List (τ × MemoryPool.Choice τ))
    {p : PoolQuota.Book τ → Bool}
    (h : (run (PoolQuota.bstep b) (fun s a => decide (PoolQuota.roomy b s a)) (PoolQuota.book b) l).map p =
      some true) :
    ∃ s, Reach (PoolQuota.bstep b) (PoolQuota.roomy b) (PoolQuota.book b) s ∧ p s = true :=
  reach_of_run (fun _ _ => of_decide_eq_true) l h

/-- Chunks of two blocks, at least one block at the start and three at most. -/
def twoChunks : Boot where
  chunkSize := 2
  myCode := 1
  initBlockNum := 1
  maxBlockLimit := 3
  chunks := [64]
  blockPool := 1000
  next _ := 0
  chunkTop _ := none
  size _ := 0
  blockNext _ := none
  preCode _ := 0
  postCode _ := 0
  accepted := by decide
  chunks_length := by decide
  chunkSize_pos := by decide

/-- The first chunk and a new one are handed out. Then three threads are refused; the last two of
them find the counter at its bound, and one of these has not yet taken its increment back. -/
def refusedTwice : List (Fin 3 × Choice) :=
  [(0, .chunkAlloc)] ++ ticks 0 4 ++ [(0, .chunkAlloc)] ++ ticks 0 2 ++ [(0, .memory 2000)] ++
    ticks 0 3 ++ [(0, .chunk 128)] ++ ticks 0 5 ++ [(0, .chunkAlloc)] ++ ticks 0 2 ++
    [(1, .chunkAlloc)] ++ ticks 1 2 ++ [(2, .chunkAlloc)] ++ ticks 2 3

/-- The same in a pool of two blocks and room for one more. -/
def blocksRefused : List (Fin 3 × MemoryPool.Choice (Fin 3)) :=
  [(0, .alloc)] ++ PoolRun.ticks 0 6 ++ [(0, .alloc)] ++ PoolRun.ticks 0 6 ++ [(0, .alloc)] ++
    PoolRun.ticks 0 2 ++ [(0, .memory 192)] ++ PoolRun.ticks 0 8 ++ [(0, .alloc)] ++
    PoolRun.ticks 0 2 ++ [(1, .alloc)] ++ PoolRun.ticks 1 2 ++ [(2, .alloc)] ++ PoolRun.ticks 2 3

theorem quotas_kept_refused :
    ∃ (s₁ : PoolQuota.Book (Fin 3)) (s₂ : Book (Fin 3)),
      (s₁.counter.issued = [0] ∧ s₁.counter.reached = true ∧ s₁.counter.late = {1}) ∧
      (s₂.counter.issued = [0] ∧ s₂.counter.reached = true ∧ s₂.counter.late = {1}) ∧
      PoolQuota.Quota PoolRun.twoBlocks 2 3 s₁ ∧ Quota twoChunks s₂ := by
  obtain ⟨s₁, h₁, hp₁⟩ := reach_roomy_pool (b := PoolRun.twoBlocks) blocksRefused (p := fun s => decide
    (s.counter.issued = [0] ∧ s.counter.reached = true ∧ s.counter.late = {1})) (by decide +kernel)
  obtain ⟨s₂, h₂, hp₂⟩ := reach_roomy (b := twoChunks) refusedTwice (p := fun s => decide
    (s.counter.issued = [0] ∧ s.counter.reached = true ∧ s.counter.late = {1})) (by decide +kernel)
  have hset : PoolQuota.SetUp PoolRun.twoBlocks 2 3 := ⟨rfl, by decide⟩
  have hfits : Fits twoChunks := by
    unfold Fits
    decide
  exact ⟨s₁, s₂, of_decide_eq_true hp₁, of_decide_eq_true hp₂, quotas_kept hset h₁ hfits h₂⟩

/-- Chunks of 400 blocks, none at the start, and no other limit than that of 64 bits. -/
def unlimited : Boot where
  chunkSize := 400
  myCode := 1
  initBlockNum := 0
  maxBlockLimit := 0xFFFFFFFFFFFFFFFF
  chunks := []
  blockPool := 1000
  next _ := 0
  chunkTop _ := none
  size _ := 0
  blockNext _ := none
  preCode _ := 0
  postCode _ := 0
  accepted := by decide
  chunks_length := by decide
  chunkSize_pos := by decide

/-- The limit is rounded up to no chunk: the first call of `ChunkAlloc` is refused. -/
theorem quota_wraps : ∃ s : Book (Fin 1), Reach (bstep unlimited) (roomy unlimited) (book unlimited) s ∧
    s.pool.pc 0 = .incCnt ∧ ¬ s.counter.cnt + 1 < unlimited.addAllocMax ∧
    s.counter.issued.length < chunkLimit unlimited.chunkSize unlimited.maxBlockLimit -
      chunkLimit unlimited.chunkSize unlimited.initBlockNum ∧ ¬ Quota unlimited s := by
  obtain ⟨s, hr, hp⟩ := reach_roomy (b := unlimited) ([(0, .chunkAlloc)] ++ ticks 0 1)
    (p := fun s : Book (Fin 1) => decide (s.pool.pc 0 = .incCnt ∧
      ¬ s.counter.cnt + 1 < unlimited.addAllocMax ∧
      s.counter.issued.length < chunkLimit unlimited.chunkSize unlimited.maxBlockLimit -
        chunkLimit unlimited.chunkSize unlimited.initBlockNum)) (by decide +kernel)
  obtain ⟨h1, h2, h3⟩ := of_decide_eq_true hp
  refine ⟨s, hr, h1, h2, h3, fun hq => ?_⟩
  have hlen := hq.honest.refused h2
  have hextra := hq.extra
  omega

end LoginServerChat.ChunkQuota
