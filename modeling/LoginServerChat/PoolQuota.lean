import LoginServerChat.PoolRun
import LoginServerChat.Tickets

/-!
The quota of a `MemoryPool`: `_addAllocCnt` gives out a ticket for each block beyond the first
`initBlockNum`. What the counter has given out is kept beside the pool.
-/

namespace LoginServerChat.PoolQuota

open MemoryPool Runs Tickets

variable {τ : Type*}

/-- `_addAllocMax`, unless the constructor throws. -/
def extraBlocks (initBlockNum maxBlockLimit : UInt64) : Option UInt64 :=
  if maxBlockLimit < initBlockNum then none
  else if initBlockNum = 0 ∧ maxBlockLimit = 0 then none
  else if 0 < maxBlockLimit - initBlockNum then some (maxBlockLimit - initBlockNum)
  else some 0

/-- The constructor has set the pool up for these two numbers. -/
structure SetUp (b : Boot) (initBlockNum maxBlockLimit : UInt64) : Prop where
  blocks : b.blocks.length = initBlockNum.toNat
  extra : extraBlocks initBlockNum maxBlockLimit = some b.addAllocMax

/-- A pool, and the record of its counter. -/
structure Book (τ : Type*) where
  pool : Pool τ
  counter : Counter τ

/-- What a step of a call does with the counter. -/
def act : Pc → Choice τ → Act
  | .incCnt, .tick => .draw
  | .decCnt, .tick => .takeBack
  | .malloc, .memory _ => .use
  | .malloc, .noMemory => .forgo
  | _, _ => .quiet

variable [DecidableEq τ]

def bstep (b : Boot) (s : Book τ) (a : τ × Choice τ) : Option (Book τ) :=
  (pstep b s.pool a).map fun p => ⟨p, s.counter.act b.addAllocMax a.1 (act (s.pool.pc a.1) a.2)⟩

def book (b : Boot) : Book τ := ⟨construct b, Counter.fresh⟩

/-- There is room above `_addAllocMax` for the increments that wait to be taken back. -/
def roomy (b : Boot) (s : Book τ) (_ : τ × Choice τ) : Prop := Room b.addAllocMax s.counter

instance (b : Boot) (s : Book τ) (a : τ × Choice τ) : Decidable (roomy b s a) :=
  inferInstanceAs (Decidable (Room _ _))

/-- What the pool promises of its blocks. -/
structure Quota (b : Boot) (initBlockNum maxBlockLimit : UInt64) (s : Book τ) : Prop where
  /-- The blocks that have ever been created. -/
  created : ∃ l : List ℕ, (∀ q, s.pool.mem.created q = true ↔ q ∈ l) ∧ l.length ≤ maxBlockLimit.toNat
  counter : s.counter.cnt = s.pool.mem.addAllocCnt
  extra : b.addAllocMax.toNat = maxBlockLimit.toNat - initBlockNum.toNat
  honest : Honest b.addAllocMax s.counter

/-- What a call has to do with the counter. -/
def phase : Pc → Phase
  | .decCnt => .late
  | .malloc => .due
  | _ => .out

structure Inv (b : Boot) (s : Book τ) : Prop where
  tied : Tied b.addAllocMax s.counter s.pool.mem.addAllocCnt (fun t => phase (s.pool.pc t))
  stock : Stock s.pool.mem.created b.blocks.length s.counter

variable {b : Boot} {m m' : Mem} {p p' : Pc} {c : Choice τ} {s s' : Book τ} {o : Option ℕ}

omit [DecidableEq τ] in
/-- **What a step of a call does to the counter**, and to the blocks that there are. -/
lemma tstep_obeys (h : tstep b m p c = some (m', p', o)) :
    Obeys b.addAllocMax m.addAllocCnt (act p c) m'.addAllocCnt (phase p) (phase p') ∧
      Makes m.created m'.created (act p c) := by
  revert h
  fun_cases tstep b m p c
  all_goals intro h
  all_goals simp only [Option.some.injEq, Prod.mk.injEq, reduceCtorEq] at h
  all_goals obtain ⟨rfl, rfl, rfl⟩ := h
  case case9 myNum hn =>
    have hd : drawn b.addAllocMax (m.addAllocCnt + 1) = .out := if_pos hn
    exact ⟨obeys_draw hd, .inr ⟨Act.noConfusion, rfl⟩⟩
  case case10 myNum hn hlt =>
    have hd : drawn b.addAllocMax (m.addAllocCnt + 1) = .late := by rw [drawn, if_neg hn, if_pos hlt]
    exact ⟨obeys_draw hd, .inr ⟨Act.noConfusion, rfl⟩⟩
  case case11 myNum hn hlt =>
    have hd : drawn b.addAllocMax (m.addAllocCnt + 1) = .due := by rw [drawn, if_neg hn, if_neg hlt]
    exact ⟨obeys_draw hd, .inr ⟨Act.noConfusion, rfl⟩⟩
  case case12 => exact ⟨.takeBack, .inr ⟨Act.noConfusion, rfl⟩⟩
  case case13 q hq => exact ⟨.use, .inl ⟨rfl, q, rfl⟩⟩
  case case15 => exact ⟨.forgo, .inr ⟨Act.noConfusion, rfl⟩⟩
  all_goals exact ⟨.quiet, .inr ⟨Act.noConfusion, rfl⟩⟩

/-- A step of the pool is a step of a call, or a caller that is not in a call does something with a
block. -/
lemma pstep_obeys {x : Pool τ} {q : Pool τ} {a : τ × Choice τ} (h : pstep b x a = some q) :
    Obeys b.addAllocMax x.mem.addAllocCnt (act (x.pc a.1) a.2) q.mem.addAllocCnt (phase (x.pc a.1))
      (phase (q.pc a.1)) ∧
    Makes x.mem.created q.mem.created (act (x.pc a.1) a.2) ∧ ∀ u ≠ a.1, q.pc u = x.pc u := by
  unfold pstep at h
  split at h
  · rename_i hp hc
    rw [Option.ite_none_right_eq_some, Option.some.injEq] at h
    obtain ⟨-, rfl⟩ := h
    rw [hp, hc]
    refine ⟨?_, .inr ⟨(by nofun), rfl⟩, fun u hu => Function.update_of_ne hu _ _⟩
    dsimp only
    rw [Function.update_self]
    exact .quiet
  · rename_i hp hc
    rw [Option.ite_none_right_eq_some, Option.some.injEq] at h
    obtain ⟨-, rfl⟩ := h
    dsimp only
    rw [hp, hc]
    exact ⟨.quiet, .inr ⟨(by nofun), rfl⟩, fun _ _ => rfl⟩
  · rw [Option.map_eq_some_iff] at h
    obtain ⟨⟨m', p', o⟩, hr, rfl⟩ := h
    obtain ⟨h1, h2⟩ := tstep_obeys hr
    refine ⟨?_, h2, fun u hu => Function.update_of_ne hu _ _⟩
    dsimp only
    rw [Function.update_self]
    exact h1

/-- **One step** keeps the invariant. -/
lemma bstep_inv {a : τ × Choice τ} (hI : Inv b s) (ho : roomy b s a) (h : bstep b s a = some s') :
    Inv b s' := by
  rw [bstep, Option.map_eq_some_iff] at h
  obtain ⟨q, hq, rfl⟩ := h
  obtain ⟨h1, h2, h3⟩ := pstep_obeys hq
  refine ⟨hI.tied.act ho h1 fun u hu => ?_, hI.stock.act h2⟩
  dsimp only
  rw [h3 u hu]

/-! ### Every state -/

omit [DecidableEq τ] in
lemma linkAll_cnt (m : Mem) (blocks : List ℕ) : (linkAll b m blocks).addAllocCnt = m.addAllocCnt := by
  induction blocks generalizing m with
  | nil => rfl
  | cons q qs ih =>
    rw [linkAll, List.foldl_cons]
    exact ih _

omit [DecidableEq τ] in
lemma book_inv (b : Boot) : Inv b (book b : Book τ) := by
  refine ⟨?_, b.blocks, fun q => ?_, rfl⟩
  · have hcnt : (book b : Book τ).pool.mem.addAllocCnt = -1 := linkAll_cnt (bare b) b.blocks
    rw [hcnt]
    exact tied_fresh fun _ => rfl
  · have := (PoolRun.construct_linked b).created q
    rw [List.mem_reverse] at this
    exact this

lemma reach_inv (h : Reach (bstep b) (roomy b) (book b) s) : Inv b s :=
  Reach.inv (I := Inv b) (book_inv b) (fun _ _ _ _ hi ho hs => bstep_inv hi ho hs) h

variable {initBlockNum maxBlockLimit : UInt64}

/-- The blocks at the start and the tickets make up the limit. -/
lemma SetUp.extra_toNat (h : SetUp b initBlockNum maxBlockLimit) :
    b.addAllocMax.toNat = maxBlockLimit.toNat - initBlockNum.toNat ∧
      initBlockNum.toNat ≤ maxBlockLimit.toNat := by
  have he := h.extra
  unfold extraBlocks at he
  split_ifs at he with h1 h2 h3
  · rw [UInt64.lt_iff_toNat_lt, Nat.not_lt] at h1
    rw [← Option.some.inj he, UInt64.toNat_sub_of_le _ _ (UInt64.le_iff_toNat_le.mpr h1)]
    exact ⟨rfl, h1⟩
  · rw [UInt64.lt_iff_toNat_lt, Nat.not_lt] at h1
    rw [UInt64.lt_iff_toNat_lt, UInt64.toNat_sub_of_le _ _ (UInt64.le_iff_toNat_le.mpr h1)] at h3
    rw [← Option.some.inj he]
    change 0 = _ ∧ _
    have hz : (0 : UInt64).toNat = 0 := rfl
    omega

/-- **The quota of a `MemoryPool`.** -/
lemma pool_quota (hb : SetUp b initBlockNum maxBlockLimit)
    (h : Reach (bstep b) (roomy b) (book b) s) : Quota b initBlockNum maxBlockLimit s := by
  obtain ⟨hT, hS⟩ := reach_inv h
  obtain ⟨hx, hle⟩ := hb.extra_toNat
  have hh := hT.inv.honest
  obtain ⟨l, hl, hlen⟩ := hS.bounded hh
  have hblocks := hb.blocks
  exact ⟨⟨l, hl, by omega⟩, hT.cnt, hx, hh⟩

end LoginServerChat.PoolQuota
