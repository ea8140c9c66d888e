import LoginServerChat.ChunkCalls

/-!
`MemoryPoolTLS` in every run: no block is in two places, none is lost, and `Free` takes back what is
held and nothing else.
-/

namespace LoginServerChat.ChunkRun

open ChunkCalls ChunkInv LinkedChain MemoryPoolTLS Places Runs

variable {τ : Type*} {n p c q : ℕ} {w w' : World τ} {e : ℕ × τ → Option ℕ} {g : Layout τ}

/-! ### Every state -/

/-- Where a block can be between the calls, and where a chunk can be. -/
inductive Spot (τ : Type*)
  | held (p : ℕ)
  | tls (p : ℕ) (t : τ) (c : ℕ)
  | shared (p c : ℕ)

inductive ChunkSpot (τ : Type*)
  | tls (p : ℕ) (t : τ)
  | shared (p : ℕ)
  | empty (p : ℕ)

/-- `blocks` are those of each chunk, and `shared` the chunks on the stack of each pool. -/
def Spot.Has (w : World τ) (blocks shared : ℕ → List ℕ) (q : ℕ) : Spot τ → Prop
  | .held p => q ∈ (w.pool p).held
  | .tls p t c => (w.pool p).tls t = some c ∧ q ∈ blocks c
  | .shared p c => c ∈ shared p ∧ q ∈ blocks c

def ChunkSpot.Has (w : World τ) (shared : ℕ → List ℕ) (c : ℕ) : ChunkSpot τ → Prop
  | .tls p t => (w.pool p).tls t = some c
  | .shared p => c ∈ shared p
  | .empty p => c ∈ (w.pool p).emptyChunkManager

/-- What the pools are between the calls. -/
structure Conserved [DecidableEq τ] (n : ℕ) (w : World τ) (blocks shared : ℕ → List ℕ) : Prop where
  /-- The lists are those that the pointers make. -/
  blockList : ∀ c, Chain w.next (blocks c) ∧ (blocks c).head? = w.chunkTop c
  chunkList : ∀ p, Chain w.chunkNext (shared p) ∧ (shared p).head? = (w.pool p).freeStackTop
  /-- Every block, and every chunk, is in one place, and there once. -/
  block : ∀ q < w.blockCnt, ∃! a : Spot τ, a.Has w blocks shared q
  chunk : ∀ c < w.chunkCnt, ∃! a : ChunkSpot τ, a.Has w shared c
  once : ∀ i, (blocks i).Nodup ∧ (shared i).Nodup ∧ (w.pool i).held.Nodup ∧ (w.pool i).emptyChunkManager.Nodup
  size : ∀ c, w.size c = (blocks c).length
  full : ∀ p, ∀ c ∈ shared p, (blocks c).length = n
  bare : ∀ p, ∀ c ∈ (w.pool p).emptyChunkManager, blocks c = []
  count : ∀ p < w.poolCnt, (w.pool p).useChunk.toNat + (shared p).length = (w.pool p).totalChunk.toNat
  /-- `Free` takes what is held from the pool, and changes nothing on any other block. -/
  free : ∀ p < w.poolCnt, ∀ q < w.blockCnt, ∀ t, ((free n p t q w).1 = true ↔ q ∈ (w.pool p).held) ∧
    (q ∉ (w.pool p).held → MemoryPoolTLS.free n p t q w = (false, w))
  /-- `Alloc` fails only where `ChunkAlloc` does. -/
  alloc : ∀ p < w.poolCnt, ∀ t, alloc n p t w ≠ .error .nullBlock

/-- The chunks of a shared stack are no more than the arrays that have been made for the pool. -/
lemma shared_le (h : Inv n w e g) (hn : 0 < n) {N : ℕ}
    (hN : Nat.count (fun q => g.owner q = some p) w.blockCnt = n * N) : (g.shared p).length ≤ N := by
  have hcat : ∀ c ∈ g.shared p, g.cat c = .shared p := fun c hc => (h.chunks.shared.mem p c).mp hc
  have hnodup : ((g.shared p).flatMap g.blocks).Nodup := by
    refine List.nodup_flatMap.mpr ⟨fun c _ => h.blocks.inside.nodup c, ?_⟩
    refine (h.chunks.shared.nodup p).imp fun {c c'} hne q hq hq' => hne ?_
    rw [h.blocks.inside.mem] at hq hq'
    exact BlockAt.chunk.inj (hq.symm.trans hq')
  have hlen : ((g.shared p).flatMap g.blocks).length = (g.shared p).length * n := by
    rw [List.length_flatMap, List.sum_eq_card_nsmul _ n, List.length_map, smul_eq_mul]
    intro k hk
    obtain ⟨c, hc, rfl⟩ := List.mem_map.mp hk
    exact h.chunks.full c p (hcat c hc)
  have hsub : ((g.shared p).flatMap g.blocks).toFinset ⊆
      (Finset.range w.blockCnt).filter fun q => g.owner q = some p := by
    intro q hq
    obtain ⟨c, hc, hqc⟩ := List.mem_flatMap.mp (List.mem_toFinset.mp hq)
    have hat := (h.blocks.inside.mem c q).mp hqc
    refine Finset.mem_filter.mpr ⟨Finset.mem_range.mpr ((h.blocks.created q).mpr (by rw [hat]; exact nofun)), ?_⟩
    rw [Layout.owner, hat]
    dsimp only
    rw [hcat c hc]
    rfl
  have hcard := Finset.card_le_card hsub
  rw [List.toFinset_card_of_nodup hnodup, ← Nat.count_eq_card_filter_range, hN, hlen, Nat.mul_comm] at hcard
  exact Nat.le_of_mul_le_mul_left hcard hn

/-- The counters of a pool, as numbers. -/
lemma count_of_book (h : Inv n w e g) (hn : 0 < n) (hb : Book n w g p) :
    (w.pool p).useChunk.toNat + (g.shared p).length = (w.pool p).totalChunk.toNat := by
  obtain ⟨N, h1, h2, h3⟩ := hb
  have hle := shared_le h hn h1
  have hspace := h.pools.space
  have hcount := Nat.count_le (p := fun q => g.owner q = some p) (n := w.blockCnt)
  have hN : N ≤ n * N := Nat.le_mul_of_pos_left N hn
  unfold space at hspace
  have h4 := congrArg UInt64.toNat h3
  have h5 := (w.pool p).useChunk.toNat_lt
  rw [UInt64.toNat_add, h2, UInt64.toNat_ofNat', UInt64.toNat_ofNat', Nat.mod_eq_of_lt (a := N) (by omega),
    Nat.mod_eq_of_lt (a := (g.shared p).length) (by omega)] at h4
  rw [h2, UInt64.toNat_ofNat', Nat.mod_eq_of_lt (by omega)]
  omega

/-- Where a block is. -/
lemma spot_unique (h : Rest n w g) (hq : q < w.blockCnt) : ∃! a : Spot τ, a.Has w g.blocks g.shared q := by
  obtain ⟨⟨⟨hb, hc, -⟩, -, hbat⟩, hcat⟩ := h
  have hslot := hc.slot
  match hat : g.bat q with
  | .away => exact absurd hat ((hb.created q).mp hq)
  | .hand i => exact absurd hat (hbat q i)
  | .held i =>
    refine ⟨.held i, (hb.held.mem i q).mpr hat, fun a ha => ?_⟩
    cases a with
    | held j =>
      have := (hb.held.mem j q).mp ha
      rw [BlockAt.held.inj (hat.symm.trans this)]
    | tls j t c => exact nomatch hat.symm.trans ((hb.inside.mem c q).mp ha.2)
    | shared j c => exact nomatch hat.symm.trans ((hb.inside.mem c q).mp ha.2)
  | .chunk c =>
    have hm := (hb.inside.mem c q).mpr hat
    have hchunk : ∀ c', q ∈ g.blocks c' → c' = c := fun c' h' =>
      BlockAt.chunk.inj (((hb.inside.mem c' q).mp h').symm.trans hat)
    match hct : g.cat c with
    | .away => exact absurd hm (by rw [hc.bare c (.inl hct)]; exact List.not_mem_nil)
    | .hand i => exact absurd hct (hcat c i)
    | .empty i => exact absurd hm (by rw [hc.bare c (.inr ⟨i, hct⟩)]; exact List.not_mem_nil)
    | .tls i t =>
      refine ⟨.tls i t c, ⟨(hslot i t c).mpr hct, hm⟩, fun a ha => ?_⟩
      cases a with
      | held j => exact nomatch hat.symm.trans ((hb.held.mem j q).mp ha)
      | tls j u c' =>
        obtain rfl := hchunk c' ha.2
        obtain ⟨rfl, rfl⟩ := ChunkAt.tls.inj (hct.symm.trans ((hslot j u c').mp ha.1))
        rfl
      | shared j c' =>
        obtain rfl := hchunk c' ha.2
        exact nomatch hct.symm.trans ((hc.shared.mem j c').mp ha.1)
    | .shared i =>
      refine ⟨.shared i c, ⟨(hc.shared.mem i c).mpr hct, hm⟩, fun a ha => ?_⟩
      cases a with
      | held j => exact nomatch hat.symm.trans ((hb.held.mem j q).mp ha)
      | tls j u c' =>
        obtain rfl := hchunk c' ha.2
        exact nomatch hct.symm.trans ((hslot j u c').mp ha.1)
      | shared j c' =>
        obtain rfl := hchunk c' ha.2
        obtain rfl := ChunkAt.shared.inj (hct.symm.trans ((hc.shared.mem j c').mp ha.1))
        rfl

/-- Where a chunk is. -/
lemma chunkSpot_unique (h : Rest n w g) (hc : c < w.chunkCnt) : ∃! a : ChunkSpot τ, a.Has w g.shared c := by
  obtain ⟨⟨⟨-, hk, -⟩, -, -⟩, hcat⟩ := h
  have hiff : ∀ a : ChunkSpot τ, a.Has w g.shared c → g.cat c = match a with
      | .tls p t => .tls p t
      | .shared p => .shared p
      | .empty p => .empty p := by
    intro a ha
    cases a with
    | tls p t => exact (hk.slot p t c).mp ha
    | shared p => exact (hk.shared.mem p c).mp ha
    | empty p => exact (hk.empties.mem p c).mp ha
  have hone : ∀ a b : ChunkSpot τ, a.Has w g.shared c → b.Has w g.shared c → b = a := by
    intro a b ha hb
    have := (hiff b hb).symm.trans (hiff a ha)
    cases a <;> cases b <;> simp_all
  match hct : g.cat c with
  | .away => exact absurd hct ((hk.created c).mp hc)
  | .hand i => exact absurd hct (hcat c i)
  | .tls i t => exact ⟨.tls i t, (hk.slot i t c).mpr hct, fun b => hone _ b ((hk.slot i t c).mpr hct)⟩
  | .shared i => exact ⟨.shared i, (hk.shared.mem i c).mpr hct, fun b => hone _ b ((hk.shared.mem i c).mpr hct)⟩
  | .empty i => exact ⟨.empty i, (hk.empties.mem i c).mpr hct, fun b => hone _ b ((hk.empties.mem i c).mpr hct)⟩

section Runs

variable [DecidableEq τ]

lemma conserved_of_rest (h : Rest n w g) (hn : 0 < n) : Conserved n w g.blocks g.shared := by
  have hb := h.calm.inv.blocks
  have hc := h.calm.inv.chunks
  refine ⟨fun c => ⟨hb.chain c, hb.top c⟩, fun p => ⟨hc.chain p, hc.top p⟩, fun q hq => spot_unique h hq,
    fun c hc => chunkSpot_unique h hc,
    fun i => ⟨hb.inside.nodup i, hc.shared.nodup i, hb.held.nodup i, hc.empties.nodup i⟩, hb.size,
    fun p c hm => hc.full c p ((hc.shared.mem p c).mp hm),
    fun p c hm => hc.bare c (.inr ⟨p, (hc.empties.mem p c).mp hm⟩),
    fun p hp => count_of_book h.calm.inv hn (h.calm.book p hp), fun p hp q hq t => ?_, fun p hp t hr => ?_⟩
  · refine ⟨⟨fun ht => ?_, fun hm => ?_⟩, fun hm => free_refused h hp hq hm t⟩
    · by_contra hm
      rw [free_refused h hp hq hm t] at ht
      exact Bool.false_ne_true ht
    · obtain ⟨w', g', hf, -⟩ := free_rest h hn hp hm t
      rw [hf]
  · rcases alloc_rest h hn hp t with ⟨q, w', g', ha, -⟩ | ha
    · exact nomatch ha.symm.trans hr
    · exact nomatch ha.symm.trans hr

lemma next_rest (h : Rest n w g) (hn : 0 < n) {a : Call τ} (hs : next n w a = some w') : ∃ g', Rest n w' g' := by
  cases a with
  | construct i m k =>
    rw [next] at hs
    rcases hr : construct n i m k w with e | w₁
    · rw [hr] at hs
      exact nomatch hs
    · rw [hr] at hs
      exact Option.some.inj hs ▸ construct_rest h hr
  | alloc p t =>
    rw [next, Option.ite_none_right_eq_some] at hs
    rcases alloc_rest h hn hs.1 t with ⟨q, w₁, g', ha, hr, -⟩ | ha
    · rw [ha] at hs
      exact Option.some.inj hs.2 ▸ ⟨g', hr⟩
    · rw [ha] at hs
      exact nomatch hs.2
  | free p t q =>
    rw [next, Option.ite_none_right_eq_some] at hs
    obtain ⟨⟨hp, hq⟩, hs⟩ := hs
    by_cases hm : q ∈ (w.pool p).held
    · obtain ⟨w₁, g', hf, hr, -⟩ := free_rest h hn hp hm t
      rw [hf] at hs
      exact Option.some.inj hs ▸ ⟨g', hr⟩
    · rw [free_refused h hp hq hm t] at hs
      exact Option.some.inj hs ▸ ⟨g, h⟩

/-- Nothing is anywhere before the first pool is made. -/
def nothing : Layout τ := ⟨fun _ => [], fun _ => [], fun _ => .away, fun _ => .away⟩

omit [DecidableEq τ] in
lemma start_rest : Rest n (start : World τ) nothing := by
  refine ⟨⟨⟨⟨fun _ => trivial, fun _ => rfl, fun _ => rfl, .nil (by nofun), .nil (by nofun), fun _ => trivial,
    fun q => ⟨fun hq => absurd hq (Nat.not_lt_zero q), fun hq => absurd rfl hq⟩⟩,
    ⟨fun _ => trivial, fun _ => rfl, .nil (by nofun), .nil (by nofun), fun p t c => ⟨nofun, nofun⟩,
    fun c => ⟨fun hc => absurd hc (Nat.not_lt_zero c), fun hc => absurd rfl hc⟩, nofun, fun _ _ => rfl⟩,
    ⟨nofun, nofun, rfl, fun p hp => absurd hp (Nat.not_lt_zero p), Nat.zero_le _, Nat.zero_le _⟩⟩,
    fun p hp => absurd hp (Nat.not_lt_zero p), nofun⟩, nofun⟩

/-- **The pools lose no block and no chunk, and keep each in one place.** -/
theorem pools_conserve (hn : 0 < n) (h : Reach (next n) (fun _ _ => True) (start : World τ) w) :
    ∃ blocks shared, Conserved n w blocks shared := by
  obtain ⟨g, hr⟩ := Reach.inv (I := fun w => ∃ g, Rest n w g) ⟨nothing, start_rest⟩
    (fun _ _ _ _ hi _ hs => by
      obtain ⟨g, hg⟩ := hi
      exact next_rest hg hn hs) h
  exact ⟨g.blocks, g.shared, conserved_of_rest hr hn⟩

/-- A run that can be evaluated. -/
lemma reach_calls (n : ℕ) (l : List (Call τ)) {p : World τ → Bool}
    (h : (run (next n) (fun _ _ => true) start l).map p = some true) :
    ∃ w, Reach (next n) (fun _ _ => True) start w ∧ p w = true :=
  reach_of_run (fun _ _ _ => trivial) l h

/-- Two pools with chunks of two blocks. Of the first, one thread takes three blocks, so that its first
chunk goes to the empty ones; the other thread frees them, and its chunk fills and is shared. What it
tries to free to the second pool, or again, is refused. -/
def passing : List (Call (Fin 2)) :=
  [.construct 2 4 1, .construct 0 2 1, .alloc 0 0, .alloc 0 0, .alloc 0 0, .free 1 1 0, .free 0 1 0, .free 0 1 1,
    .free 0 1 0, .free 0 1 3, .alloc 1 1]

theorem pools_conserve_passing : ∃ w : World (Fin 2), Reach (next 2) (fun _ _ => True) start w ∧
    (w.pool 0).held = [] ∧ (w.pool 1).held = [5] ∧ (w.pool 0).useChunk = 1 ∧
    ∃ blocks shared, Conserved 2 w blocks shared := by
  obtain ⟨w, hr, hp⟩ := reach_calls 2 passing (p := fun w => decide ((w.pool 0).held = [] ∧ (w.pool 1).held = [5] ∧ (w.pool 0).useChunk = 1)) (by decide +kernel)
  obtain ⟨h1, h2, h3⟩ := of_decide_eq_true hp
  exact ⟨w, hr, h1, h2, h3, pools_conserve (by decide) hr⟩

end Runs

end LoginServerChat.ChunkRun
