import LoginServerChat.MemoryPoolTLS

/-!
The invariant of `MemoryPoolTLS`. Each block and each chunk is in one place, and on the list of that
place once; what is being moved by a call is in its hands.
-/

namespace LoginServerChat.ChunkInv

open LinkedChain MemoryPoolTLS Places

variable {τ : Type*}

/-- Where a block is. -/
inductive BlockAt
  | away
  | hand (p : ℕ)
  | held (p : ℕ)
  | chunk (c : ℕ)

/-- Where a chunk is. -/
inductive ChunkAt (τ : Type*)
  | away
  | hand (p : ℕ)
  | tls (p : ℕ) (t : τ)
  | shared (p : ℕ)
  | empty (p : ℕ)

/-- The pool that a chunk belongs to. -/
def ChunkAt.pool : ChunkAt τ → Option ℕ
  | .away => none
  | .hand p | .tls p _ | .shared p | .empty p => some p

/-- The blocks of each chunk, the chunks on each shared stack, and where all of them are. -/
structure Layout (τ : Type*) where
  blocks : ℕ → List ℕ
  shared : ℕ → List ℕ
  bat : ℕ → BlockAt
  cat : ℕ → ChunkAt τ

/-- The pool that a block belongs to. -/
def Layout.owner (g : Layout τ) (q : ℕ) : Option ℕ :=
  match g.bat q with
  | .away => none
  | .hand p | .held p => some p
  | .chunk c => (g.cat c).pool

/-- The codes of a block that is in use, and of one that is not. -/
structure InUse (w : World τ) (p q : ℕ) : Prop where
  pre : w.preCode q = (w.pool p).myCode
  post : w.postCode q = (w.pool p).myCode

structure NotInUse (w : World τ) (p q : ℕ) : Prop where
  pre : w.preCode q = (w.pool p).myCode
  post : w.postCode q = ~~~(w.pool p).myCode

/-- What the codes of a block say of where it is. -/
def Coded (w : World τ) (cat : ℕ → ChunkAt τ) (q : ℕ) : BlockAt → Prop
  | .held p => InUse w p q
  | .chunk c => ∀ p, (cat c).pool = some p → NotInUse w p q
  | _ => True

structure Blocks (w : World τ) (g : Layout τ) : Prop where
  chain : ∀ c, Chain w.next (g.blocks c)
  top : ∀ c, (g.blocks c).head? = w.chunkTop c
  size : ∀ c, w.size c = (g.blocks c).length
  inside : Filed g.blocks g.bat .chunk
  held : Filed (fun p => (w.pool p).held) g.bat .held
  coded : ∀ q, Coded w g.cat q (g.bat q)
  created : ∀ q, q < w.blockCnt ↔ g.bat q ≠ .away

/-- `e` is the chunk of each pool and thread, as far as the call in progress has not taken it. -/
structure Chunks (n : ℕ) (w : World τ) (e : ℕ × τ → Option ℕ) (g : Layout τ) : Prop where
  chain : ∀ p, Chain w.chunkNext (g.shared p)
  top : ∀ p, (g.shared p).head? = (w.pool p).freeStackTop
  shared : Filed g.shared g.cat .shared
  empties : Filed (fun p => (w.pool p).emptyChunkManager) g.cat .empty
  slot : ∀ p t c, e (p, t) = some c ↔ g.cat c = .tls p t
  created : ∀ c, c < w.chunkCnt ↔ g.cat c ≠ .away
  full : ∀ c p, g.cat c = .shared p → (g.blocks c).length = n
  bare : ∀ c, (g.cat c = .away ∨ ∃ p, g.cat c = .empty p) → g.blocks c = []

/-- What belongs to a pool belongs to one that has been made, and no two have the same code. -/
structure Pools (w : World τ) (g : Layout τ) : Prop where
  owner : ∀ q p, g.owner q = some p → p < w.poolCnt
  pool : ∀ c p, (g.cat c).pool = some p → p < w.poolCnt
  secure : w.secureCode = UInt64.ofNat w.poolCnt
  code : ∀ p < w.poolCnt, (w.pool p).myCode = UInt64.ofNat (p + 1)
  room : w.poolCnt ≤ space
  space : w.blockCnt ≤ space

structure Inv (n : ℕ) (w : World τ) (e : ℕ × τ → Option ℕ) (g : Layout τ) : Prop where
  blocks : Blocks w g
  chunks : Chunks n w e g
  pools : Pools w g

/-- The counters of a pool: so many arrays have been made, and so many chunks are not shared. -/
def Book (n : ℕ) (w : World τ) (g : Layout τ) (p : ℕ) : Prop :=
  ∃ N, Nat.count (fun q => g.owner q = some p) w.blockCnt = n * N ∧
    (w.pool p).totalChunk = UInt64.ofNat N ∧
    (w.pool p).useChunk + UInt64.ofNat (g.shared p).length = (w.pool p).totalChunk

/-! ### What a step leaves as it is -/

variable {n p c q : ℕ} {w w' : World τ} {e e' : ℕ × τ → Option ℕ} {g g' : Layout τ} {t : τ} {a : Pool τ}

lemma InUse.same (h : InUse w p q) (h1 : w'.preCode q = w.preCode q) (h2 : w'.postCode q = w.postCode q)
    (h3 : (w'.pool p).myCode = (w.pool p).myCode) : InUse w' p q :=
  ⟨by rw [h1, h3, h.pre], by rw [h2, h3, h.post]⟩

lemma NotInUse.same (h : NotInUse w p q) (h1 : w'.preCode q = w.preCode q)
    (h2 : w'.postCode q = w.postCode q) (h3 : (w'.pool p).myCode = (w.pool p).myCode) : NotInUse w' p q :=
  ⟨by rw [h1, h3, h.pre], by rw [h2, h3, h.post]⟩

/-- The code of a block is as good after a step that writes neither to it nor to `_myCode`, when no chunk
has come to another pool. -/
lemma coded_same {cat' : ℕ → ChunkAt τ} {b : BlockAt} (h : Coded w g.cat q b)
    (h1 : w'.preCode q = w.preCode q) (h2 : w'.postCode q = w.postCode q)
    (h3 : ∀ p, (w'.pool p).myCode = (w.pool p).myCode)
    (hcat : ∀ c p, b = .chunk c → (cat' c).pool = some p → (g.cat c).pool = some p) : Coded w' cat' q b := by
  cases b with
  | away | hand _ => trivial
  | held p => exact InUse.same h h1 h2 (h3 p)
  | chunk c => exact fun p hp => (h p (hcat c p rfl hp)).same h1 h2 (h3 p)

/-- A field of the pools, when one pool is changed. -/
lemma field_setPool {β : Type*} (f : Pool τ → β) (w : World τ) (p : ℕ) (a : Pool τ) :
    (fun p' => f ((w.setPool p a).pool p')) = Function.update (fun p' => f (w.pool p')) p (f a) :=
  funext fun p' => Function.apply_update (fun _ => f) w.pool p a p'

lemma field_same {β : Type*} (f : Pool τ → β) (h : f a = f (w.pool p)) :
    (fun p' => f ((w.setPool p a).pool p')) = fun p' => f (w.pool p') := by
  rw [field_setPool, h]
  exact Function.update_eq_self p fun p' => f (w.pool p')

/-- The counters of a pool and its chunks under `_tlsIdx` are of no account to the invariant. -/
lemma Inv.setPool (h : Inv n w e g) (hheld : a.held = (w.pool p).held)
    (hempty : a.emptyChunkManager = (w.pool p).emptyChunkManager)
    (htop : a.freeStackTop = (w.pool p).freeStackTop) (hcode : a.myCode = (w.pool p).myCode) :
    Inv n (w.setPool p a) e g := by
  have hcodes : ∀ p', ((w.setPool p a).pool p').myCode = (w.pool p').myCode :=
    congrFun (field_same Pool.myCode hcode)
  obtain ⟨hb, hc, hp⟩ := h
  refine ⟨⟨hb.chain, hb.top, hb.size, hb.inside, ?_, fun q => ?_, hb.created⟩,
    ⟨hc.chain, fun p' => ?_, hc.shared, ?_, hc.slot, hc.created, hc.full, hc.bare⟩,
    ⟨hp.owner, hp.pool, hp.secure, fun p' hp' => (hcodes p').trans (hp.code p' hp'), hp.room, hp.space⟩⟩
  · rw [field_same Pool.held hheld]
    exact hb.held
  · exact coded_same (hb.coded q) rfl rfl hcodes fun _ _ _ h => h
  · rw [hc.top p']
    exact (congrFun (field_same Pool.freeStackTop htop) p').symm
  · rw [field_same Pool.emptyChunkManager hempty]
    exact hc.empties

/-! ### Blocks that move -/

/-- A block that moves within its pool. -/
lemma owner_move {L : ℕ → List ℕ} {b : BlockAt} (h : (⟨L, g.shared, fun _ => b, g.cat⟩ : Layout τ).owner q =
    g.owner q) : (⟨L, g.shared, Function.update g.bat q b, g.cat⟩ : Layout τ).owner = g.owner := by
  funext z
  by_cases hz : z = q
  · rw [hz, ← h, Layout.owner, Layout.owner]
    dsimp only
    rw [Function.update_self]
  · rw [Layout.owner, Layout.owner]
    dsimp only
    rw [Function.update_of_ne hz]

/-- The chunks, when blocks move between a call and the chunks that calls take from and give to. -/
lemma Chunks.move {L : ℕ → List ℕ} {bat : ℕ → BlockAt} (h : Chunks n w e g)
    (h1 : w'.chunkNext = w.chunkNext) (h2 : w'.chunkCnt = w.chunkCnt)
    (h3 : ∀ p, (w'.pool p).freeStackTop = (w.pool p).freeStackTop)
    (h4 : ∀ p, (w'.pool p).emptyChunkManager = (w.pool p).emptyChunkManager)
    (hL : ∀ c, (g.cat c = .away ∨ ∃ p, g.cat c = .shared p ∨ g.cat c = .empty p) → L c = g.blocks c) :
    Chunks n w' e ⟨L, g.shared, bat, g.cat⟩ := by
  refine ⟨fun p => ?_, fun p => (h.top p).trans (h3 p).symm, h.shared, ?_, h.slot, fun c => ?_,
    fun c p hc => ?_, fun c hc => ?_⟩
  · rw [h1]
    exact h.chain p
  · rw [show (fun p => (w'.pool p).emptyChunkManager) = _ from funext h4]
    exact h.empties
  · rw [h2]
    exact h.created c
  · change (L c).length = n
    rw [hL c (.inr ⟨p, .inl hc⟩)]
    exact h.full c p hc
  · change L c = []
    rw [hL c (hc.imp_right fun ⟨p, hp⟩ => ⟨p, .inr hp⟩)]
    exact h.bare c hc

/-- The pools, when blocks move each within its own. -/
lemma Pools.same (h : Pools w g) (howner : g'.owner = g.owner)
    (hpool : ∀ c p, (g'.cat c).pool = some p → p < w.poolCnt) (h1 : w'.secureCode = w.secureCode)
    (h2 : w'.poolCnt = w.poolCnt) (h3 : w'.blockCnt = w.blockCnt)
    (h4 : ∀ p, (w'.pool p).myCode = (w.pool p).myCode) : Pools w' g' := by
  refine ⟨fun q p hq => ?_, fun c p hc => ?_, by rw [h1, h2, h.secure], fun p hp => ?_, h2 ▸ h.room, h3 ▸ h.space⟩
  · rw [h2]
    exact h.owner q p (howner ▸ hq)
  · rw [h2]
    exact hpool c p hc
  · rw [h4]
    exact h.code p (h2 ▸ hp)

/-- A chunk that `Push` and `Pop` may be called on. -/
def Open (g : Layout τ) (p c : ℕ) : Prop := g.cat c = .hand p ∨ ∃ t, g.cat c = .tls p t

lemma Open.pool (h : Open g p c) : (g.cat c).pool = some p := by
  obtain h | ⟨t, h⟩ := h <;> rw [h] <;> rfl

lemma Open.other (h : Open g p c) {z : ℕ} {x : List ℕ}
    (hz : g.cat z = .away ∨ ∃ p, g.cat z = .shared p ∨ g.cat z = .empty p) :
    Function.update g.blocks c x z = g.blocks z := by
  refine Function.update_of_ne ?_ _ _
  rintro rfl
  rcases h with h | ⟨t, h⟩ <;> rw [h] at hz <;> simp at hz

/-- A block that moves, and keeps its codes. -/
lemma coded_move {b : BlockAt} (hw : ∀ z, z ≠ q → w'.preCode z = w.preCode z ∧ w'.postCode z = w.postCode z)
    (hcode : ∀ p, (w'.pool p).myCode = (w.pool p).myCode) (h : ∀ z, Coded w g.cat z (g.bat z))
    (hb : Coded w' g.cat q b) (z : ℕ) : Coded w' g.cat z (Function.update g.bat q b z) := by
  by_cases hz : z = q
  · rw [hz, Function.update_self]
    exact hb
  · rw [Function.update_of_ne hz]
    exact coded_same (h z) (hw z hz).1 (hw z hz).2 hcode fun _ _ _ h => h

lemma created_move {b : BlockAt} (h : ∀ z, z < w.blockCnt ↔ g.bat z ≠ .away) (h0 : g.bat q ≠ .away)
    (hb : b ≠ .away) (z : ℕ) : z < w.blockCnt ↔ Function.update g.bat q b z ≠ .away := by
  rw [h z, not_iff_not]
  exact (moved rfl h0 hb z).symm

lemma chunk_inj : Function.Injective BlockAt.chunk := fun _ _ => BlockAt.chunk.inj

lemma held_inj : Function.Injective BlockAt.held := fun _ _ => BlockAt.held.inj

/-- `Chunk::Push`. -/
lemma Inv.push (h : Inv n w e g) (hc : Open g p c) (hq : g.bat q = .hand p) (hcode : NotInUse w p q) :
    Inv n (link c q w) e
    ⟨Function.update g.blocks c (q :: g.blocks c), g.shared, Function.update g.bat q (.chunk c), g.cat⟩ := by
  have hout : ∀ z, q ∉ g.blocks z := by
    intro z hm
    rw [h.blocks.inside.mem, hq] at hm
    exact nomatch hm
  have hrest : ∀ z, Chain (Function.update w.next q (w.chunkTop c)) (g.blocks z) := by
    refine fun z => (h.blocks.chain z).congr fun x hx => Function.update_of_ne ?_ _ _
    rintro rfl
    exact hout z hx
  have howner : (⟨Function.update g.blocks c (q :: g.blocks c), g.shared, Function.update g.bat q (.chunk c),
      g.cat⟩ : Layout τ).owner = g.owner := by
    refine owner_move ?_
    rw [Layout.owner, Layout.owner, hq]
    exact hc.pool
  unfold link
  refine ⟨⟨fun z => ?_, fun z => ?_, fun z => ?_, ?_, ?_, ?_, ?_⟩, ?_, ?_⟩
  · by_cases hz : z = c
    · rw [hz]
      dsimp only
      rw [Function.update_self]
      refine ⟨?_, hrest c⟩
      rw [Function.update_self, h.blocks.top c]
    · dsimp only
      rw [Function.update_of_ne hz]
      exact hrest z
  · by_cases hz : z = c
    · rw [hz]
      dsimp only
      rw [Function.update_self, Function.update_self]
      rfl
    · dsimp only
      rw [Function.update_of_ne hz, Function.update_of_ne hz]
      exact h.blocks.top z
  · by_cases hz : z = c
    · rw [hz]
      dsimp only
      rw [Function.update_self, Function.update_self, h.blocks.size c]
      rfl
    · dsimp only
      rw [Function.update_of_ne hz, Function.update_of_ne hz]
      exact h.blocks.size z
  · exact h.blocks.inside.put chunk_inj (fun i => by rw [hq]; exact nofun) c
  · exact h.blocks.held.other hq (by nofun) (by nofun)
  · exact coded_move (w := w) (fun _ _ => ⟨rfl, rfl⟩) (fun _ => rfl) h.blocks.coded
      fun p' hp' => Option.some.inj (hc.pool.symm.trans hp') ▸ ⟨hcode.pre, hcode.post⟩
  · exact created_move h.blocks.created (by rw [hq]; exact nofun) (by nofun)
  · exact h.chunks.move rfl rfl (fun _ => rfl) (fun _ => rfl) fun z hz => hc.other hz
  · exact h.pools.same howner h.pools.pool rfl rfl rfl fun _ => rfl

/-- `Chunk::Pop`. -/
lemma Inv.pop {l : List ℕ} (h : Inv n w e g) (hc : Open g p c) (hl : g.blocks c = q :: l) :
    Inv n (unlink c q w) e
    ⟨Function.update g.blocks c l, g.shared, Function.update g.bat q (.hand p), g.cat⟩ := by
  have hq : g.bat q = .chunk c := (h.blocks.inside.mem c q).mp (hl ▸ List.mem_cons_self)
  have hchain := h.blocks.chain c
  rw [hl] at hchain
  have howner : (⟨Function.update g.blocks c l, g.shared, Function.update g.bat q (.hand p), g.cat⟩ :
      Layout τ).owner = g.owner := by
    refine owner_move ?_
    rw [Layout.owner, Layout.owner, hq]
    exact hc.pool.symm
  unfold unlink
  refine ⟨⟨fun z => ?_, fun z => ?_, fun z => ?_, ?_, ?_, ?_, ?_⟩, ?_, ?_⟩
  · by_cases hz : z = c
    · rw [hz]
      dsimp only
      rw [Function.update_self]
      exact hchain.2
    · dsimp only
      rw [Function.update_of_ne hz]
      exact h.blocks.chain z
  · by_cases hz : z = c
    · rw [hz]
      dsimp only
      rw [Function.update_self, Function.update_self]
      exact hchain.1.symm
    · dsimp only
      rw [Function.update_of_ne hz, Function.update_of_ne hz]
      exact h.blocks.top z
  · by_cases hz : z = c
    · rw [hz]
      dsimp only
      rw [Function.update_self, Function.update_self, h.blocks.size c, hl]
      rfl
    · dsimp only
      rw [Function.update_of_ne hz, Function.update_of_ne hz]
      exact h.blocks.size z
  · exact h.blocks.inside.take chunk_inj hl (by nofun)
  · exact h.blocks.held.other hq (by nofun) (by nofun)
  · exact coded_move (w := w) (fun _ _ => ⟨rfl, rfl⟩) (fun _ => rfl) h.blocks.coded trivial
  · exact created_move h.blocks.created (by rw [hq]; exact nofun) (by nofun)
  · exact h.chunks.move rfl rfl (fun _ => rfl) (fun _ => rfl) fun z hz => hc.other hz
  · exact h.pools.same howner h.pools.pool rfl rfl rfl fun _ => rfl

/-- A block in the hands of a call is written to. -/
lemma Inv.code (h : Inv n w e g) (hq : g.bat q = .hand p) (x y : UInt64) : Inv n { w with
    preCode := Function.update w.preCode q x
    postCode := Function.update w.postCode q y } e g := by
  refine ⟨⟨h.blocks.chain, h.blocks.top, h.blocks.size, h.blocks.inside, h.blocks.held, fun z => ?_,
    h.blocks.created⟩, ?_, ?_⟩
  · by_cases hz : z = q
    · rw [hz, hq]
      trivial
    · exact coded_same (h.blocks.coded z) (Function.update_of_ne hz _ _) (Function.update_of_ne hz _ _)
        (fun _ => rfl) fun _ _ _ h => h
  · exact h.chunks.move rfl rfl (fun _ => rfl) (fun _ => rfl) fun z hz => rfl
  · exact h.pools.same rfl h.pools.pool rfl rfl rfl fun _ => rfl

/-- The code that says a block is in use is flipped, and the caller has the block or no longer has it. -/
lemma Inv.flip {b : BlockAt} {l : List ℕ} {w' : World τ} (h : Inv n w e g) (hw' : w' = { w with
      postCode := Function.update w.postCode q (~~~w.postCode q)
      pool := Function.update w.pool p { w.pool p with held := l } })
    (hown : (⟨g.blocks, g.shared, fun _ => b, g.cat⟩ : Layout τ).owner q = g.owner q)
    (h0 : g.bat q ≠ .away) (hb : b ≠ .away) (hchunk : ∀ c, g.bat q ≠ .chunk c ∧ b ≠ .chunk c)
    (hheld : Filed (Function.update (fun p => (w.pool p).held) p l) (Function.update g.bat q b) .held)
    (hcoded : Coded w' g.cat q b) : Inv n w' e ⟨g.blocks, g.shared, Function.update g.bat q b, g.cat⟩ := by
  have hfield : ∀ {β : Type} (f : Pool τ → β), f { w.pool p with held := l } = f (w.pool p) →
      ∀ p', f (w'.pool p') = f (w.pool p') := by
    intro β f hf p'
    rw [hw']
    exact congrFun (field_same f hf) p'
  refine ⟨⟨?_, ?_, ?_, h.blocks.inside.other rfl (fun c => (hchunk c).1) fun c => (hchunk c).2, ?_,
    coded_move (w := w) (fun z hz => ?_) (hfield Pool.myCode rfl) h.blocks.coded hcoded, ?_⟩, ?_, ?_⟩
  · rw [hw']
    exact h.blocks.chain
  · rw [hw']
    exact h.blocks.top
  · rw [hw']
    exact h.blocks.size
  · rw [hw']
    exact (field_setPool Pool.held w p _).symm ▸ hheld
  · rw [hw']
    exact ⟨rfl, Function.update_of_ne hz _ _⟩
  · rw [hw']
    exact created_move h.blocks.created h0 hb
  · refine h.chunks.move ?_ ?_ (hfield Pool.freeStackTop rfl) (hfield Pool.emptyChunkManager rfl) fun _ _ => rfl
    all_goals rw [hw']
  · refine h.pools.same (owner_move hown) h.pools.pool ?_ ?_ ?_ (hfield Pool.myCode rfl)
    all_goals rw [hw']

/-- The end of `Alloc`. -/
lemma Inv.handOut (h : Inv n w e g) (hq : g.bat q = .hand p) (hcode : NotInUse w p q) :
    Inv n (handOut p q w) e ⟨g.blocks, g.shared, Function.update g.bat q (.held p), g.cat⟩ := by
  refine h.flip rfl ?_ (by rw [hq]; exact nofun) (by nofun) (fun c => by rw [hq]; exact ⟨nofun, nofun⟩) ?_ ?_
  · rw [Layout.owner, Layout.owner, hq]
  · exact h.blocks.held.put held_inj (fun i => by rw [hq]; exact nofun) p
  · refine ⟨?_, ?_⟩ <;> unfold MemoryPoolTLS.handOut <;> dsimp only <;> rw [Function.update_self]
    · exact hcode.pre
    · rw [Function.update_self, hcode.post, UInt64.not_not]

/-- The beginning of `Free`. -/
lemma Inv.takeBack (h : Inv n w e g) (hq : g.bat q = .held p) :
    Inv n (takeBack p q w) e ⟨g.blocks, g.shared, Function.update g.bat q (.hand p), g.cat⟩ ∧
    NotInUse (MemoryPoolTLS.takeBack p q w) p q := by
  refine ⟨h.flip rfl ?_ (by rw [hq]; exact nofun) (by nofun) (fun c => by rw [hq]; exact ⟨nofun, nofun⟩) ?_
    trivial, ?_⟩
  · rw [Layout.owner, Layout.owner, hq]
  · exact h.blocks.held.erase held_inj ((h.blocks.held.mem p q).mpr hq) (by nofun)
  · have hcode := h.blocks.coded q
    rw [hq] at hcode
    refine ⟨?_, ?_⟩ <;> unfold MemoryPoolTLS.takeBack <;> dsimp only <;> rw [Function.update_self]
    · exact hcode.pre
    · rw [Function.update_self, hcode.post]

/-- An array of blocks is made. -/
lemma Inv.array (h : Inv n w e g) (hp : p < w.poolCnt) (hroom : w.blockCnt + n ≤ space) :
    Inv n { w with blockCnt := w.blockCnt + n } e
    ⟨g.blocks, g.shared, fun q => if q ∈ fresh n w then .hand p else g.bat q, g.cat⟩ := by
  have hold : ∀ q (b : BlockAt), b ≠ .away → (∀ p, b ≠ .hand p) →
      ((if q ∈ fresh n w then BlockAt.hand p else g.bat q) = b ↔ g.bat q = b) := by
    intro q b h0 h1
    split_ifs with hq
    · refine ⟨fun hb => absurd hb.symm (h1 p), fun hb => ?_⟩
      have := (h.blocks.created q).mpr (hb ▸ h0)
      rw [mem_fresh] at hq
      omega
    · exact Iff.rfl
  refine ⟨⟨h.blocks.chain, h.blocks.top, h.blocks.size, ⟨fun c q => ?_, h.blocks.inside.nodup⟩,
    ⟨fun p q => ?_, h.blocks.held.nodup⟩, fun q => ?_, fun q => ?_⟩,
    h.chunks.move rfl rfl (fun _ => rfl) (fun _ => rfl) fun _ _ => rfl,
    ⟨fun q p' hq => ?_, h.pools.pool, h.pools.secure, h.pools.code, h.pools.room, hroom⟩⟩
  · exact (h.blocks.inside.mem c q).trans (hold q _ (by nofun) (by nofun)).symm
  · exact (h.blocks.held.mem p q).trans (hold q _ (by nofun) (by nofun)).symm
  · dsimp only
    split_ifs
    · trivial
    · exact coded_same (h.blocks.coded q) rfl rfl (fun _ => rfl) fun _ _ _ h => h
  · change q < w.blockCnt + n ↔ _
    dsimp only
    split_ifs with hq
    · rw [mem_fresh] at hq
      exact ⟨fun _ => nofun, fun _ => hq.2⟩
    · rw [← h.blocks.created q]
      rw [mem_fresh] at hq
      omega
  · rw [Layout.owner] at hq
    dsimp only at hq
    split_ifs at hq with hz
    · exact Option.some.inj hq ▸ hp
    · exact h.pools.owner q p' hq

/-! ### Chunks that move -/

/-- The blocks, when a chunk moves within its pool. -/
lemma owner_chunk {S : ℕ → List ℕ} {C : ℕ → ChunkAt τ} (h : Blocks w g)
    (hcat : ∀ c, g.blocks c ≠ [] → (C c).pool = (g.cat c).pool) :
    (⟨g.blocks, S, g.bat, C⟩ : Layout τ).owner = g.owner := by
  funext q
  rw [Layout.owner, Layout.owner]
  dsimp only
  split
  next => rfl
  next => rfl
  next => rfl
  next c hq => exact hcat c (List.ne_nil_of_mem ((h.inside.mem c q).mpr hq))

lemma Blocks.move {S : ℕ → List ℕ} {cat' : ℕ → ChunkAt τ} {cn : ℕ → Option ℕ} {k : ℕ} (h : Blocks w g)
    (hw' : w' = { w with chunkNext := cn, pool := Function.update w.pool p a, chunkCnt := k })
    (hheld : a.held = (w.pool p).held) (hcode : a.myCode = (w.pool p).myCode)
    (hcat : ∀ c, g.blocks c ≠ [] → (cat' c).pool = (g.cat c).pool) :
    Blocks w' ⟨g.blocks, S, g.bat, cat'⟩ := by
  subst hw'
  refine ⟨h.chain, h.top, h.size, h.inside, ?_, fun q => ?_, h.created⟩
  · exact (field_same Pool.held hheld).symm ▸ h.held
  · refine coded_same (h.coded q) rfl rfl (congrFun (field_same Pool.myCode hcode)) fun c p hq hc => ?_
    rwa [← hcat c (List.ne_nil_of_mem ((h.inside.mem c q).mpr hq))]

/-- The chunks, when one of them has moved. -/
lemma chunks_after {P : ChunkAt τ} {S : ℕ → List ℕ} (h : Chunks n w e g) (hO : g.cat c ≠ .away)
    (hP : P ≠ .away) (hcnt : w'.chunkCnt = w.chunkCnt) (hfull : ∀ p, P = .shared p → (g.blocks c).length = n)
    (hbare : ∀ p, P = .empty p → g.blocks c = []) (hchain : ∀ p, Chain w'.chunkNext (S p))
    (htop : ∀ p, (S p).head? = (w'.pool p).freeStackTop)
    (hshared : Filed S (Function.update g.cat c P) .shared)
    (hempties : Filed (fun p => (w'.pool p).emptyChunkManager) (Function.update g.cat c P) .empty)
    (hslot : ∀ p t z, e' (p, t) = some z ↔ Function.update g.cat c P z = .tls p t) :
    Chunks n w' e' ⟨g.blocks, S, g.bat, Function.update g.cat c P⟩ := by
  refine ⟨hchain, htop, hshared, hempties, hslot, fun z => ?_, fun z p hz => ?_, fun z hz => ?_⟩
  · rw [hcnt, h.created z, not_iff_not]
    exact (moved rfl hO hP z).symm
  · by_cases hzc : z = c
    · rw [hzc]
      rw [hzc] at hz
      dsimp only at hz
      rw [Function.update_self] at hz
      exact hfull p hz
    · dsimp only at hz
      rw [Function.update_of_ne hzc] at hz
      exact h.full z p hz
  · by_cases hzc : z = c
    · rw [hzc] at hz ⊢
      dsimp only at hz
      rw [Function.update_self] at hz
      obtain ⟨p, hp⟩ := hz.resolve_left hP
      exact hbare p hp
    · dsimp only at hz
      rw [Function.update_of_ne hzc] at hz
      exact h.bare z hz

/-- The invariant, when a chunk has moved within its pool. -/
lemma Inv.moved {P : ChunkAt τ} {S : ℕ → List ℕ} {N : ℕ → Option ℕ} (h : Inv n w e g)
    (hw' : w' = { w with chunkNext := N, pool := Function.update w.pool p a })
    (hheld : a.held = (w.pool p).held) (hcode : a.myCode = (w.pool p).myCode)
    (hO : (g.cat c).pool = some p) (hP : P.pool = some p)
    (hchunks : Chunks n w' e' ⟨g.blocks, S, g.bat, Function.update g.cat c P⟩) :
    Inv n w' e' ⟨g.blocks, S, g.bat, Function.update g.cat c P⟩ ∧
    (⟨g.blocks, S, g.bat, Function.update g.cat c P⟩ : Layout τ).owner = g.owner := by
  have hcat : ∀ z, (Function.update g.cat c P z).pool = (g.cat z).pool := by
    intro z
    by_cases hz : z = c
    · rw [hz, Function.update_self, hO, hP]
    · rw [Function.update_of_ne hz]
  have howner := owner_chunk (S := S) h.blocks (C := Function.update g.cat c P) fun z _ => hcat z
  refine ⟨⟨h.blocks.move hw' hheld hcode fun z _ => hcat z, hchunks, ?_⟩, howner⟩
  refine h.pools.same howner (fun z p hz => h.pools.pool z p ((hcat z).symm.trans hz)) ?_ ?_ ?_ ?_
  · rw [hw']
  · rw [hw']
  · rw [hw']
  · rw [hw']
    exact congrFun (field_same Pool.myCode hcode)

lemma shared_inj : Function.Injective (ChunkAt.shared : ℕ → ChunkAt τ) := fun _ _ => ChunkAt.shared.inj

lemma empty_inj : Function.Injective (ChunkAt.empty : ℕ → ChunkAt τ) := fun _ _ => ChunkAt.empty.inj

/-- `Push` of a full chunk. -/
lemma Inv.pushChunk (h : Inv n w e g) (hc : g.cat c = .hand p) (hn : (g.blocks c).length = n) :
    Inv n (pushChunk p c w) e ⟨g.blocks, Function.update g.shared p (c :: g.shared p), g.bat,
      Function.update g.cat c (.shared p)⟩ ∧
    (⟨g.blocks, Function.update g.shared p (c :: g.shared p), g.bat, Function.update g.cat c (.shared p)⟩ :
      Layout τ).owner = g.owner := by
  have hrest : ∀ i, Chain (Function.update w.chunkNext c (w.pool p).freeStackTop) (g.shared i) := by
    refine fun i => (h.chunks.chain i).congr fun x hx => Function.update_of_ne ?_ _ _
    rintro rfl
    rw [h.chunks.shared.mem, hc] at hx
    exact nomatch hx
  refine h.moved rfl rfl rfl (by rw [hc]; rfl) rfl (chunks_after h.chunks (by rw [hc]; exact nofun) (by nofun) rfl
    (fun _ _ => hn) (by nofun) (fun i => ?_) (fun i => ?_) ?_ ?_ fun i t z => ?_)
  · change Chain (Function.update w.chunkNext c (w.pool p).freeStackTop) _
    by_cases hi : i = p
    · rw [hi, Function.update_self]
      refine ⟨?_, hrest p⟩
      rw [Function.update_self, h.chunks.top p]
    · rw [Function.update_of_ne hi]
      exact hrest i
  · change _ = (Function.update w.pool p _ i).freeStackTop
    by_cases hi : i = p
    · rw [hi, Function.update_self, Function.update_self]
      rfl
    · rw [Function.update_of_ne hi, Function.update_of_ne hi]
      exact h.chunks.top i
  · exact h.chunks.shared.put shared_inj (fun i => by rw [hc]; exact nofun) p
  · exact (h.chunks.empties.other hc (by nofun) (by nofun)).congr
      (congrFun (field_same (w := w) Pool.emptyChunkManager (by rfl)))
  · exact (h.chunks.slot i t z).trans (Places.moved hc (by nofun) (by nofun) z).symm

/-- `Pop`. -/
lemma Inv.popChunk {l : List ℕ} (h : Inv n w e g) (hl : g.shared p = c :: l) :
    Inv n (w.setPool p { w.pool p with freeStackTop := w.chunkNext c }) e
      ⟨g.blocks, Function.update g.shared p l, g.bat, Function.update g.cat c (.hand p)⟩ ∧
    (⟨g.blocks, Function.update g.shared p l, g.bat, Function.update g.cat c (.hand p)⟩ :
      Layout τ).owner = g.owner := by
  have hc : g.cat c = .shared p := (h.chunks.shared.mem p c).mp (hl ▸ List.mem_cons_self)
  have hchain := h.chunks.chain p
  rw [hl] at hchain
  refine h.moved rfl rfl rfl (by rw [hc]; rfl) rfl (chunks_after h.chunks (by rw [hc]; exact nofun) (by nofun) rfl
    (by nofun) (by nofun) (fun i => ?_) (fun i => ?_) ?_ ?_ fun i t z => ?_)
  · by_cases hi : i = p
    · rw [hi, Function.update_self]
      exact hchain.2
    · rw [Function.update_of_ne hi]
      exact h.chunks.chain i
  · change _ = (Function.update w.pool p _ i).freeStackTop
    by_cases hi : i = p
    · rw [hi, Function.update_self, Function.update_self]
      exact hchain.1.symm
    · rw [Function.update_of_ne hi, Function.update_of_ne hi]
      exact h.chunks.top i
  · exact h.chunks.shared.take shared_inj hl (by nofun)
  · exact (h.chunks.empties.other hc (by nofun) (by nofun)).congr
      (congrFun (field_same (w := w) Pool.emptyChunkManager (by rfl)))
  · exact (h.chunks.slot i t z).trans (Places.moved hc (by nofun) (by nofun) z).symm

/-- A chunk goes to the empty ones. -/
lemma Inv.managerFree (h : Inv n w e g) (hc : g.cat c = .hand p) (hbare : g.blocks c = []) :
    Inv n (managerFree p c w) e ⟨g.blocks, g.shared, g.bat, Function.update g.cat c (.empty p)⟩ ∧
    (⟨g.blocks, g.shared, g.bat, Function.update g.cat c (.empty p)⟩ : Layout τ).owner = g.owner := by
  refine h.moved rfl rfl rfl (by rw [hc]; rfl) rfl (chunks_after h.chunks (by rw [hc]; exact nofun) (by nofun) rfl
    (by nofun) (fun _ _ => hbare) h.chunks.chain (fun i => ?_) (h.chunks.shared.other hc (by nofun) (by nofun)) ?_
    fun i t z => (h.chunks.slot i t z).trans (Places.moved hc (by nofun) (by nofun) z).symm)
  · exact (h.chunks.top i).trans (congrFun (field_same (w := w) Pool.freeStackTop (by rfl)) i).symm
  · exact (field_setPool Pool.emptyChunkManager w p _).symm ▸
      h.chunks.empties.put empty_inj (fun i => by rw [hc]; exact nofun) p

/-- A chunk is taken from the empty ones. -/
lemma Inv.reuse {l : List ℕ} (h : Inv n w e g) (hl : (w.pool p).emptyChunkManager = c :: l) :
    Inv n (w.setPool p { w.pool p with emptyChunkManager := l }) e
      ⟨g.blocks, g.shared, g.bat, Function.update g.cat c (.hand p)⟩ ∧
    (⟨g.blocks, g.shared, g.bat, Function.update g.cat c (.hand p)⟩ : Layout τ).owner = g.owner := by
  have hc : g.cat c = .empty p := (h.chunks.empties.mem p c).mp (hl ▸ List.mem_cons_self)
  refine h.moved rfl rfl rfl (by rw [hc]; rfl) rfl (chunks_after h.chunks (by rw [hc]; exact nofun) (by nofun) rfl
    (by nofun) (by nofun) h.chunks.chain (fun i => ?_) (h.chunks.shared.other hc (by nofun) (by nofun)) ?_
    fun i t z => (h.chunks.slot i t z).trans (Places.moved hc (by nofun) (by nofun) z).symm)
  · exact (h.chunks.top i).trans (congrFun (field_same (w := w) Pool.freeStackTop (by rfl)) i).symm
  · exact (field_setPool Pool.emptyChunkManager w p _).symm ▸ h.chunks.empties.take empty_inj hl (by nofun)

/-- A chunk is made. -/
lemma Inv.newChunk (h : Inv n w e g) (hp : p < w.poolCnt) :
    Inv n (newChunk w) e ⟨g.blocks, g.shared, g.bat, Function.update g.cat w.chunkCnt (.hand p)⟩ ∧
    (⟨g.blocks, g.shared, g.bat, Function.update g.cat w.chunkCnt (.hand p)⟩ : Layout τ).owner = g.owner := by
  have hc : g.cat w.chunkCnt = .away := not_not.mp fun hne =>
    absurd ((h.chunks.created _).mpr hne) (Nat.lt_irrefl _)
  have hbare : g.blocks w.chunkCnt = [] := h.chunks.bare _ (.inl hc)
  have hcat : ∀ z, g.blocks z ≠ [] → (Function.update g.cat w.chunkCnt (.hand p) z).pool = (g.cat z).pool := by
    intro z hz
    rw [Function.update_of_ne]
    rintro rfl
    exact hz hbare
  have howner := owner_chunk (S := g.shared) h.blocks hcat
  refine ⟨⟨⟨h.blocks.chain, fun z => ?_, fun z => ?_, h.blocks.inside, h.blocks.held, fun q => ?_,
    h.blocks.created⟩, ⟨fun i => ?_, h.chunks.top, h.chunks.shared.other hc (by nofun) (by nofun),
    h.chunks.empties.other hc (by nofun) (by nofun), fun i t z => ?_, fun z => ?_, fun z i hz => ?_,
    fun z hz => ?_⟩, ?_⟩, howner⟩
  · change _ = Function.update w.chunkTop w.chunkCnt none z
    by_cases hz : z = w.chunkCnt
    · rw [hz, Function.update_self]
      dsimp only
      rw [hbare]
      rfl
    · rw [Function.update_of_ne hz]
      exact h.blocks.top z
  · change Function.update w.size w.chunkCnt 0 z = _
    by_cases hz : z = w.chunkCnt
    · rw [hz, Function.update_self]
      dsimp only
      rw [hbare]
      rfl
    · rw [Function.update_of_ne hz]
      exact h.blocks.size z
  · refine coded_same (h.blocks.coded q) rfl rfl (fun _ => rfl) fun c p hq hc => ?_
    rwa [← hcat c (List.ne_nil_of_mem ((h.blocks.inside.mem c q).mpr hq))]
  · refine (h.chunks.chain i).congr fun x hx => Function.update_of_ne ?_ _ _
    rintro rfl
    rw [h.chunks.shared.mem, hc] at hx
    exact nomatch hx
  · exact (h.chunks.slot i t z).trans (Places.moved hc (by nofun) (by nofun) z).symm
  · change z < w.chunkCnt + 1 ↔ _
    dsimp only
    by_cases hz : z = w.chunkCnt
    · rw [hz, Function.update_self]
      exact ⟨fun _ => nofun, fun _ => Nat.lt_succ_self _⟩
    · rw [Function.update_of_ne hz, ← h.chunks.created z]
      omega
  · exact h.chunks.full z i ((Places.moved hc (by nofun) (by nofun) z).mp hz)
  · by_cases hzc : z = w.chunkCnt
    · rw [hzc]
      exact hbare
    · dsimp only at hz
      rw [Function.update_of_ne hzc] at hz
      exact h.chunks.bare z hz
  · refine h.pools.same howner (fun z i hz => ?_) rfl rfl rfl fun _ => rfl
    by_cases hzc : z = w.chunkCnt
    · rw [hzc] at hz
      dsimp only at hz
      rw [Function.update_self] at hz
      exact Option.some.inj hz ▸ hp
    · dsimp only at hz
      rw [Function.update_of_ne hzc] at hz
      exact h.pools.pool z i hz

/-- A thread takes a chunk for its own. -/
lemma Inv.own (h : Inv n w e g) (hc : g.cat c = .hand p) (he : e (p, t) = none) [DecidableEq τ] :
    Inv n w (Function.update e (p, t) (some c)) ⟨g.blocks, g.shared, g.bat, Function.update g.cat c (.tls p t)⟩ ∧
    (⟨g.blocks, g.shared, g.bat, Function.update g.cat c (.tls p t)⟩ : Layout τ).owner = g.owner := by
  refine h.moved (p := p) (a := w.pool p) (N := w.chunkNext) ?_ rfl rfl (by rw [hc]; rfl) rfl (chunks_after h.chunks
    (by rw [hc]; exact nofun) (by nofun) rfl (by nofun) (by nofun) h.chunks.chain h.chunks.top
    (h.chunks.shared.other hc (by nofun) (by nofun)) (h.chunks.empties.other hc (by nofun) (by nofun))
    fun i u z => ?_)
  · rw [Function.update_eq_self]
  · by_cases hi : (i, u) = (p, t)
    · obtain ⟨rfl, rfl⟩ := Prod.mk.inj hi
      rw [Function.update_self, arrived, ← h.chunks.slot i u z, he, Option.some.injEq, eq_comm]
      exact (or_iff_left nofun).symm
    · rw [Function.update_of_ne hi, h.chunks.slot i u z]
      refine (Places.moved hc (by nofun) (fun hb => hi ?_) z).symm
      obtain ⟨rfl, rfl⟩ := ChunkAt.tls.inj hb
      rfl

/-- A thread gives up the chunk that was its own. -/
lemma Inv.disown (h : Inv n w e g) (hc : g.cat c = .tls p t) [DecidableEq τ] :
    Inv n w (Function.update e (p, t) none) ⟨g.blocks, g.shared, g.bat, Function.update g.cat c (.hand p)⟩ ∧
    (⟨g.blocks, g.shared, g.bat, Function.update g.cat c (.hand p)⟩ : Layout τ).owner = g.owner := by
  have he := (h.chunks.slot p t c).mpr hc
  refine h.moved (p := p) (a := w.pool p) (N := w.chunkNext) ?_ rfl rfl (by rw [hc]; rfl) rfl (chunks_after h.chunks
    (by rw [hc]; exact nofun) (by nofun) rfl (by nofun) (by nofun) h.chunks.chain h.chunks.top
    (h.chunks.shared.other hc (by nofun) (by nofun)) (h.chunks.empties.other hc (by nofun) (by nofun))
    fun i u z => ?_)
  · rw [Function.update_eq_self]
  · by_cases hi : (i, u) = (p, t)
    · obtain ⟨rfl, rfl⟩ := Prod.mk.inj hi
      rw [Function.update_self, departed (by nofun), ← h.chunks.slot i u z, he, Option.some.injEq]
      exact ⟨fun hb => (nomatch hb), fun hb => absurd hb.2.symm hb.1⟩
    · rw [Function.update_of_ne hi, h.chunks.slot i u z]
      refine (Places.moved hc (fun hb => hi ?_) (by nofun) z).symm
      obtain ⟨rfl, rfl⟩ := ChunkAt.tls.inj hb
      rfl

end LoginServerChat.ChunkInv
