import LoginServerChat.MemoryPool

/-!
The invariant of `MemoryPool`. Each block that has been created is in one place: on the free chain, in
the hands of one caller, or with one call; and its two codes say which.
-/

namespace LoginServerChat.PoolInv

open LinkedChain MemoryPool Places Runs StaleReads

variable {τ : Type*}

/-- Where a block is. -/
inductive Place (τ : Type*)
  | away
  | chain
  | held (t : τ)
  | transit (t : τ)

/-- Where the `_next` of a block leads. -/
def leads (m : Mem) (q : ℕ) : Option ℕ := link (m.next q)

/-- The codes of a block that is in use, and of one that is not. -/
structure InUse (b : Boot) (m : Mem) (q : ℕ) : Prop where
  pre : m.preCode q = b.myCode
  post : m.postCode q = b.myCode

structure NotInUse (b : Boot) (m : Mem) (q : ℕ) : Prop where
  pre : m.preCode q = b.myCode
  post : m.postCode q = ~~~b.myCode

/-- What holds of the memory when a call is at a point. -/
def At (b : Boot) (m : Mem) (c : List ℕ) : Pc → Prop
  | .popNext w v => Seen c m.pops v (addr w) ∧ tag w = v % 2 ^ 17
  | .popCas w y v => Read (leads m) c m.pops v (addr w) (link y) ∧ tag w = v % 2 ^ 17
  | .readPost q | .decUse q | .pushLoad q | .pushNext q _ => NotInUse b m q
  | .flipPost q code => m.preCode q = b.myCode ∧ code = ~~~b.myCode
  | .setPost q => m.preCode q = b.myCode
  | .incTotal q | .setNext q | .incUse q | .freePre q | .freeCode q | .readFree q => InUse b m q
  | .freePost q pre => InUse b m q ∧ pre = b.myCode
  | .flipFree q code => m.preCode q = b.myCode ∧ code = b.myCode
  | .pushCas q w => NotInUse b m q ∧ m.next q = addr w
  | _ => True

/-- What the codes of a block say of where it is. -/
def Coded (b : Boot) (m : Mem) (q : ℕ) : Place τ → Prop
  | .chain => NotInUse b m q
  | .held _ => InUse b m q
  | _ => True

/-- The free chain `c`, and where the blocks are. -/
structure Inv (b : Boot) (s : Pool τ) (c : List ℕ) (pl : ℕ → Place τ) : Prop where
  chain : Chain (leads s.mem) c
  top : c.head? = link (addr s.mem.freeStackTop)
  word : s.mem.freeStackTop < 2 ^ 64
  tag : tag s.mem.freeStackTop = s.mem.pops % 2 ^ 17
  nodup : c.Nodup
  onChain : ∀ q, q ∈ c ↔ pl q = .chain
  held : ∀ t q, q ∈ s.holds t ↔ pl q = .held t
  once : ∀ t, (s.holds t).Nodup
  transit : ∀ t q, (s.pc t).transit = some q ↔ pl q = .transit t
  created : ∀ q, s.mem.created q = true ↔ pl q ≠ .away
  range : ∀ q, s.mem.created q = true → 0 < q ∧ q < 2 ^ 47
  codes : ∀ q, Coded b s.mem q (pl q)
  at' : ∀ t, At b s.mem c (s.pc t)

/-! ### What another call has read -/

/-- What a step leaves to the call of another thread. -/
structure Carries (m m' : Mem) (c c' : List ℕ) (p : Pc) : Prop where
  own : ∀ q, p.transit = some q →
    m'.next q = m.next q ∧ m'.preCode q = m.preCode q ∧ m'.postCode q = m.postCode q
  grows : Grows (leads m) (leads m') c c' m.pops m'.pops

variable {b : Boot} {m m' : Mem} {c c' : List ℕ} {p p' : Pc} {q y w v : ℕ}

lemma InUse.same (h : InUse b m q) (h1 : m'.preCode q = m.preCode q) (h2 : m'.postCode q = m.postCode q) :
    InUse b m' q := ⟨h1.trans h.pre, h2.trans h.post⟩

lemma NotInUse.same (h : NotInUse b m q) (h1 : m'.preCode q = m.preCode q)
    (h2 : m'.postCode q = m.postCode q) : NotInUse b m' q := ⟨h1.trans h.pre, h2.trans h.post⟩

lemma At.carry (h : At b m c p) (hC : Carries m m' c c' p) : At b m' c' p := by
  cases p
  case popNext w v => exact ⟨h.1.grow hC.grows, h.2⟩
  case popCas w y v => exact ⟨h.1.grow hC.grows, h.2⟩
  case flipPost q code => exact ⟨(hC.own q rfl).2.1.trans h.1, h.2⟩
  case setPost q => exact (hC.own q rfl).2.1.trans h
  case flipFree q code => exact ⟨(hC.own q rfl).2.1.trans h.1, h.2⟩
  case freePost q pre => exact ⟨h.1.same (hC.own q rfl).2.1 (hC.own q rfl).2.2, h.2⟩
  case pushCas q w =>
    obtain ⟨h1, h2, h3⟩ := hC.own q rfl
    exact ⟨h.1.same h2 h3, h1.trans h.2⟩
  case readPost q | decUse q | pushLoad q | pushNext q w =>
    exact NotInUse.same h (hC.own q rfl).2.1 (hC.own q rfl).2.2
  case incTotal q | setNext q | incUse q | freePre q | freeCode q | readFree q =>
    exact InUse.same h (hC.own q rfl).2.1 (hC.own q rfl).2.2
  all_goals trivial

/-! ### The state after a step -/

variable [DecidableEq τ] {s : Pool τ} {t : τ} {pl pl' : ℕ → Place τ} {holds' : τ → List ℕ}

/-- The pool after a step of thread `t`. -/
def after (s : Pool τ) (t : τ) (m' : Mem) (p' : Pc) (holds' : τ → List ℕ) : Pool τ :=
  ⟨m', Function.update s.pc t p', holds'⟩

lemma pc_self : (after s t m' p' holds').pc t = p' := Function.update_self _ _ _

lemma pc_other {u : τ} (hu : u ≠ t) : (after s t m' p' holds').pc u = s.pc u :=
  Function.update_of_ne hu _ _

/-- What a step writes of the blocks, and what it does to the chain. -/
structure Writes (m m' : Mem) (c c' : List ℕ) (pl : ℕ → Place τ) (t : τ) : Prop where
  outside : ∀ q, pl q ≠ .transit t →
    m'.next q = m.next q ∧ m'.preCode q = m.preCode q ∧ m'.postCode q = m.postCode q
  grows : Grows (leads m) (leads m') c c' m.pops m'.pops

/-- What a step does to the blocks that callers hold. -/
structure Holding (s : Pool τ) (holds' : τ → List ℕ) (pl' : ℕ → Place τ) : Prop where
  held : ∀ u q, q ∈ holds' u ↔ pl' q = .held u
  once : ∀ u, (holds' u).Nodup

/-- The chain after a step. -/
structure Chained (m' : Mem) (c' : List ℕ) (pl' : ℕ → Place τ) : Prop where
  chain : Chain (leads m') c'
  top : c'.head? = link (addr m'.freeStackTop)
  word : m'.freeStackTop < 2 ^ 64
  tag : MemoryPool.tag m'.freeStackTop = m'.pops % 2 ^ 17
  nodup : c'.Nodup
  onChain : ∀ q, q ∈ c' ↔ pl' q = .chain

/-- The invariant after a step of thread `t`, from what it does to the chain, to the blocks that are
held and to that thread. -/
lemma inv_after (hI : Inv b s c pl) (hw : Writes s.mem m' c c' pl t)
    (hpl : ∀ u ≠ t, ∀ q, pl' q = .transit u ↔ pl q = .transit u) (hchain : Chained m' c' pl')
    (hhold : Holding s holds' pl') (htransit : ∀ q, p'.transit = some q ↔ pl' q = .transit t)
    (hcreated : ∀ q, m'.created q = true ↔ pl' q ≠ .away)
    (hrange : ∀ q, m'.created q = true → 0 < q ∧ q < 2 ^ 47) (hcodes : ∀ q, Coded b m' q (pl' q))
    (hat : At b m' c' p') : Inv b (after s t m' p' holds') c' pl' := by
  refine ⟨hchain.chain, hchain.top, hchain.word, hchain.tag, hchain.nodup, hchain.onChain, hhold.held,
    hhold.once, fun u q => ?_, hcreated, hrange, hcodes, fun u => ?_⟩
  · by_cases hu : u = t
    · rw [hu, pc_self]
      exact htransit q
    · rw [pc_other hu]
      exact (hI.transit u q).trans (hpl u hu q).symm
  · by_cases hu : u = t
    · rw [hu, pc_self]
      exact hat
    · rw [pc_other hu]
      refine (hI.at' u).carry ⟨fun q hq => hw.outside q fun h => hu ?_, hw.grows⟩
      rw [(hI.transit u q).mp hq] at h
      exact Place.transit.inj h

/-! ### The steps -/

omit [DecidableEq τ] in
/-- What is written of a block that a call is working on leaves the chain as it is. -/
lemma chained_same (hI : Inv b s c pl) (htop : m'.freeStackTop = s.mem.freeStackTop)
    (hpops : m'.pops = s.mem.pops) (hnext : ∀ q, pl q ≠ .transit t → m'.next q = s.mem.next q) :
    Chained m' c pl := by
  refine ⟨hI.chain.congr fun q hq => ?_, htop ▸ hI.top, htop ▸ hI.word, ?_, hI.nodup, hI.onChain⟩
  · rw [leads, leads, hnext q (by rw [(hI.onChain q).mp hq]; exact nofun)]
  · rw [htop, hpops]
    exact hI.tag

/-- The blocks stay where they are. -/
lemma inv_stay (hI : Inv b s c pl) (htop : m'.freeStackTop = s.mem.freeStackTop)
    (hpops : m'.pops = s.mem.pops) (hcreated : m'.created = s.mem.created)
    (hout : ∀ q, pl q ≠ .transit t →
      m'.next q = s.mem.next q ∧ m'.preCode q = s.mem.preCode q ∧ m'.postCode q = s.mem.postCode q)
    (htr : p'.transit = (s.pc t).transit) (hat : At b m' c p') : Inv b (after s t m' p' s.holds) c pl := by
  refine inv_after hI ⟨hout, ?_⟩ (fun _ _ _ => Iff.rfl)
    (chained_same hI htop hpops fun q hq => (hout q hq).1) ⟨hI.held, hI.once⟩ (fun q => htr ▸ hI.transit t q)
    (fun q => hcreated ▸ hI.created q) (fun q => hcreated ▸ hI.range q) (fun q => ?_) hat
  · rw [hpops]
    refine .rest fun q hq => ?_
    rw [leads, leads, (hout q (by rw [(hI.onChain q).mp hq]; exact nofun)).1]
  · have hq := hI.codes q
    match hp : pl q with
    | .away | .transit _ => trivial
    | .chain =>
      rw [hp] at hq
      exact NotInUse.same hq (hout q (by rw [hp]; exact nofun)).2.1 (hout q (by rw [hp]; exact nofun)).2.2
    | .held u =>
      rw [hp] at hq
      exact InUse.same hq (hout q (by rw [hp]; exact nofun)).2.1 (hout q (by rw [hp]; exact nofun)).2.2

omit [DecidableEq τ] in
/-- The block of a call that had none. -/
lemma transit_own (hI : Inv b s c pl) (h0 : (s.pc t).transit = none) (h1 : p'.transit = some q) (z : ℕ) :
    p'.transit = some z ↔ Function.update pl q (.transit t) z = .transit t := by
  have hno : pl z ≠ .transit t := by
    rw [ne_eq, ← hI.transit, h0]
    exact nofun
  rw [arrived, h1, Option.some.injEq, eq_comm]
  exact (or_iff_left hno).symm

omit [DecidableEq τ] in
/-- The block of a call that has given its own away. -/
lemma transit_none (hI : Inv b s c pl) (h0 : (s.pc t).transit = some q) (h1 : p'.transit = none) {P : Place τ}
    (hP : P ≠ .transit t) (z : ℕ) : p'.transit = some z ↔ Function.update pl q P z = .transit t := by
  rw [departed hP, h1, ← hI.transit, h0, Option.some.injEq]
  exact ⟨fun h => (nomatch h), fun h => absurd h.2.symm h.1⟩

omit [DecidableEq τ] in
/-- What moves between places other than `away` stays created. -/
lemma created_move (hI : Inv b s c pl) {P : Place τ} (h0 : pl q ≠ .away) (hP : P ≠ .away) (z : ℕ) :
    s.mem.created z = true ↔ Function.update pl q P z ≠ .away := by
  rw [hI.created z, not_iff_not]
  exact (moved rfl h0 hP z).symm

omit [DecidableEq τ] in
/-- The codes of the blocks that do not move. -/
lemma codes_move (hI : Inv b s c pl) {P : Place τ} (hpre : m'.preCode = s.mem.preCode)
    (hpost : m'.postCode = s.mem.postCode) (hq : Coded b s.mem q P) (z : ℕ) :
    Coded b m' z (Function.update pl q P z) := by
  have hsame : ∀ z (Q : Place τ), Coded b s.mem z Q → Coded b m' z Q := by
    intro z Q h
    cases Q with
    | away | transit _ => trivial
    | chain => exact NotInUse.same h (by rw [hpre]) (by rw [hpost])
    | held _ => exact InUse.same h (by rw [hpre]) (by rw [hpost])
  apply hsame
  by_cases hz : z = q
  · rw [hz, Function.update_self]
    exact hq
  · rw [Function.update_of_ne hz]
    exact hI.codes z

omit [DecidableEq τ] in
/-- The blocks of the callers, when one of another kind moves. -/
lemma holding_move (hI : Inv b s c pl) {O P : Place τ} (hO : pl q = O) (h0 : ∀ u, O ≠ .held u)
    (hP : ∀ u, P ≠ .held u) : Holding s s.holds (Function.update pl q P) :=
  ⟨fun u z => (hI.held u z).trans (moved hO (h0 u) (hP u) z).symm, hI.once⟩

end LoginServerChat.PoolInv
