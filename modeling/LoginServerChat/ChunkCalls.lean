import LoginServerChat.ChunkInv

/-!
What the calls of `MemoryPoolTLS` do to the layout of its blocks and chunks.
-/

namespace LoginServerChat.ChunkCalls

open ChunkInv MemoryPoolTLS Places

variable {τ : Type*} {n p c q : ℕ} {w w' w'' : World τ} {e : ℕ × τ → Option ℕ} {g g' : Layout τ} {t : τ}
  {a : Pool τ}

/-! ### The parts of the calls -/

/-- What the threads have stored. -/
def slots (w : World τ) (a : ℕ × τ) : Option ℕ := (w.pool a.1).tls a.2

lemma slots_setPool (h : a.tls = (w.pool p).tls) : slots (w.setPool p a) = slots w :=
  funext fun b => congrFun (congrFun (field_same Pool.tls h) b.1) b.2

/-- The counters are left as they are. -/
structure Keeps (w w' : World τ) : Prop where
  total : ∀ p, (w'.pool p).totalChunk = (w.pool p).totalChunk
  use : ∀ p, (w'.pool p).useChunk = (w.pool p).useChunk
  blockCnt : w'.blockCnt = w.blockCnt
  poolCnt : w'.poolCnt = w.poolCnt

lemma Keeps.setPool (h1 : a.totalChunk = (w.pool p).totalChunk) (h2 : a.useChunk = (w.pool p).useChunk) :
    Keeps w (w.setPool p a) :=
  ⟨congrFun (field_same Pool.totalChunk h1), congrFun (field_same Pool.useChunk h2), rfl, rfl⟩

lemma book_keeps (h : Book n w g p) (hk : Keeps w w') (howner : g'.owner = g.owner)
    (hshared : (g'.shared p).length = (g.shared p).length) : Book n w' g' p := by
  obtain ⟨N, h1, h2, h3⟩ := h
  refine ⟨N, ?_, by rw [hk.total, h2], by rw [hk.total, hk.use, hshared, h3]⟩
  rw [howner, hk.blockCnt, h1]

/-- The invariant between the calls, and within one that has no block in its hands. -/
structure Calm (n : ℕ) (w : World τ) (e : ℕ × τ → Option ℕ) (g : Layout τ) : Prop where
  inv : Inv n w e g
  book : ∀ p < w.poolCnt, Book n w g p
  free : ∀ q p, g.bat q ≠ .hand p

/-- `Calm` after a step that counts nothing. -/
lemma Calm.keeps {e' : ℕ × τ → Option ℕ} (h : Calm n w e g) (hI : Inv n w' e' g') (hk : Keeps w w')
    (howner : g'.owner = g.owner) (hshared : g'.shared = g.shared) (hbat : ∀ q p, g'.bat q ≠ .hand p) :
    Calm n w' e' g' :=
  ⟨hI, fun p hp => book_keeps (h.book p (hk.poolCnt ▸ hp)) hk howner (by rw [hshared]), hbat⟩

lemma managerAlloc_spec (h : Inv n w e g) (hp : p < w.poolCnt) :
    Inv n (managerAlloc p w).2 e ⟨g.blocks, g.shared, g.bat, Function.update g.cat (managerAlloc p w).1 (.hand p)⟩ ∧
    (⟨g.blocks, g.shared, g.bat, Function.update g.cat (managerAlloc p w).1 (.hand p)⟩ : Layout τ).owner = g.owner ∧
    g.blocks (managerAlloc p w).1 = [] ∧ Keeps w (managerAlloc p w).2 ∧ slots (managerAlloc p w).2 = slots w := by
  unfold managerAlloc
  split
  next c l hl =>
    obtain ⟨h1, h2⟩ := h.reuse hl
    refine ⟨h1, h2, ?_, .setPool rfl rfl, slots_setPool rfl⟩
    exact h.chunks.bare c (.inr ⟨p, (h.chunks.empties.mem p c).mp (hl ▸ List.mem_cons_self)⟩)
  next =>
    obtain ⟨h1, h2⟩ := h.newChunk hp
    refine ⟨h1, h2, ?_, ⟨fun _ => rfl, fun _ => rfl, rfl, rfl⟩, rfl⟩
    exact h.chunks.bare _ (.inl (not_not.mp fun hne => absurd ((h.chunks.created _).mpr hne) (Nat.lt_irrefl _)))

/-- A chunk has been filled from blocks that were in the hands of a call. -/
structure Filled (n : ℕ) (w w' : World τ) (e : ℕ × τ → Option ℕ) (g g' : Layout τ) (c : ℕ) (blocks : List ℕ) : Prop where
  inv : Inv n w' e g'
  cat : g'.cat = g.cat
  shared : g'.shared = g.shared
  owner : g'.owner = g.owner
  bat : ∀ q, g'.bat q = if q ∈ blocks then .chunk c else g.bat q
  length : (g'.blocks c).length = (g.blocks c).length + blocks.length
  keeps : Keeps w w'
  slots : slots w' = slots w

/-- A chunk that has room takes a block. -/
lemma pushBlock_of_room (h : Inv n w e g) (hlen : (g.blocks c).length ≠ n) (q : ℕ) :
    pushBlock n c q w = (true, link c q w) :=
  if_neg (h.blocks.size c ▸ hlen)

lemma fill_spec {blocks : List ℕ} (h : Inv n w e g) (hc : Open g p c) (hn : blocks.Nodup)
    (hq : ∀ q ∈ blocks, g.bat q = .hand p) (hlen : (g.blocks c).length + blocks.length ≤ n) :
    ∃ g', Filled n w (fill n p c blocks w) e g g' c blocks := by
  induction blocks generalizing w g with
  | nil => exact ⟨g, h, rfl, rfl, rfl, fun q => by simp, rfl, ⟨fun _ => rfl, fun _ => rfl, rfl, rfl⟩, rfl⟩
  | cons q l ih =>
    obtain ⟨hql, hnl⟩ := List.nodup_cons.mp hn
    have hhand := hq q List.mem_cons_self
    rw [List.length_cons] at hlen
    have hI := h.code hhand (w.pool p).myCode (~~~(w.pool p).myCode)
    have hpush := hI.push hc hhand ⟨Function.update_self _ _ _, Function.update_self _ _ _⟩
    have hroom := pushBlock_of_room hI (c := c) (by omega) q
    rw [fill, List.foldl_cons, hroom]
    have hrest : ∀ z ∈ l, Function.update g.bat q (.chunk c) z = .hand p := by
      intro z hz
      rw [Function.update_of_ne (ne_of_mem_of_not_mem hz hql)]
      exact hq z (List.mem_cons_of_mem _ hz)
    have hlen' : (Function.update g.blocks c (q :: g.blocks c) c).length + l.length ≤ n := by
      rw [Function.update_self, List.length_cons]
      omega
    obtain ⟨g', hf⟩ := ih hpush hc hnl hrest hlen'
    refine ⟨g', hf.inv, hf.cat, hf.shared, ?_, fun z => ?_, ?_, ?_, hf.slots⟩
    · refine hf.owner.trans (owner_move ?_)
      rw [Layout.owner, Layout.owner, hhand]
      exact hc.pool
    · rw [hf.bat z]
      by_cases hz : z = q
      · rw [hz]
        simp
      · simp [hz]
    · rw [hf.length]
      dsimp only
      rw [Function.update_self, List.length_cons, List.length_cons]
      omega
    · exact ⟨hf.keeps.total, hf.keeps.use, hf.keeps.blockCnt, hf.keeps.poolCnt⟩

/-- The counting of an array that has been made: its blocks are those of its pool that are new. -/
lemma count_array (hn : ∀ q, g'.owner q = if q ∈ fresh n w then some p else g.owner q) (i : ℕ) :
    Nat.count (fun q => g'.owner q = some i) (w.blockCnt + n) =
      Nat.count (fun q => g.owner q = some i) w.blockCnt + if p = i then n else 0 := by
  rw [Nat.count_add]
  congr 1
  · refine le_antisymm (Nat.count_mono_left fun q hq h => ?_) (Nat.count_mono_left fun q hq h => ?_) <;>
      rw [hn, if_neg (by rw [mem_fresh]; omega)] at * <;> exact h
  · split_ifs with hi
    · refine Nat.count_of_forall fun q hq => ?_
      rw [hn, if_pos (mem_fresh.mpr (by omega)), hi]
    · refine Nat.count_of_forall_not fun q hq => ?_
      rw [hn, if_pos (mem_fresh.mpr (by omega)), Option.some.injEq]
      exact hi

/-- A chunk has been filled from an array that is new. -/
structure Made (n : ℕ) (w w' : World τ) (e : ℕ × τ → Option ℕ) (g g' : Layout τ) (p c : ℕ) : Prop where
  inv : Inv n w' e g'
  cat : g'.cat = Function.update g.cat c (.hand p)
  shared : g'.shared = g.shared
  free : ∀ q i, g'.bat q ≠ .hand i
  full : (g'.blocks c).length = n
  count : ∀ i, Nat.count (fun q => g'.owner q = some i) w'.blockCnt =
    Nat.count (fun q => g.owner q = some i) w.blockCnt + if p = i then n else 0
  total : ∀ p, (w'.pool p).totalChunk = (w.pool p).totalChunk
  use : ∀ p, (w'.pool p).useChunk = (w.pool p).useChunk
  slots : slots w' = slots w
  blockCnt : w'.blockCnt = w.blockCnt + n
  poolCnt : w'.poolCnt = w.poolCnt

lemma arrayChunk_spec (h : Inv n w e g) (hfree : ∀ q i, g.bat q ≠ .hand i) (hp : p < w.poolCnt)
    (hroom : w.blockCnt + n ≤ space) :
    ∃ g', Made n w (arrayChunk n p w).2 e g g' p (arrayChunk n p w).1 := by
  have harr := h.array hp hroom
  obtain ⟨hI, howner, hbare, hk, hslots⟩ := managerAlloc_spec harr hp
  unfold arrayChunk
  dsimp only
  generalize managerAlloc p { w with blockCnt := w.blockCnt + n } = r at *
  obtain ⟨c, w₁⟩ := r
  dsimp only at *
  obtain ⟨g', hf⟩ := fill_spec hI (.inl (Function.update_self _ _ _)) (nodup_fresh n w) (fun q hq => if_pos hq)
    (by rw [hbare, length_fresh]; simp)
  have hbat : ∀ q, g'.bat q = if q ∈ fresh n w then .chunk c else g.bat q := by
    intro q
    rw [hf.bat q]
    dsimp only
    split_ifs <;> rfl
  refine ⟨g', hf.inv, hf.cat, hf.shared, fun q i => ?_, ?_, fun i => ?_, ?_, ?_, ?_, ?_, ?_⟩
  · rw [hbat]
    split_ifs
    · exact nofun
    · exact hfree q i
  · rw [hf.length, hbare, length_fresh, List.length_nil, Nat.zero_add]
  · rw [hf.keeps.blockCnt, hk.blockCnt]
    refine count_array (fun q => ?_) i
    rw [hf.owner, howner, Layout.owner, Layout.owner]
    dsimp only
    split_ifs <;> rfl
  · exact fun i => (hf.keeps.total i).trans (hk.total i)
  · exact fun i => (hf.keeps.use i).trans (hk.use i)
  · exact hf.slots.trans hslots
  · exact hf.keeps.blockCnt.trans hk.blockCnt
  · exact hf.keeps.poolCnt.trans hk.poolCnt

/-- What `ChunkAlloc` returns is full, and in the hands of the call. -/
structure Got (n : ℕ) (w w' : World τ) (e : ℕ × τ → Option ℕ) (g g' : Layout τ) (p c : ℕ) : Prop where
  calm : Calm n w' e g'
  cat : g'.cat = Function.update g.cat c (.hand p)
  full : (g'.blocks c).length = n
  slots : slots w' = slots w
  poolCnt : w'.poolCnt = w.poolCnt

/-- A chunk of the shared stack. -/
lemma popped_spec {l : List ℕ} (h : Calm n w e g) (hl : g.shared p = c :: l) :
    ∃ g', Got n w (incUse p (w.setPool p { w.pool p with freeStackTop := w.chunkNext c })) e g g' p c := by
  have hc : g.cat c = .shared p := (h.inv.chunks.shared.mem p c).mp (hl ▸ List.mem_cons_self)
  obtain ⟨hI, howner⟩ := h.inv.popChunk hl
  have hI' := hI.setPool (p := p) (a := { (w.setPool p { w.pool p with freeStackTop := w.chunkNext c }).pool p with
    useChunk := ((w.setPool p { w.pool p with freeStackTop := w.chunkNext c }).pool p).useChunk + 1 }) rfl rfl rfl rfl
  refine ⟨_, ⟨hI', fun i hi => ?_, h.free⟩, rfl, h.inv.chunks.full c p hc, ?_, rfl⟩
  · obtain ⟨N, h1, h2, h3⟩ := h.book i hi
    unfold incUse
    refine ⟨N, ?_, ?_, ?_⟩
    · rw [howner]
      exact h1
    · by_cases hip : i = p
      · rw [hip] at h2 ⊢
        simpa using h2
      · simpa [hip] using h2
    · by_cases hip : i = p
      · rw [hip] at h3 ⊢
        rw [hl, List.length_cons, UInt64.ofNat_add] at h3
        simp only [setPool_self, Function.update_self]
        rw [← h3]
        grind
      · simpa [hip] using h3
  · rw [incUse, slots_setPool (by rfl), slots_setPool (by rfl)]

/-- A chunk of a new array. -/
lemma made_spec (h : Calm n w e g) (hp : p < w.poolCnt) (hroom : w.blockCnt + n ≤ space) :
    ∃ g', Got n w (incUse p (incTotal p (arrayChunk n p w).2)) e g g' p (arrayChunk n p w).1 := by
  obtain ⟨g', hm⟩ := arrayChunk_spec h.inv h.free hp hroom
  generalize arrayChunk n p w = r at *
  obtain ⟨c, w₁⟩ := r
  dsimp only at *
  have hI : Inv n (incTotal p w₁) e g' := hm.inv.setPool rfl rfl rfl rfl
  have hI' : Inv n (incUse p (incTotal p w₁)) e g' := hI.setPool rfl rfl rfl rfl
  refine ⟨g', ⟨hI', fun i hi => ?_, hm.free⟩, hm.cat, hm.full, ?_, hm.poolCnt⟩
  · obtain ⟨N, h1, h2, h3⟩ := h.book i (hm.poolCnt ▸ hi)
    have hcount := hm.count i
    rw [← hm.total i] at h2 h3
    rw [← hm.use i] at h3
    unfold incUse incTotal
    by_cases hip : i = p
    · rw [hip] at h1 h2 h3 hcount ⊢
      refine ⟨N + 1, ?_, ?_, ?_⟩
      · refine hcount.trans ?_
        rw [h1, if_pos rfl, Nat.mul_succ]
      · simp only [setPool_self]
        rw [h2, UInt64.ofNat_add]
        rfl
      · simp only [setPool_self]
        rw [hm.shared, ← h3]
        grind
    · refine ⟨N, ?_, ?_, ?_⟩
      · refine hcount.trans ?_
        rw [h1, if_neg (fun hpi => hip hpi.symm), Nat.add_zero]
      · simpa [hip] using h2
      · simpa [hip, hm.shared] using h3
  · rw [incUse, slots_setPool (by rfl), incTotal, slots_setPool (by rfl), hm.slots]

lemma chunkAlloc_spec (h : Calm n w e g) (hp : p < w.poolCnt) (hr : chunkAlloc n p w = (some c, w')) :
    ∃ g', Got n w w' e g g' p c := by
  unfold chunkAlloc popChunk at hr
  have htop := h.inv.chunks.top p
  rcases hS : g.shared p with _ | ⟨c', l⟩
  · rw [hS, List.head?_nil] at htop
    rw [← htop] at hr
    dsimp only at hr
    split_ifs at hr with h1 h2 h3
    · exact nomatch (Prod.mk.inj hr).1
    · exact nomatch (Prod.mk.inj hr).1
    · exact nomatch (Prod.mk.inj hr).1
    · obtain ⟨hc, rfl⟩ := Prod.mk.inj hr
      rw [← Option.some.inj hc]
      generalize hw₁ : w.setPool p { w.pool p with addAllocCnt := (w.pool p).addAllocCnt + 1 } = w₁ at *
      have hk : Keeps w w₁ := hw₁ ▸ .setPool rfl rfl
      have hs : ChunkCalls.slots w₁ = ChunkCalls.slots w := hw₁ ▸ slots_setPool rfl
      have hI : Inv n w₁ e g := hw₁ ▸ h.inv.setPool rfl rfl rfl rfl
      obtain ⟨g', hg⟩ := made_spec (h.keeps hI hk rfl rfl h.free) (hk.poolCnt ▸ hp) (Nat.le_of_not_lt h3)
      exact ⟨g', hg.calm, hg.cat, hg.full, hg.slots.trans hs, hg.poolCnt.trans hk.poolCnt⟩
  · rw [hS, List.head?_cons] at htop
    rw [← htop] at hr
    dsimp only at hr
    obtain ⟨hc, rfl⟩ := Prod.mk.inj hr
    rw [← Option.some.inj hc]
    exact popped_spec h hS

/-! ### `Alloc` -/

section Calls

variable [DecidableEq τ]

/-- The invariant between the calls. -/
structure Rest (n : ℕ) (w : World τ) (g : Layout τ) : Prop where
  calm : Calm n w (slots w) g
  free : ∀ c p, g.cat c ≠ .hand p

omit [DecidableEq τ] in
lemma popBlock_nil (h : Calm n w e g) (hl : g.blocks c = []) : popBlock c w = .ok (none, w) := by
  refine if_pos ?_
  rw [h.inv.blocks.size c, hl]
  rfl

omit [DecidableEq τ] in
lemma popBlock_cons {l : List ℕ} (h : Calm n w e g) (hl : g.blocks c = q :: l) :
    popBlock c w = .ok (some q, unlink c q w) := by
  have htop := h.inv.blocks.top c
  rw [hl, List.head?_cons] at htop
  rw [popBlock, if_neg, ← htop]
  rw [h.inv.blocks.size c, hl]
  exact Nat.succ_ne_zero _

omit [DecidableEq τ] in
/-- A block leaves its chunk for the caller. -/
lemma handed {l : List ℕ} (h : Calm n w e g) (hc : Open g p c) (hl : g.blocks c = q :: l) :
    Calm n (handOut p q (unlink c q w)) e
      ⟨Function.update g.blocks c l, g.shared, Function.update g.bat q (.held p), g.cat⟩ := by
  have hq : g.bat q = .chunk c := (h.inv.blocks.inside.mem c q).mp (hl ▸ List.mem_cons_self)
  have hcode := h.inv.blocks.coded q
  rw [hq] at hcode
  obtain ⟨hpre, hpost⟩ := hcode p hc.pool
  have hI := (h.inv.pop hc hl).handOut (Function.update_self _ _ _) ⟨hpre, hpost⟩
  dsimp only at hI
  rw [Function.update_idem] at hI
  refine h.keeps hI ⟨?_, ?_, rfl, rfl⟩ (owner_move ?_) rfl fun z i => ?_
  · exact congrFun (field_same (w := unlink c q w) Pool.totalChunk rfl)
  · exact congrFun (field_same (w := unlink c q w) Pool.useChunk rfl)
  · rw [Layout.owner, Layout.owner, hq]
    exact hc.pool.symm
  · dsimp only
    by_cases hz : z = q
    · rw [hz, Function.update_self]
      exact BlockAt.noConfusion
    · rw [Function.update_of_ne hz]
      exact h.free z i

lemma Calm.tlsSet (h : Calm n w e g) (p : ℕ) (t : τ) (c : ℕ) : Calm n (tlsSet p t c w) e g :=
  h.keeps (h.inv.setPool rfl rfl rfl rfl) (.setPool rfl rfl) rfl rfl h.free

lemma slots_tlsSet (w : World τ) (p : ℕ) (t : τ) (c : ℕ) :
    slots (tlsSet p t c w) = Function.update (slots w) (p, t) (some c) := by
  funext ⟨i, u⟩
  unfold tlsSet slots
  by_cases hi : i = p
  · rw [hi, setPool_self]
    dsimp only
    by_cases hu : u = t
    · rw [hu, Function.update_self, Function.update_self]
    · rw [Function.update_of_ne hu, Function.update_of_ne fun h => hu (Prod.mk.inj h).2]
  · rw [setPool_other hi, Function.update_of_ne fun h => hi (Prod.mk.inj h).1]

lemma Calm.own (h : Calm n w e g) (hc : g.cat c = .hand p) (he : e (p, t) = none) :
    Calm n w (Function.update e (p, t) (some c)) ⟨g.blocks, g.shared, g.bat, Function.update g.cat c (.tls p t)⟩ := by
  obtain ⟨hI, howner⟩ := h.inv.own hc he
  exact h.keeps hI ⟨fun _ => rfl, fun _ => rfl, rfl, rfl⟩ howner rfl h.free

lemma Calm.disown (h : Calm n w e g) (hc : g.cat c = .tls p t) :
    Calm n w (Function.update e (p, t) none) ⟨g.blocks, g.shared, g.bat, Function.update g.cat c (.hand p)⟩ := by
  obtain ⟨hI, howner⟩ := h.inv.disown hc
  exact h.keeps hI ⟨fun _ => rfl, fun _ => rfl, rfl, rfl⟩ howner rfl h.free

omit [DecidableEq τ] in
lemma Calm.managerFree (h : Calm n w e g) (hc : g.cat c = .hand p) (hbare : g.blocks c = []) :
    Calm n (managerFree p c w) e ⟨g.blocks, g.shared, g.bat, Function.update g.cat c (.empty p)⟩ := by
  obtain ⟨hI, howner⟩ := h.inv.managerFree hc hbare
  exact h.keeps hI (.setPool rfl rfl) howner rfl h.free

omit [DecidableEq τ] in
/-- A call that has no chunk in its hands at its end. -/
lemma cat_free {P : ChunkAt τ} {cat : ℕ → ChunkAt τ} (h : ∀ z i, z ≠ c → cat z ≠ .hand i)
    (hP : ∀ i, P ≠ .hand i) (z i : ℕ) : Function.update cat c P z ≠ .hand i := by
  by_cases hz : z = c
  · rw [hz, Function.update_self]
    exact hP i
  · rw [Function.update_of_ne hz]
    exact h z i hz

omit [DecidableEq τ] in
lemma slots_held {l : List ℕ} (h : w'.pool = Function.update w.pool p { w.pool p with held := l }) :
    slots w' = slots w := by
  refine Eq.trans ?_ (slots_setPool (w := w) (p := p) (a := { w.pool p with held := l }) rfl)
  funext b
  rw [slots, h]
  rfl

/-- A chunk that is full becomes the thread's, and the caller has a block of it. -/
lemma full_rest (h : Calm n w e g) (hn : 0 < n) (hcat : g.cat c = .hand p) (hfull : (g.blocks c).length = n)
    (hfree : ∀ z i, z ≠ c → g.cat z ≠ .hand i) (he : e (p, t) = none)
    (hslots : Function.update e (p, t) (some c) = Function.update (slots w) (p, t) (some c)) :
    ∃ q g', popBlock c w = .ok (some q, unlink c q w) ∧
      popBlock c (tlsSet p t c w) = .ok (some q, unlink c q (tlsSet p t c w)) ∧
      Rest n (handOut p q (unlink c q (tlsSet p t c w))) g' := by
  rcases hl : g.blocks c with _ | ⟨q, l⟩
  · rw [hl, List.length_nil] at hfull
    omega
  · have hown := (h.own (t := t) hcat he).tlsSet p t c
    have hout := handed hown (.inr ⟨t, Function.update_self _ _ _⟩) hl
    have hs : slots (handOut p q (unlink c q (tlsSet p t c w))) = Function.update e (p, t) (some c) := by
      rw [slots_held rfl, hslots]
      exact slots_tlsSet w p t c
    exact ⟨q, _, popBlock_cons h hl, popBlock_cons hown hl, hs.symm ▸ hout, cat_free hfree (by nofun)⟩

/-- `Alloc` fails only when `ChunkAlloc` does. -/
lemma alloc_rest (h : Rest n w g) (hn : 0 < n) (hp : p < w.poolCnt) (t : τ) :
    (∃ q w' g', alloc n p t w = .ok (q, w') ∧ Rest n w' g' ∧ w'.poolCnt = w.poolCnt) ∨
    alloc n p t w = .error .noChunk := by
  rcases htls : (w.pool p).tls t with _ | c
  · -- a chunk of `ChunkAlloc` becomes the thread's
    rcases hca : chunkAlloc n p w with ⟨_ | c, w₁⟩
    · right
      simp only [alloc, tlsChunk, htls, chunkOf, hca, bind, Except.bind, Except.map]
    · left
      obtain ⟨g₁, hg⟩ := chunkAlloc_spec h.calm hp hca
      have hcat : g₁.cat c = .hand p := by
        rw [hg.cat, Function.update_self]
      have hfree : ∀ z i, z ≠ c → g₁.cat z ≠ .hand i := by
        intro z i hz
        rw [hg.cat, Function.update_of_ne hz]
        exact h.free z i
      obtain ⟨q, g', -, hpop, hr⟩ := full_rest (t := t) hg.calm hn hcat hg.full hfree htls (by rw [hg.slots])
      refine ⟨q, _, g', ?_, hr, hg.poolCnt⟩
      simp only [alloc, tlsChunk, htls, chunkOf, hca, hpop, bind, Except.bind, Except.map, pure, Except.pure]
  · have hcat : g.cat c = .tls p t := (h.calm.inv.chunks.slot p t c).mp htls
    rcases hl : g.blocks c with _ | ⟨q, l⟩
    · -- the thread's chunk goes to the empty ones, and another takes its place
      have hpop := popBlock_nil h.calm hl
      have hdis := (h.calm.disown hcat).managerFree (Function.update_self _ _ _) hl
      dsimp only at hdis
      rw [Function.update_idem] at hdis
      have hfree₀ := cat_free (c := c) (P := .empty p) (fun z i _ => h.free z i) nofun
      rcases hca : chunkAlloc n p (managerFree p c w) with ⟨_ | c', w₁⟩
      · right
        simp only [alloc, tlsChunk, htls, hpop, chunkOf, hca, bind, Except.bind]
      · left
        obtain ⟨g₁, hg⟩ := chunkAlloc_spec hdis hp hca
        have hcat' : g₁.cat c' = .hand p := by
          rw [hg.cat, Function.update_self]
        have hfree : ∀ z i, z ≠ c' → g₁.cat z ≠ .hand i := by
          intro z i hz
          rw [hg.cat, Function.update_of_ne hz]
          exact hfree₀ z i
        have hslots : slots w₁ = slots w := hg.slots.trans (slots_setPool rfl)
        obtain ⟨q, g', hpop', -, hr⟩ := full_rest (t := t) hg.calm hn hcat' hg.full hfree (Function.update_self _ _ _)
          (by rw [Function.update_idem, hslots])
        refine ⟨q, _, g', ?_, hr, hg.poolCnt⟩
        simp only [alloc, tlsChunk, htls, hpop, hpop', chunkOf, hca, bind, Except.bind, pure, Except.pure]
        rfl
    · -- a block of the thread's own chunk
      left
      have hpop := popBlock_cons h.calm hl
      have hout := handed h.calm (.inr ⟨t, hcat⟩) hl
      have hs : slots (handOut p q (unlink c q w)) = slots w := slots_held (w := unlink c q w) rfl
      rw [← hs] at hout
      refine ⟨q, _, _, ?_, ⟨hout, h.free⟩, rfl⟩
      simp only [alloc, tlsChunk, htls, hpop, bind, Except.bind, pure, Except.pure]

/-! ### `Free` -/

omit [DecidableEq τ] in
/-- Two pools have two codes. -/
lemma code_inj (h : Pools w g) {i : ℕ} (hp : p < w.poolCnt) (hi : i < w.poolCnt)
    (hc : (w.pool p).myCode = (w.pool i).myCode) : p = i := by
  have := h.room
  rw [h.code p hp, h.code i hi] at hc
  have h1 := congrArg UInt64.toNat hc
  unfold space at this
  rw [UInt64.toNat_ofNat', UInt64.toNat_ofNat', Nat.mod_eq_of_lt (by omega), Nat.mod_eq_of_lt (by omega)] at h1
  omega

/-- A number of 64 bits and the one with all bits flipped have an odd sum. -/
lemma ne_not (x : UInt64) : x ≠ ~~~x := by
  intro h
  have h1 := congrArg UInt64.toNat h
  have h2 := x.toNat_lt
  rw [UInt64.toNat_not] at h1
  unfold UInt64.size at h1
  omega

omit [DecidableEq τ] in
/-- The tests of `Free` let pass what is held from the pool, and nothing else. -/
lemma free_tests (h : Rest n w g) (hp : p < w.poolCnt) (hq : q < w.blockCnt) :
    (w.preCode q = w.postCode q ∧ w.preCode q = (w.pool p).myCode) ↔ q ∈ (w.pool p).held := by
  have hb := h.calm.inv.blocks
  have hcode := hb.coded q
  have hown := h.calm.inv.pools.owner q
  refine Iff.trans ?_ (hb.held.mem p q).symm
  rw [Layout.owner] at hown
  cases hat : g.bat q with
  | away => exact absurd hat ((hb.created q).mp hq)
  | hand i => exact absurd hat (h.calm.free q i)
  | held i =>
    rw [hat] at hcode hown
    constructor
    · rintro ⟨_, h2⟩
      rw [code_inj h.calm.inv.pools hp (hown i rfl) (h2.symm.trans hcode.pre)]
    · intro hi
      obtain rfl := BlockAt.held.inj hi
      exact ⟨hcode.pre.trans hcode.post.symm, hcode.pre⟩
  | chunk c =>
    rw [hat] at hcode
    refine ⟨?_, fun hi => by cases hi⟩
    rintro ⟨h1, _⟩
    -- the chunk has a block, and so a pool, whose code one of the two is not
    rcases hpool : (g.cat c).pool with _ | i
    · have hbare := h.calm.inv.chunks.bare c (.inl ?_)
      · exact absurd ((hb.inside.mem c q).mpr hat) (by rw [hbare]; exact List.not_mem_nil)
      · cases hcat : g.cat c with
        | away => rfl
        | _ => rw [hcat] at hpool; cases hpool
    · obtain ⟨h2, h3⟩ := hcode i hpool
      rw [h2, h3] at h1
      exact absurd h1 (ne_not _)

omit [DecidableEq τ] in
lemma managerAlloc_code (h : NotInUse w p q) : NotInUse (managerAlloc p w).2 p q := by
  unfold managerAlloc
  split
  next =>
    refine h.same rfl rfl ?_
    rw [setPool_self]
  next => exact h.same rfl rfl rfl

/-- An empty chunk becomes the thread's, and takes the block. -/
structure Renewed (n : ℕ) (w w' : World τ) (e : ℕ × τ → Option ℕ) (g g' : Layout τ) (p : ℕ) (t : τ) (c q : ℕ) : Prop where
  inv : Inv n w' (Function.update e (p, t) (some c)) g'
  cat : g'.cat = Function.update g.cat c (.tls p t)
  bat : g'.bat = Function.update g.bat q (.chunk c)
  shared : g'.shared = g.shared
  owner : g'.owner = g.owner
  keeps : Keeps w w'
  slots : slots w' = Function.update (slots w) (p, t) (some c)

lemma renew_spec (h : Inv n w e g) (hn : 0 < n) (hp : p < w.poolCnt) (he : e (p, t) = none)
    (hq : g.bat q = .hand p) (hcode : NotInUse w p q) :
    ∃ c w₁ g', managerAlloc p w = (c, w₁) ∧ pushBlock n c q w₁ = (true, link c q w₁) ∧
      pushBlock n c q (tlsSet p t c w₁) = (true, tlsSet p t c (link c q w₁)) ∧
      Renewed n w (tlsSet p t c (link c q w₁)) e g g' p t c q := by
  obtain ⟨hI, howner, hbare, hk, hslots⟩ := managerAlloc_spec h hp
  have hcode' := managerAlloc_code (p := p) hcode
  rcases hr : managerAlloc p w with ⟨c, w₁⟩
  rw [hr] at hI howner hbare hk hslots hcode'
  obtain ⟨hown, howner'⟩ := hI.own (t := t) (Function.update_self _ _ _) he
  dsimp only at hown howner' hbare
  rw [Function.update_idem] at hown howner'
  have hpush := hown.push (c := c) (.inr ⟨t, Function.update_self _ _ _⟩) hq hcode'
  have hroom : w₁.size c ≠ n := by
    have := hI.blocks.size c
    dsimp only at this
    rw [hbare, List.length_nil] at this
    omega
  refine ⟨c, w₁, _, rfl, if_neg hroom, if_neg hroom, ⟨hpush.setPool rfl rfl rfl rfl, rfl, rfl, rfl, ?_, ?_, ?_⟩⟩
  · refine Eq.trans (owner_move ?_) (howner'.trans howner)
    rw [Layout.owner, Layout.owner]
    dsimp only
    rw [hq]
    dsimp only
    rw [Function.update_self]
    rfl
  · have h1 := congrFun (field_same (w := link c q w₁) (p := p) Pool.totalChunk (a := { w₁.pool p with
      tls := Function.update (w₁.pool p).tls t (some c) }) rfl)
    have h2 := congrFun (field_same (w := link c q w₁) (p := p) Pool.useChunk (a := { w₁.pool p with
      tls := Function.update (w₁.pool p).tls t (some c) }) rfl)
    exact ⟨fun i => (h1 i).trans (hk.total i), fun i => (h2 i).trans (hk.use i), hk.blockCnt, hk.poolCnt⟩
  · exact (slots_tlsSet (link c q w₁) p t c).trans (by rw [← hslots]; rfl)

/-- `ChunkFree` of the chunk of a thread, within a call that has a block in its hands. -/
lemma chunkFree_spec (h : Inv n w e g) (hbook : ∀ i < w.poolCnt, Book n w g i) (hc : g.cat c = .tls p t)
    (hfull : (g.blocks c).length = n) : ∃ g', Inv n (chunkFree p c w) (Function.update e (p, t) none) g' ∧
      (∀ i < w.poolCnt, Book n (chunkFree p c w) g' i) ∧ g'.cat = Function.update g.cat c (.shared p) ∧
      g'.bat = g.bat ∧ g'.owner = g.owner := by
  obtain ⟨h1, howner1⟩ := h.disown hc
  obtain ⟨h2, howner2⟩ := h1.pushChunk (Function.update_self _ _ _) hfull
  dsimp only at h2 howner2
  rw [Function.update_idem] at h2 howner2
  have h3 := h2.setPool (p := p) (a := { (pushChunk p c w).pool p with
    useChunk := ((pushChunk p c w).pool p).useChunk - 1 }) rfl rfl rfl rfl
  refine ⟨_, h3, fun i hi => ?_, rfl, rfl, howner2.trans howner1⟩
  obtain ⟨N, h4, h5, h6⟩ := hbook i hi
  unfold chunkFree decUse pushChunk
  refine ⟨N, ?_, ?_, ?_⟩
  · rw [howner2.trans howner1]
    exact h4
  · by_cases hip : i = p
    · rw [hip] at h5 ⊢
      simpa using h5
    · simpa [hip] using h5
  · by_cases hip : i = p
    · rw [hip] at h6 ⊢
      simp only [setPool_self, Function.update_self, List.length_cons, UInt64.ofNat_add]
      rw [← h6]
      grind
    · simpa [hip] using h6

omit [DecidableEq τ] in
lemma takeBack_keeps (w : World τ) (p q : ℕ) : Keeps w (takeBack p q w) :=
  ⟨congrFun (field_same (w := w) (p := p) (a := { w.pool p with held := (w.pool p).held.erase q }) Pool.totalChunk rfl),
    congrFun (field_same (w := w) (p := p) (a := { w.pool p with held := (w.pool p).held.erase q }) Pool.useChunk rfl),
    rfl, rfl⟩

omit [DecidableEq τ] in
lemma chunkFree_slots (w : World τ) (p c : ℕ) : slots (chunkFree p c w) = slots w := by
  rw [chunkFree, decUse, slots_setPool (by rfl)]
  exact slots_setPool rfl

omit [DecidableEq τ] in
lemma chunkFree_code (h : NotInUse w p q) (c : ℕ) : NotInUse (chunkFree p c w) p q := by
  refine h.same rfl rfl ?_
  unfold chunkFree decUse pushChunk
  rw [setPool_self]
  dsimp only
  rw [Function.update_self]

omit [DecidableEq τ] in
/-- A call that has put its block into a chunk. -/
lemma bat_free (h : ∀ z i, g.bat z ≠ .hand i) (z i : ℕ) :
    Function.update (Function.update g.bat q (.hand p)) q (.chunk c) z ≠ .hand i := by
  rw [Function.update_idem]
  by_cases hz : z = q
  · rw [hz, Function.update_self]
    exact nofun
  · rw [Function.update_of_ne hz]
    exact h z i

/-- `Free` of a block that is held from the pool. -/
lemma free_rest (h : Rest n w g) (hn : 0 < n) (hp : p < w.poolCnt) (hq : q ∈ (w.pool p).held) (t : τ) :
    ∃ w' g', free n p t q w = (true, w') ∧ Rest n w' g' ∧ w'.poolCnt = w.poolCnt := by
  have hat := (h.calm.inv.blocks.held.mem p q).mp hq
  obtain ⟨hI, hcode⟩ := h.calm.inv.takeBack hat
  have htests := (free_tests h hp (by rw [h.calm.inv.blocks.created, hat]; exact BlockAt.noConfusion)).mpr hq
  have howner : (⟨g.blocks, g.shared, Function.update g.bat q (.hand p), g.cat⟩ : Layout τ).owner = g.owner := by
    refine owner_move ?_
    rw [Layout.owner, Layout.owner, hat]
  have hk := takeBack_keeps w p q
  have hslots : slots (takeBack p q w) = slots w := slots_held rfl
  unfold free
  rw [if_neg (not_not.mpr htests.1), if_neg (not_not.mpr htests.2)]
  dsimp only
  generalize takeBack p q w = w₁ at *
  have hp₁ : p < w₁.poolCnt := hk.poolCnt ▸ hp
  have htls₁ : (w₁.pool p).tls t = (w.pool p).tls t := congrFun hslots (p, t)
  have hbook : ∀ i < w₁.poolCnt, Book n w₁ ⟨g.blocks, g.shared, Function.update g.bat q (.hand p), g.cat⟩ i :=
    fun i hi => book_keeps (h.calm.book i (hk.poolCnt ▸ hi)) hk howner rfl
  rw [htls₁]
  rcases htls : (w.pool p).tls t with _ | c
  · -- the thread has no chunk
    obtain ⟨c, w₂, g', hma, -, hpush, hr⟩ := renew_spec (t := t) hI hn hp₁ htls (Function.update_self _ _ _) hcode
    dsimp only
    rw [hma]
    dsimp only
    rw [hpush]
    refine ⟨_, g', rfl, ⟨⟨?_, fun i hi => ?_, ?_⟩, ?_⟩, hr.keeps.poolCnt.trans hk.poolCnt⟩
    · rw [hr.slots, hslots]
      exact hr.inv
    · exact book_keeps (hbook i (hr.keeps.poolCnt ▸ hi)) hr.keeps hr.owner (by rw [hr.shared])
    · rw [hr.bat]
      exact bat_free h.calm.free
    · rw [hr.cat]
      exact cat_free (fun z i _ => h.free z i) fun i hi => by cases hi
  · have hcat : g.cat c = .tls p t := (h.calm.inv.chunks.slot p t c).mp htls
    dsimp only
    by_cases hfull : (g.blocks c).length = n
    · -- the thread's chunk is full, and goes to the shared stack
      have hrefuse : pushBlock n c q w₁ = (false, w₁) := if_pos ((hI.blocks.size c).trans hfull)
      obtain ⟨g₂, hI₂, hbook₂, hcat₂, hbat₂, howner₂⟩ := chunkFree_spec hI hbook hcat hfull
      obtain ⟨c', w₂, g', hma, hpush, -, hr⟩ := renew_spec (t := t) hI₂ hn hp₁ (Function.update_self _ _ _)
        (by rw [hbat₂]; exact Function.update_self _ _ _) (chunkFree_code hcode c)
      rw [hrefuse]
      dsimp only
      rw [hma]
      dsimp only
      rw [hpush]
      refine ⟨_, g', rfl, ⟨⟨?_, fun i hi => ?_, ?_⟩, ?_⟩, hr.keeps.poolCnt.trans hk.poolCnt⟩
      · rw [hr.slots, chunkFree_slots, hslots]
        have := hr.inv
        rwa [Function.update_idem] at this
      · exact book_keeps (hbook₂ i (hr.keeps.poolCnt ▸ hi)) hr.keeps hr.owner (by rw [hr.shared])
      · rw [hr.bat, hbat₂]
        exact bat_free h.calm.free
      · rw [hr.cat, hcat₂]
        exact cat_free (fun z i _ => cat_free (fun z i _ => h.free z i) (fun i hi => by cases hi) z i)
          fun i hi => by cases hi
    · -- the thread's chunk takes the block
      have htake : pushBlock n c q w₁ = (true, link c q w₁) := if_neg fun hs => hfull ((hI.blocks.size c).symm.trans hs)
      have hpush := hI.push (c := c) (.inr ⟨t, hcat⟩) (Function.update_self _ _ _) hcode
      dsimp only at hpush
      rw [Function.update_idem] at hpush
      have hs : slots (link c q w₁) = slots w := hslots
      rw [htake]
      refine ⟨_, _, rfl, ⟨h.calm.keeps (hs.symm ▸ hpush) ⟨hk.total, hk.use, hk.blockCnt, hk.poolCnt⟩ (owner_move ?_) rfl ?_,
        h.free⟩, hk.poolCnt⟩
      · rw [Layout.owner, Layout.owner, hat]
        dsimp only
        rw [hcat]
        rfl
      · have := bat_free (q := q) (p := p) (c := c) h.calm.free
        rwa [Function.update_idem] at this

/-- `Free` of any other block. -/
lemma free_refused (h : Rest n w g) (hp : p < w.poolCnt) (hb : q < w.blockCnt) (hq : q ∉ (w.pool p).held) (t : τ) :
    free n p t q w = (false, w) := by
  unfold free
  by_cases h1 : w.preCode q = w.postCode q
  · rw [if_neg (not_not.mpr h1), if_pos fun h2 => hq ((free_tests h hp hb).mp ⟨h1, h2⟩)]
  · rw [if_pos h1]

end Calls

/-! ### The constructor -/

/-- A pool within its constructor: `k` of its chunks are shared. -/
structure Boot (n : ℕ) (w : World τ) (g : Layout τ) (p k : ℕ) (total : UInt64) : Prop where
  inv : Inv n w (slots w) g
  book : ∀ i < w.poolCnt, i ≠ p → Book n w g i
  bat : ∀ q i, g.bat q ≠ .hand i
  cat : ∀ c i, g.cat c ≠ .hand i
  pool : p < w.poolCnt
  shared : (g.shared p).length = k
  count : Nat.count (fun q => g.owner q = some p) w.blockCnt = n * k
  use : (w.pool p).useChunk = 0
  total : (w.pool p).totalChunk = total

variable {k : ℕ} {total : UInt64}

lemma bootChunk_spec (h : Boot n w g p k total) : ∃ g', Boot n (managerFree p w.chunkCnt (newChunk w)) g' p k total := by
  obtain ⟨h1, howner1⟩ := h.inv.newChunk h.pool
  have hbare : g.blocks w.chunkCnt = [] := h.inv.chunks.bare _
    (.inl (not_not.mp fun hne => absurd ((h.inv.chunks.created _).mpr hne) (Nat.lt_irrefl _)))
  obtain ⟨h2, howner2⟩ := h1.managerFree (Function.update_self _ _ _) hbare
  dsimp only at h2 howner2
  rw [Function.update_idem] at h2 howner2
  have hk : Keeps w (managerFree p w.chunkCnt (newChunk w)) := by
    have := Keeps.setPool (w := newChunk w) (p := p) (a := { (newChunk w).pool p with
      emptyChunkManager := w.chunkCnt :: ((newChunk w).pool p).emptyChunkManager }) rfl rfl
    exact ⟨this.total, this.use, rfl, rfl⟩
  have hs : slots (managerFree p w.chunkCnt (newChunk w)) = slots w := slots_setPool (w := newChunk w) rfl
  refine ⟨⟨g.blocks, g.shared, g.bat, Function.update g.cat w.chunkCnt (.empty p)⟩, hs.symm ▸ h2,
    fun i hi hne => ?_, h.bat, ?_, ?_, h.shared, ?_, ?_, ?_⟩
  · exact book_keeps (h.book i (hk.poolCnt ▸ hi) hne) hk (howner2.trans howner1) rfl
  · exact cat_free (fun z i _ => h.cat z i) (by nofun)
  · exact hk.poolCnt ▸ h.pool
  · rw [howner2.trans howner1, hk.blockCnt, h.count]
  · rw [hk.use, h.use]
  · rw [hk.total, h.total]

lemma initChunk_spec (h : Boot n w g p k total) (hroom : w.blockCnt + n ≤ space) :
    ∃ g', Boot n (pushChunk p (arrayChunk n p w).1 (arrayChunk n p w).2) g' p (k + 1) total := by
  obtain ⟨g₁, hm⟩ := arrayChunk_spec h.inv h.bat h.pool hroom
  generalize arrayChunk n p w = r at *
  obtain ⟨c, w₁⟩ := r
  dsimp only at *
  obtain ⟨h2, howner⟩ := hm.inv.pushChunk (by rw [hm.cat, Function.update_self]) hm.full
  have hk := Keeps.setPool (w := w₁) (p := p) (a := { w₁.pool p with freeStackTop := some c }) rfl rfl
  have hs : slots (pushChunk p c w₁) = slots w :=
    (slots_setPool (w := w₁) (p := p) (a := { w₁.pool p with freeStackTop := some c }) rfl).trans hm.slots
  refine ⟨⟨g₁.blocks, Function.update g₁.shared p (c :: g₁.shared p), g₁.bat, Function.update g₁.cat c (.shared p)⟩,
    hs.symm ▸ h2, fun i hi hne => ?_, hm.free, cat_free (fun z i hz => ?_) (by nofun), ?_, ?_, ?_, ?_, ?_⟩
  · obtain ⟨N, h3, h4, h5⟩ := h.book i (hm.poolCnt ▸ hi) hne
    refine ⟨N, ?_, (hk.total i).trans ((hm.total i).trans h4), ?_⟩
    · rw [howner]
      refine (hm.count i).trans ?_
      rw [if_neg (fun hpi => hne hpi.symm), Nat.add_zero, h3]
    · dsimp only
      rw [Function.update_of_ne hne, hm.shared]
      refine Eq.trans ?_ ((hk.total i).trans (hm.total i)).symm
      rw [← h5]
      exact congrArg (· + _) ((hk.use i).trans (hm.use i))
  · rw [hm.cat, Function.update_of_ne hz]
    exact h.cat z i
  · exact hm.poolCnt ▸ h.pool
  · dsimp only
    rw [Function.update_self, List.length_cons, hm.shared, h.shared]
  · rw [howner]
    refine (hm.count p).trans ?_
    rw [if_pos rfl, h.count, Nat.mul_succ]
  · exact (hk.use p).trans ((hm.use p).trans h.use)
  · exact (hk.total p).trans ((hm.total p).trans h.total)

/-- The blocks that the loop over the chunks makes. -/
lemma initChunk_blockCnt (h : Boot n w g p k total) (hroom : w.blockCnt + n ≤ space) :
    (pushChunk p (arrayChunk n p w).1 (arrayChunk n p w).2).blockCnt = w.blockCnt + n := by
  obtain ⟨g₁, hm⟩ := arrayChunk_spec h.inv h.bat h.pool hroom
  exact hm.blockCnt

lemma bootChunks_spec (h : Boot n w g p k total) (m : ℕ) :
    ∃ g', Boot n (bootChunks p m w) g' p k total ∧ (bootChunks p m w).blockCnt = w.blockCnt := by
  unfold bootChunks
  induction m with
  | zero => exact ⟨g, h, rfl⟩
  | succ m ih =>
    obtain ⟨g₁, h1, h2⟩ := ih
    rw [List.range_succ, List.foldl_append]
    obtain ⟨g', h3⟩ := bootChunk_spec h1
    exact ⟨g', h3, h2⟩

lemma initChunks_spec (h : Boot n w g p 0 total) (m : ℕ) (hroom : w.blockCnt + m * n ≤ space) :
    ∃ g', Boot n (initChunks n p m w) g' p m total ∧ (initChunks n p m w).blockCnt = w.blockCnt + m * n := by
  unfold initChunks
  induction m with
  | zero => exact ⟨g, h, by rw [Nat.zero_mul]; rfl⟩
  | succ m ih =>
    rw [Nat.succ_mul] at hroom ⊢
    obtain ⟨g₁, h1, h2⟩ := ih (by omega)
    rw [List.range_succ, List.foldl_append]
    obtain ⟨g', h3⟩ := initChunk_spec h1 (by omega)
    refine ⟨g', h3, (initChunk_blockCnt h1 (by omega)).trans ?_⟩
    rw [h2, Nat.add_assoc]

lemma boot_spec (h : Rest n w g) (hroom : w.poolCnt < space) (x y : UInt64) :
    Boot n (addPool x y w) g w.poolCnt 0 x := by
  obtain ⟨⟨⟨hb, hc, hp⟩, hbook, hbat⟩, hcat⟩ := h
  -- nothing belongs to the pool yet
  have hblock : ∀ q, g.owner q ≠ some w.poolCnt := fun q hq => Nat.lt_irrefl _ (hp.owner q _ hq)
  have hchunk : ∀ c, (g.cat c).pool ≠ some w.poolCnt := fun c hq => Nat.lt_irrefl _ (hp.pool c _ hq)
  have hshared : g.shared w.poolCnt = [] := List.eq_nil_iff_forall_not_mem.mpr fun c hm => hchunk c (by
    rw [(hc.shared.mem _ c).mp hm]
    rfl)
  have hold : ∀ i, i ≠ w.poolCnt → (addPool x y w).pool i = w.pool i := fun i hi => Function.update_of_ne hi _ _
  obtain ⟨a, hself, hcode, htop, hempties, htotal, huse, htls, hheld⟩ : ∃ a, (addPool x y w).pool w.poolCnt = a ∧
      a.myCode = w.secureCode + 1 ∧ a.freeStackTop = none ∧ a.emptyChunkManager = [] ∧ a.totalChunk = x ∧
      a.useChunk = 0 ∧ (a.tls = fun _ => none) ∧ a.held = [] :=
    ⟨_, Function.update_self _ _ _, rfl, rfl, rfl, rfl, rfl, rfl, rfl⟩
  have howner : ∀ q i, g.owner q = some i → (addPool x y w).pool i = w.pool i := by
    rintro q i hq
    exact hold i fun hi => hblock q (hi ▸ hq)
  refine ⟨⟨⟨hb.chain, hb.top, hb.size, hb.inside, ⟨fun i q => ?_, fun i => ?_⟩, fun q => ?_, hb.created⟩,
    ⟨hc.chain, fun i => ?_, hc.shared, ⟨fun i c => ?_, fun i => ?_⟩, fun i t c => ?_, hc.created, hc.full, hc.bare⟩,
    ⟨fun q i hq => ?_, fun c i hq => ?_, ?_, fun i hi => ?_, hroom, hp.space⟩⟩, fun i hi hne => ?_, hbat, hcat,
    Nat.lt_succ_self _, by rw [hshared]; rfl, ?_, ?_, ?_⟩
  · by_cases hi : i = w.poolCnt
    · rw [hi, hself, hheld]
      refine ⟨fun hm => absurd hm List.not_mem_nil, fun hq => absurd ?_ (hblock q)⟩
      rw [Layout.owner, hq]
    · rw [hold i hi]
      exact hb.held.mem i q
  · by_cases hi : i = w.poolCnt
    · rw [hi, hself, hheld]
      exact List.nodup_nil
    · rw [hold i hi]
      exact hb.held.nodup i
  · have hq := hb.coded q
    have ho := howner q
    rw [Layout.owner] at ho
    cases hat : g.bat q with
    | away => trivial
    | hand _ => trivial
    | held i =>
      rw [hat] at hq ho
      exact InUse.same hq rfl rfl (by rw [ho i rfl])
    | chunk c =>
      rw [hat] at hq ho
      exact fun i hi => (hq i hi).same rfl rfl (by rw [ho i hi])
  · by_cases hi : i = w.poolCnt
    · rw [hi, hself, htop, hshared]
      rfl
    · rw [hold i hi]
      exact hc.top i
  · by_cases hi : i = w.poolCnt
    · rw [hi, hself, hempties]
      refine ⟨fun hm => absurd hm List.not_mem_nil, fun hq => absurd ?_ (hchunk c)⟩
      rw [hq]
      rfl
    · rw [hold i hi]
      exact hc.empties.mem i c
  · by_cases hi : i = w.poolCnt
    · rw [hi, hself, hempties]
      exact List.nodup_nil
    · rw [hold i hi]
      exact hc.empties.nodup i
  · by_cases hi : i = w.poolCnt
    · rw [hi, slots, hself, htls]
      refine ⟨fun hm => absurd hm.symm (Option.some_ne_none c), fun hq => absurd ?_ (hchunk c)⟩
      rw [hq]
      rfl
    · rw [slots, hold i hi]
      exact hc.slot i t c
  · exact Nat.lt_succ_of_lt (hp.owner q i hq)
  · exact Nat.lt_succ_of_lt (hp.pool c i hq)
  · change w.secureCode + 1 = UInt64.ofNat (w.poolCnt + 1)
    rw [hp.secure, UInt64.ofNat_add]
    rfl
  · by_cases hi' : i = w.poolCnt
    · rw [hi', hself, hcode, hp.secure, UInt64.ofNat_add]
      rfl
    · rw [hold i hi']
      exact hp.code i (Nat.lt_of_le_of_ne (Nat.lt_succ_iff.mp hi) hi')
  · obtain ⟨N, h1, h2, h3⟩ := hbook i (Nat.lt_of_le_of_ne (Nat.lt_succ_iff.mp hi) hne)
    refine ⟨N, h1, ?_, ?_⟩
    · rw [hold i hne, h2]
    · rw [hold i hne, h3]
  · rw [Nat.mul_zero]
    exact Nat.count_of_forall_not fun q _ => hblock q
  · rw [hself, huse]
  · rw [hself, htotal]

lemma construct_rest {i m : UInt64} {cpus : ℕ} (h : Rest n w g) (hr : construct n i m cpus w = .ok w') :
    ∃ g', Rest n w' g' := by
  unfold construct at hr
  dsimp only at hr
  split_ifs at hr with h1 h2 h3
  rw [not_or, not_lt, not_le] at h3
  rw [← Except.ok.inj hr]
  obtain ⟨g₁, h4, h5⟩ := bootChunks_spec (boot_spec h h3.2 _ _) ((chunkCount n i).toNat + cpus)
  obtain ⟨g₂, h6, -⟩ := initChunks_spec h4 (chunkCount n i).toNat (by rw [h5]; exact h3.1)
  refine ⟨g₂, ⟨h6.inv, fun p hp => ?_, h6.bat⟩, h6.cat⟩
  by_cases hpw : p = w.poolCnt
  · rw [hpw]
    refine ⟨_, h6.count, ?_, ?_⟩
    · rw [h6.total, UInt64.ofNat_toNat]
    · rw [h6.use, h6.shared, h6.total, UInt64.ofNat_toNat, UInt64.zero_add]
  · exact h6.book p hp hpw

end LoginServerChat.ChunkCalls
