import LoginServerChat.PoolInv

/-!
`MemoryPool` in every run: no block is in two places, and none is lost.
-/

namespace LoginServerChat.PoolRun

open LinkedChain MemoryPool Places PoolInv Runs StaleReads

variable {τ : Type*} [DecidableEq τ] {b : Boot} {s s' : Pool τ} {c : List ℕ} {pl : ℕ → Place τ} {t u : τ}
  {q w y v : ℕ}

/-! ### The steps that move a block -/

/-- The exchange of `Pop`. -/
lemma inv_pop (hI : Inv b s c pl) (hpc : s.pc t = .popCas w y v) (hw : s.mem.freeStackTop = w)
    (hv : s.mem.pops < v + 2 ^ 17) : ∃ c' pl', Inv b (after s t
      { s.mem with freeStackTop := pack y (tag w + 1), pops := s.mem.pops + 1 } (.readPost (addr w)) s.holds)
      c' pl' := by
  have hat := hI.at' t
  rw [hpc] at hat
  obtain ⟨hread, htag⟩ := hat
  have htop := hI.tag
  rw [hw, htag] at htop
  have hle := hread.le
  -- in time, the tag says that nothing has been popped
  have hve : v = s.mem.pops := by omega
  have hmem := hread.mem hve
  have hrange := hI.range (addr w) ((hI.created _).mpr (by rw [(hI.onChain _).mp hmem]; exact nofun))
  have hhead := hI.top
  rw [hw, link, if_neg (by omega)] at hhead
  obtain ⟨r, rfl, hr⟩ := hread.exchange hI.chain hve hhead
  have hpl : pl (addr w) = .chain := (hI.onChain _).mp hmem
  have hnd := List.nodup_cons.mp hI.nodup
  have hy : y < 2 ^ 47 := by
    by_cases hy0 : y = 0
    · omega
    · rw [link, if_neg hy0] at hr
      have hyc : y ∈ addr w :: r := List.mem_cons_of_mem _ (List.mem_of_mem_head? hr)
      exact (hI.range y ((hI.created y).mpr (by rw [(hI.onChain y).mp hyc]; exact nofun))).2
  have hcode : NotInUse b s.mem (addr w) := by
    have := hI.codes (addr w)
    rwa [hpl] at this
  refine ⟨r, Function.update pl (addr w) (.transit t), inv_after hI ⟨fun _ _ => ⟨rfl, rfl, rfl⟩, .pop⟩
    (fun u hu z => moved hpl (by nofun) (fun h => hu (Place.transit.inj h).symm) z) ?_
    (holding_move hI hpl (by nofun) (by nofun)) (transit_own hI (by rw [hpc]; rfl) rfl)
    (created_move hI (by rw [hpl]; exact nofun) (by nofun)) hI.range (codes_move hI rfl rfl (by trivial)) ⟨hcode.pre, hcode.post⟩⟩
  refine ⟨hI.chain.2, ?_, ?_, ?_, hnd.2, fun z => ?_⟩
  · rw [addr_pack hy]
    exact hr
  · change pack y (tag w + 1) < 2 ^ 64
    rw [pack_eq hy]
    omega
  · change tag (pack y (tag w + 1)) = (s.mem.pops + 1) % 2 ^ 17
    rw [tag_pack hy, htag]
    omega
  · refine Iff.trans ?_ (departed (by nofun) z).symm
    rw [← hI.onChain z, List.mem_cons]
    exact ⟨fun h => ⟨fun hz => hnd.1 (hz ▸ h), .inr h⟩, fun h => h.2.resolve_left h.1⟩

/-- `_aligned_malloc`. -/
lemma inv_malloc (hI : Inv b s c pl) (hpc : s.pc t = .malloc) (hq : s.mem.created q = false)
    (h0 : 0 < q ∧ q < 2 ^ 47) : Inv b (after s t
      { s.mem with created := Function.update s.mem.created q true } (.addLoad q) s.holds)
      c (Function.update pl q (.transit t)) := by
  have hpl : pl q = .away := by
    have := (hI.created q).not
    rw [hq] at this
    exact not_not.mp (this.mp Bool.false_ne_true)
  have hcr : ∀ z, Function.update s.mem.created q true z = true ↔ z = q ∨ s.mem.created z = true := by
    intro z
    by_cases hz : z = q
    · simp [hz]
    · rw [Function.update_of_ne hz]
      exact ⟨.inr, fun h => h.resolve_left hz⟩
  refine inv_after hI ⟨fun _ _ => ⟨rfl, rfl, rfl⟩, .rest fun _ _ => rfl⟩
    (fun u hu z => moved hpl (by nofun) (fun h => hu (Place.transit.inj h).symm) z)
    ⟨hI.chain, hI.top, hI.word, hI.tag, hI.nodup, fun z => ?_⟩ (holding_move hI hpl (by nofun) (by nofun))
    (transit_own hI (by rw [hpc]; rfl) rfl) (fun z => ?_) (fun z hz => ?_) (fun z => ?_) trivial
  · exact (hI.onChain z).trans (moved hpl (by nofun) (by nofun) z).symm
  · refine (hcr z).trans ?_
    rw [hI.created z, ne_eq, ne_eq, departed (by nofun) z, not_and_or, not_not]
  · rcases (hcr z).mp hz with rfl | hz
    · exact h0
    · exact hI.range z hz
  · exact codes_move (P := .transit t) hI (by rfl) (by rfl) trivial z

/-- `Alloc` returns its block. -/
lemma inv_return (hI : Inv b s c pl) (hpc : s.pc t = .incUse q) : Inv b (after s t
    { s.mem with useCnt := s.mem.useCnt + 1 } .idle (Function.update s.holds t (q :: s.holds t)))
    c (Function.update pl q (.held t)) := by
  have hat := hI.at' t
  rw [hpc] at hat
  have h0 : (s.pc t).transit = some q := by
    rw [hpc]
    rfl
  have hpl := (hI.transit t q).mp h0
  refine inv_after hI ⟨fun _ _ => ⟨rfl, rfl, rfl⟩, .rest fun _ _ => rfl⟩
    (fun u hu z => moved hpl (fun h => hu (Place.transit.inj h).symm) (by nofun) z)
    ⟨hI.chain, hI.top, hI.word, hI.tag, hI.nodup, fun z => ?_⟩ ⟨fun u z => ?_, fun u => ?_⟩
    (transit_none hI h0 rfl (by nofun)) (created_move hI (by rw [hpl]; exact nofun) (by nofun)) hI.range
    (codes_move hI rfl rfl hat) trivial
  · exact (hI.onChain z).trans (moved hpl (by nofun) (by nofun) z).symm
  · by_cases hu : u = t
    · rw [hu, Function.update_self, arrived, List.mem_cons, hI.held]
    · rw [Function.update_of_ne hu]
      exact (hI.held u z).trans (moved hpl (by nofun) (fun h => hu (Place.held.inj h).symm) z).symm
  · by_cases hu : u = t
    · rw [hu, Function.update_self, List.nodup_cons, hI.held, hpl]
      exact ⟨nofun, hI.once t⟩
    · rw [Function.update_of_ne hu]
      exact hI.once u

omit [DecidableEq τ] in
/-- What a caller holds once it has given away a block. -/
lemma mem_erase (hI : Inv b s c pl) (z : ℕ) : z ∈ (s.holds t).erase q ↔ z ≠ q ∧ pl z = .held t := by
  rw [(hI.once t).mem_erase_iff, hI.held]

/-- A call of `Free`. -/
lemma inv_free (hI : Inv b s c pl) (hpc : s.pc t = .idle) (hq : q ∈ s.holds t) : Inv b (after s t
    s.mem (.freePre q) (Function.update s.holds t ((s.holds t).erase q)))
    c (Function.update pl q (.transit t)) := by
  have hpl := (hI.held t q).mp hq
  have hcode := hI.codes q
  rw [hpl] at hcode
  refine inv_after hI ⟨fun _ _ => ⟨rfl, rfl, rfl⟩, .rest fun _ _ => rfl⟩
    (fun u hu z => moved hpl (by nofun) (fun h => hu (Place.transit.inj h).symm) z)
    ⟨hI.chain, hI.top, hI.word, hI.tag, hI.nodup, fun z => ?_⟩ ⟨fun u z => ?_, fun u => ?_⟩
    (transit_own hI (by rw [hpc]; rfl) rfl) (created_move hI (by rw [hpl]; exact nofun) (by nofun)) hI.range
    (codes_move hI rfl rfl (by trivial)) hcode
  · exact (hI.onChain z).trans (moved hpl (by nofun) (by nofun) z).symm
  · by_cases hu : u = t
    · rw [hu, Function.update_self, mem_erase hI]
      exact (departed (by nofun) z).symm
    · rw [Function.update_of_ne hu]
      exact (hI.held u z).trans (moved hpl (fun h => hu (Place.held.inj h).symm) (by nofun) z).symm
  · by_cases hu : u = t
    · rw [hu, Function.update_self]
      exact (hI.once t).erase q
    · rw [Function.update_of_ne hu]
      exact hI.once u

/-- The blocks of the callers while a block goes from one to another. -/
lemma holding_give (hI : Inv b s c pl) (hpl : pl q = .held t) {h : τ → List ℕ}
    (hh : h = Function.update s.holds t ((s.holds t).erase q)) :
    Holding s (Function.update h u (q :: h u)) (Function.update pl q (.held u)) := by
  have hmid : ∀ v z, z ∈ h v ↔ z ≠ q ∧ pl z = .held v := by
    intro v z
    rw [hh]
    by_cases hv : v = t
    · rw [hv, Function.update_self, mem_erase hI]
    · rw [Function.update_of_ne hv, hI.held]
      refine ⟨fun h => ⟨fun hz => hv ?_, h⟩, fun h => h.2⟩
      rw [hz, hpl] at h
      exact (Place.held.inj h).symm
  have honce : ∀ v, (h v).Nodup := by
    intro v
    rw [hh]
    by_cases hv : v = t
    · rw [hv, Function.update_self]
      exact (hI.once t).erase q
    · rw [Function.update_of_ne hv]
      exact hI.once v
  refine ⟨fun v z => ?_, fun v => ?_⟩
  · by_cases hv : v = u
    · rw [hv, Function.update_self, List.mem_cons, hmid, arrived]
      by_cases hz : z = q
      · simp [hz]
      · simp [hz]
    · rw [Function.update_of_ne hv, hmid]
      exact (departed (fun h => hv (Place.held.inj h).symm) z).symm
  · by_cases hv : v = u
    · rw [hv, Function.update_self, List.nodup_cons, hmid]
      exact ⟨fun h => h.1 rfl, honce u⟩
    · rw [Function.update_of_ne hv]
      exact honce v

/-- A block goes from one caller to another. -/
lemma inv_give (hI : Inv b s c pl) (hq : q ∈ s.holds t) {h : τ → List ℕ}
    (hh : h = Function.update s.holds t ((s.holds t).erase q)) :
    Inv b { s with holds := Function.update h u (q :: h u) } c (Function.update pl q (.held u)) := by
  have hpl := (hI.held t q).mp hq
  have hcode := hI.codes q
  rw [hpl] at hcode
  obtain ⟨h1, h2⟩ := holding_give (u := u) hI hpl hh
  refine ⟨hI.chain, hI.top, hI.word, hI.tag, hI.nodup, fun z => ?_, h1, h2, fun v z => ?_,
    created_move hI (by rw [hpl]; exact nofun) (by nofun), hI.range, codes_move hI rfl rfl hcode, hI.at'⟩
  · exact (hI.onChain z).trans (moved hpl (by nofun) (by nofun) z).symm
  · exact (hI.transit v z).trans (moved hpl (by nofun) (by nofun) z).symm

/-- The exchange of `Push`. -/
lemma inv_push (hI : Inv b s c pl) (hpc : s.pc t = .pushCas q w) (hw : s.mem.freeStackTop = w) :
    Inv b (after s t { s.mem with freeStackTop := pack q (tag w) } .idle s.holds) (q :: c)
      (Function.update pl q .chain) := by
  have hat := hI.at' t
  rw [hpc] at hat
  obtain ⟨hcode, hnext⟩ := hat
  have h0 : (s.pc t).transit = some q := by
    rw [hpc]
    rfl
  have hpl := (hI.transit t q).mp h0
  have hrange := hI.range q ((hI.created q).mpr (by rw [hpl]; exact nofun))
  have hword := hI.word
  have htag := hI.tag
  rw [hw] at hword htag
  have hnc : q ∉ c := by
    rw [hI.onChain q, hpl]
    exact nofun
  refine inv_after hI ⟨fun _ _ => ⟨rfl, rfl, rfl⟩, .push fun _ _ => rfl⟩
    (fun u hu z => moved hpl (fun h => hu (Place.transit.inj h).symm) (by nofun) z)
    ⟨⟨?_, hI.chain⟩, ?_, ?_, ?_, List.nodup_cons.mpr ⟨hnc, hI.nodup⟩, fun z => ?_⟩
    (holding_move hI hpl (by nofun) (by nofun)) (transit_none hI h0 rfl (by nofun))
    (created_move hI (by rw [hpl]; exact nofun) (by nofun)) hI.range (codes_move hI rfl rfl hcode) trivial
  · rw [hI.top, hw, leads]
    exact congrArg link hnext
  · rw [addr_pack hrange.2, link, if_neg (by omega)]
    rfl
  · change pack q (tag w) < 2 ^ 64
    rw [pack_eq hrange.2]
    omega
  · change tag (pack q (tag w)) = s.mem.pops % 2 ^ 17
    rw [tag_pack hrange.2, htag, Nat.mod_mod]
  · rw [arrived, List.mem_cons, hI.onChain]

/-! ### Runs -/

/-- **One step of a call keeps the invariant.** -/
lemma tstep_inv (hI : Inv b s c pl) {p : Pc} (hp : s.pc t = p) {ch : Choice τ} (hok : timely s (t, ch))
    {r : Result} (h : tstep b s.mem p ch = some r) : ∃ c' pl', Inv b
      (after s t r.1 r.2.1 (Function.update s.holds t (r.2.2.toList ++ s.holds t))) c' pl' := by
  obtain ⟨m', p', ret⟩ := r
  have hat := hI.at' t
  rw [hp] at hat
  have hsame : Function.update s.holds t (s.holds t) = s.holds := Function.update_eq_self _ _
  -- a call writes only to the block it is working on
  have hown : ∀ q z, p.transit = some q → pl z ≠ .transit t → z ≠ q := by
    rintro q z hq hz rfl
    exact hz ((hI.transit t z).mp (by rw [hp]; exact hq))
  have hwrite : ret = none → m'.freeStackTop = s.mem.freeStackTop → m'.pops = s.mem.pops →
      m'.created = s.mem.created → (∀ z, pl z ≠ .transit t → m'.next z = s.mem.next z ∧
        m'.preCode z = s.mem.preCode z ∧ m'.postCode z = s.mem.postCode z) →
      p'.transit = p.transit → At b m' c p' → ∃ c' pl', Inv b
        (after s t m' p' (Function.update s.holds t (ret.toList ++ s.holds t))) c' pl' := by
    intro h1 h2 h3 h4 h5 h6 h7
    rw [h1, Option.toList_none, List.nil_append, hsame]
    exact ⟨c, pl, inv_stay hI h2 h3 h4 h5 (by rw [hp]; exact h6) h7⟩
  have hquiet : ret = none → m'.freeStackTop = s.mem.freeStackTop → m'.pops = s.mem.pops →
      m'.created = s.mem.created → m'.next = s.mem.next → m'.preCode = s.mem.preCode →
      m'.postCode = s.mem.postCode → p'.transit = p.transit → At b m' c p' → ∃ c' pl', Inv b
        (after s t m' p' (Function.update s.holds t (ret.toList ++ s.holds t))) c' pl' := by
    intro h1 h2 h3 h4 h5 h6 h7 h8 h9
    exact hwrite h1 h2 h3 h4 (fun q _ => ⟨by rw [h5], by rw [h6], by rw [h7]⟩) h8 h9
  revert h
  fun_cases tstep b s.mem p ch <;>
    simp only [Option.some.injEq, Prod.mk.injEq, reduceCtorEq, false_implies, and_imp]
  all_goals rintro rfl rfl rfl
  case case1 => exact hquiet rfl rfl rfl rfl rfl rfl rfl rfl trivial
  case case2 => exact hquiet rfl rfl rfl rfl rfl rfl rfl rfl trivial
  case case3 h0 =>
    have hmem : addr s.mem.freeStackTop ∈ c := by
      have := hI.top
      rw [link, if_neg h0] at this
      exact List.mem_of_mem_head? this
    exact hquiet rfl rfl rfl rfl rfl rfl rfl rfl ⟨⟨le_refl _, fun _ => hmem⟩, hI.tag⟩
  case case4 w v => exact hquiet rfl rfl rfl rfl rfl rfl rfl rfl ⟨⟨hat.1, fun _ => rfl⟩, hat.2⟩
  case case5 y v =>
    rw [timely] at hok
    dsimp only at hok
    rw [hp] at hok
    have := inv_pop hI hp rfl hok
    rwa [Option.toList_none, List.nil_append, hsame]
  case case6 => exact hquiet rfl rfl rfl rfl rfl rfl rfl rfl trivial
  case case7 q => exact hquiet rfl rfl rfl rfl rfl rfl rfl rfl ⟨hat.pre, hat.post⟩
  case case8 q code =>
    refine hwrite rfl rfl rfl rfl (fun z hz => ⟨rfl, rfl, ?_⟩) rfl ⟨hat.1, ?_⟩
    · exact Function.update_of_ne (hown q z rfl hz) _ _
    · change Function.update s.mem.postCode q (~~~code) q = b.myCode
      rw [Function.update_self, hat.2, UInt64.not_not]
  case case9 | case10 | case11 | case12 | case15 => exact hquiet rfl rfl rfl rfl rfl rfl rfl rfl trivial
  case case13 q hq =>
    have := inv_malloc hI hp hq.1 hq.2
    rw [Option.toList_none, List.nil_append, hsame]
    exact ⟨_, _, this⟩
  case case16 | case17 | case18 | case19 => exact hquiet rfl rfl rfl rfl rfl rfl rfl rfl trivial
  case case20 q =>
    refine hwrite rfl rfl rfl rfl (fun z hz => ⟨rfl, ?_, rfl⟩) rfl (Function.update_self _ _ _)
    exact Function.update_of_ne (hown q z rfl hz) _ _
  case case21 q =>
    refine hwrite rfl rfl rfl rfl (fun z hz => ⟨rfl, rfl, ?_⟩) rfl ⟨hat, Function.update_self _ _ _⟩
    exact Function.update_of_ne (hown q z rfl hz) _ _
  case case22 q => exact hquiet rfl rfl rfl rfl rfl rfl rfl rfl ⟨hat.pre, hat.post⟩
  case case23 q =>
    refine hwrite rfl rfl rfl rfl (fun z hz => ⟨?_, rfl, rfl⟩) rfl ⟨hat.pre, hat.post⟩
    exact Function.update_of_ne (hown q z rfl hz) _ _
  case case24 q => exact ⟨_, _, inv_return hI hp⟩
  case case25 q => exact hquiet rfl rfl rfl rfl rfl rfl rfl rfl ⟨hat, hat.pre⟩
  case case26 q => exact hquiet rfl rfl rfl rfl rfl rfl rfl rfl hat.1
  case case27 q pre hne => exact absurd (hat.2.trans hat.1.post.symm) hne
  case case28 q _ => exact hquiet rfl rfl rfl rfl rfl rfl rfl rfl hat
  case case29 q hne => exact absurd hat.pre hne
  case case30 q => exact hquiet rfl rfl rfl rfl rfl rfl rfl rfl ⟨hat.pre, hat.post⟩
  case case31 q code =>
    refine hwrite rfl rfl rfl rfl (fun z hz => ⟨rfl, rfl, ?_⟩) rfl ⟨hat.1, ?_⟩
    · exact Function.update_of_ne (hown q z rfl hz) _ _
    · change Function.update s.mem.postCode q (~~~code) q = ~~~b.myCode
      rw [Function.update_self, hat.2]
  case case32 q => exact hquiet rfl rfl rfl rfl rfl rfl rfl rfl ⟨hat.pre, hat.post⟩
  case case33 q => exact hquiet rfl rfl rfl rfl rfl rfl rfl rfl hat
  case case34 q w =>
    refine hwrite rfl rfl rfl rfl (fun z hz => ⟨?_, rfl, rfl⟩) rfl ⟨⟨hat.pre, hat.post⟩, Function.update_self _ _ _⟩
    exact Function.update_of_ne (hown q z rfl hz) _ _
  case case35 q =>
    have := inv_push hI hp rfl
    rw [Option.toList_none, List.nil_append, hsame]
    exact ⟨_, _, this⟩
  case case36 q w _ => exact hquiet rfl rfl rfl rfl rfl rfl rfl rfl hat.1

lemma pstep_inv (hI : Inv b s c pl) {a : τ × Choice τ} (hok : timely s a) (h : pstep b s a = some s') :
    ∃ c' pl', Inv b s' c' pl' := by
  obtain ⟨t, ch⟩ := a
  unfold pstep at h
  dsimp only at h
  split at h
  next q hpc =>
    rw [Option.ite_none_right_eq_some] at h
    obtain ⟨hq, h⟩ := h
    rw [← Option.some.inj h]
    exact ⟨c, _, inv_free hI hpc hq⟩
  next u q hpc =>
    rw [Option.ite_none_right_eq_some] at h
    obtain ⟨hq, h⟩ := h
    rw [← Option.some.inj h]
    exact ⟨c, _, inv_give hI hq rfl⟩
  next =>
    rw [Option.map_eq_some_iff] at h
    obtain ⟨r, hr, rfl⟩ := h
    exact tstep_inv hI rfl hok hr

/-! ### The constructor -/

/-- The blocks that the loop of the constructor has linked. -/
structure Linked (b : Boot) (m : Mem) (c : List ℕ) : Prop where
  chain : Chain (leads m) c
  top : c.head? = link m.freeStackTop
  small : m.freeStackTop < 2 ^ 47
  created : ∀ q, m.created q = true ↔ q ∈ c
  codes : ∀ q ∈ c, NotInUse b m q
  pops : m.pops = 0

lemma linkAll_linked {m : Mem} {blocks : List ℕ} (h : Linked b m c) (hn : blocks.Nodup)
    (hd : ∀ q ∈ blocks, q ∉ c) (hr : ∀ q ∈ blocks, 0 < q ∧ q < 2 ^ 47) :
    Linked b (linkAll b m blocks) (blocks.reverse ++ c) := by
  induction blocks generalizing m c with
  | nil => exact h
  | cons q qs ih =>
    obtain ⟨hq, hqs⟩ := List.nodup_cons.mp hn
    have hqc := hd q List.mem_cons_self
    have hne : ∀ z ∈ c, z ≠ q := fun z hz hzq => hqc (hzq ▸ hz)
    rw [List.reverse_cons, List.append_assoc, List.singleton_append, linkAll, List.foldl_cons]
    refine ih ⟨⟨?_, h.chain.congr fun z hz => ?_⟩, ?_, (hr q List.mem_cons_self).2, fun z => ?_, fun z hz => ?_,
      h.pops⟩ hqs (fun z hz hm => ?_) fun z hz => hr z (List.mem_cons_of_mem _ hz)
    · change link (Function.update m.next q m.freeStackTop q) = _
      rw [Function.update_self, h.top]
    · change link (Function.update m.next q m.freeStackTop z) = _
      rw [Function.update_of_ne (hne z hz)]
      rfl
    · rw [link, if_neg (by have := (hr q List.mem_cons_self).1; dsimp only; omega)]
      rfl
    · change Function.update m.created q true z = true ↔ _
      by_cases hz : z = q
      · simp [hz]
      · rw [Function.update_of_ne hz, h.created, List.mem_cons]
        exact ⟨.inr, fun h => h.resolve_left hz⟩
    · rcases List.mem_cons.mp hz with rfl | hz
      · exact ⟨Function.update_self _ _ _, Function.update_self _ _ _⟩
      · obtain ⟨h1, h2⟩ := h.codes z hz
        exact ⟨(Function.update_of_ne (hne z hz) _ _).trans h1, (Function.update_of_ne (hne z hz) _ _).trans h2⟩
    · rcases List.mem_cons.mp hm with rfl | hm
      · exact hq hz
      · exact hd z (List.mem_cons_of_mem _ hz) hm

lemma construct_linked (b : Boot) : Linked b (linkAll b (bare b) b.blocks) b.blocks.reverse := by
  have h0 : Linked b (bare b) [] :=
    ⟨trivial, rfl, by rw [bare]; norm_num, fun q => by simp [bare], fun q hq => absurd hq List.not_mem_nil, rfl⟩
  have := linkAll_linked h0 b.nodup (fun _ _ => List.not_mem_nil) b.range
  rwa [List.append_nil] at this

omit [DecidableEq τ] in
lemma construct_inv (b : Boot) : Inv b (construct b : Pool τ) b.blocks.reverse
    fun q => if q ∈ b.blocks then .chain else .away := by
  obtain ⟨h1, h2, h3, h4, h5, h6⟩ := construct_linked b
  have haddr : addr (linkAll b (bare b) b.blocks).freeStackTop = (linkAll b (bare b) b.blocks).freeStackTop := by
    rw [addr_eq, Nat.mod_eq_of_lt h3]
  have hpl : ∀ q (P : Place τ), P ≠ .chain → P ≠ .away →
      (if q ∈ b.blocks then Place.chain else .away : Place τ) ≠ P := by
    intro q P h1 h2
    split_ifs
    · exact h1.symm
    · exact h2.symm
  refine ⟨h1, ?_, ?_, ?_, List.nodup_reverse.mpr b.nodup, fun q => ?_,
    fun t q => ⟨fun h => absurd h List.not_mem_nil, fun h => absurd h (hpl q _ nofun nofun)⟩,
    fun _ => List.nodup_nil, fun t q => ⟨fun h => (nomatch h), fun h => absurd h (hpl q _ nofun nofun)⟩,
    fun q => ?_, fun q hq => ?_, fun q => ?_, fun _ => trivial⟩
  · change _ = link (addr (linkAll b (bare b) b.blocks).freeStackTop)
    rw [haddr]
    exact h2
  · change (linkAll b (bare b) b.blocks).freeStackTop < 2 ^ 64
    omega
  · change tag (linkAll b (bare b) b.blocks).freeStackTop = (linkAll b (bare b) b.blocks).pops % 2 ^ 17
    rw [tag_eq, h6]
    omega
  · rw [List.mem_reverse]
    split_ifs with h
    · exact ⟨fun _ => rfl, fun _ => h⟩
    · exact ⟨fun hq => absurd hq h, fun hq => nomatch hq⟩
  · refine (h4 q).trans ?_
    rw [List.mem_reverse]
    split_ifs with h
    · exact ⟨fun _ => nofun, fun _ => h⟩
    · exact ⟨fun hq => absurd hq h, fun hq => absurd rfl hq⟩
  · exact b.range q (List.mem_reverse.mp ((h4 q).mp hq))
  · split_ifs with h
    · obtain ⟨h7, h8⟩ := h5 q (List.mem_reverse.mpr h)
      exact ⟨h7, h8⟩
    · trivial

/-- **Every state.** -/
lemma reach_inv (h : Reach (pstep b) timely (construct b) s) : ∃ c pl, Inv b s c pl :=
  Reach.inv (I := fun s => ∃ c pl, PoolInv.Inv b s c pl) ⟨_, _, construct_inv b⟩
    (fun _ _ _ _ hi ho hs => by
      obtain ⟨c, pl, hI⟩ := hi
      exact pstep_inv hI ho hs) h

/-! ### The blocks -/

variable [Fintype τ]

/-- What the pool is: the chain from `_freeStackTop` ends with null, and every block that has been
created is once on the chain, with a caller or with a call, and no other is anywhere. -/
structure Partition (b : Boot) (s : Pool τ) (c : List ℕ) : Prop where
  chain : Chain (leads s.mem) c
  top : c.head? = link (addr s.mem.freeStackTop)
  once : ∀ q, (∑ t, (s.holds t).count q) + (∑ t, (s.pc t).transit.toList.count q) + c.count q =
    if s.mem.created q = true then 1 else 0
  /-- No two callers hold a block. -/
  callers : ∀ t u q, q ∈ s.holds t → q ∈ s.holds u → t = u
  /-- The tests of `Free` do not fail. -/
  accepts : ∀ t q, (∀ pre, s.pc t = .freePost q pre → pre = s.mem.postCode q) ∧
    (s.pc t = .freeCode q → s.mem.preCode q = b.myCode)

omit [DecidableEq τ] in
lemma partition_of_inv (hI : Inv b s c pl) : Partition b s c := by
  have htr : ∀ t q, q ∈ (s.pc t).transit.toList ↔ pl q = .transit t := by
    intro t q
    rw [Option.mem_toList]
    exact hI.transit t q
  refine ⟨hI.chain, hI.top, fun q => ?_, fun t u q ht hu => ?_, fun t q => ⟨fun pre hp => ?_, fun hp => ?_⟩⟩
  · have h1 : (∀ t, pl q ≠ .held t) → ∑ t, (s.holds t).count q = 0 := fun h =>
      sum_count_zero fun t hm => h t ((hI.held t q).mp hm)
    have h2 : (∀ t, pl q ≠ .transit t) → ∑ t, (s.pc t).transit.toList.count q = 0 := fun h =>
      sum_count_zero fun t hm => h t ((htr t q).mp hm)
    have h3 : pl q ≠ .chain → c.count q = 0 := fun h =>
      List.count_eq_zero.mpr fun hm => h ((hI.onChain q).mp hm)
    have hcr := hI.created q
    match hp : pl q with
    | .away =>
      rw [h1 (by rw [hp]; exact nofun), h2 (by rw [hp]; exact nofun), h3 (by rw [hp]; exact nofun),
        if_neg fun h => hcr.mp h hp]
    | .chain =>
      rw [h1 (by rw [hp]; exact nofun), h2 (by rw [hp]; exact nofun), if_pos (hcr.mpr (by rw [hp]; exact nofun)),
        List.count_eq_one_of_mem hI.nodup ((hI.onChain q).mpr hp)]
    | .held t =>
      rw [h2 (by rw [hp]; exact nofun), h3 (by rw [hp]; exact nofun), if_pos (hcr.mpr (by rw [hp]; exact nofun)),
        sum_count_one (hI.once t) ((hI.held t q).mpr hp)]
      rintro u hu hm
      rw [hI.held, hp] at hm
      exact hu (Place.held.inj hm).symm
    | .transit t =>
      rw [h1 (by rw [hp]; exact nofun), h3 (by rw [hp]; exact nofun), if_pos (hcr.mpr (by rw [hp]; exact nofun)),
        sum_count_one (t := t) ?_ ((htr t q).mpr hp)]
      · rintro u hu hm
        rw [htr, hp] at hm
        exact hu (Place.transit.inj hm).symm
      · cases (s.pc t).transit with
        | none => exact List.nodup_nil
        | some z => exact List.nodup_singleton z
  · rw [hI.held] at ht hu
    exact Place.held.inj (ht.symm.trans hu)
  · have hat := hI.at' t
    rw [hp] at hat
    exact hat.2.trans hat.1.post.symm
  · have hat := hI.at' t
    rw [hp] at hat
    exact hat.pre

/-- **The pool hands out no block twice and loses none.** -/
theorem pool_partition (h : Reach (pstep b) timely (construct b) s) : ∃ c, Partition b s c := by
  obtain ⟨c, pl, hI⟩ := reach_inv h
  exact ⟨c, partition_of_inv hI⟩

omit [Fintype τ] in
/-- A run that can be evaluated. -/
lemma reach_timely (l : List (τ × Choice τ)) {p : Pool τ → Bool}
    (h : (run (pstep b) (fun s a => decide (timely s a)) (construct b) l).map p = some true) :
    ∃ s, Reach (pstep b) timely (construct b) s ∧ p s = true :=
  reach_of_run (fun _ _ => of_decide_eq_true) l h

/-- Two blocks, at 64 and 128, and room for one more. -/
def twoBlocks : Boot where
  myCode := 1
  addAllocMax := 1
  blocks := [64, 128]
  next _ := 0
  preCode _ := 0
  postCode _ := 0
  nodup := by decide
  range := by decide

/-- `n` steps of thread `t`. -/
def ticks (t : τ) (n : ℕ) : List (τ × Choice τ) := List.replicate n (t, .tick)

/-- The second thread has read both blocks when the first takes them and returns the upper one, so
that its exchange finds the same address and another tag. It starts again, a third block is made for
the first, and that is handed to the second. -/
def exchange : List (Fin 2 × Choice (Fin 2)) :=
  [(1, .alloc)] ++ ticks 1 2 ++ [(0, .alloc)] ++ ticks 0 6 ++ [(0, .alloc)] ++ ticks 0 6 ++
    [(0, .free 128)] ++ ticks 0 9 ++ ticks 1 7 ++ [(0, .alloc)] ++ ticks 0 2 ++ [(0, .memory 192)] ++ ticks 0 8 ++
    [(0, .give 1 192)]

theorem pool_partition_exchange : ∃ s : Pool (Fin 2),
    Reach (pstep twoBlocks) timely (construct twoBlocks) s ∧ s.holds 0 = [64] ∧ s.holds 1 = [192, 128] ∧ s.mem.pops = 3 ∧ ∃ c, Partition twoBlocks s c := by
  obtain ⟨s, hr, hp⟩ := reach_timely (b := twoBlocks) exchange (p := fun s => decide
    (s.holds 0 = [64] ∧ s.holds 1 = [192, 128] ∧ s.mem.pops = 3)) (by decide +kernel)
  obtain ⟨h1, h2, h3⟩ := of_decide_eq_true hp
  exact ⟨s, hr, h1, h2, h3, pool_partition hr⟩

end LoginServerChat.PoolRun
