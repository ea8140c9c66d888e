import LoginServerChat.LoginDialog

/-!
The steps of the callbacks in the dialogs of the sessions: a `Character` is set up for a session, found when
one of its packets is received, and given back when the session ends.
-/

namespace LoginServerChat.LoginProgram

open NetPacket Packet Cipher NetState NetStep SlotStep SlotView SlotRun SlotRefs SlotPhase SlotLive SlotJoin
  OwnCalls PacketStep PacketRefs PacketShape RecvRoom RecvPackets Contents CallbackStage Callbacks CallbackRun
  CallbackCode CallbackProtocol AcceptUndo StreamOrder LoginRests Login Runs

variable {τ : Type*} [DecidableEq τ] [Fintype τ] {b : Boot} {a : τ} {w : τ → Bool} {sid : ℕ → SessionID}
  {P P' : Program τ} {t u : τ} {k p q x : ℕ} {c₀ : Character} {s : State τ}

/-- What becomes of the operations that are posted is nothing to the dialogs. -/
lemma Dialog.complete {io : IoReq} {n : ℕ} {d : List UInt8} (hD : Dialog b a w sid P)
    (h : layer P (.complete io n d) = some P') : Dialog b a w sid P' := by
  simp only [layer, Option.map_eq_some_iff] at h
  obtain ⟨s, hs, rfl⟩ := h
  have hb := hD.toBacked.follow hs fun t ch he => by cases he
  simp only [cstep, Option.map_eq_some_iff, NetStep.step] at hs
  obtain ⟨n', hn, rfl⟩ := hs
  split at hn <;> simp only [Option.some.injEq, reduceCtorEq] at hn
  subst hn
  refine ⟨hb, hD.names, fun t => (hD.threads t).spared ⟨rfl, rfl, rfl, fun _ _ => rfl, fun _ _ _ _ => rfl⟩ rfl
    fun _ _ _ => rfl, fun k hk => ?_⟩
  obtain ⟨B, hB, hT⟩ := hD.slots k hk
  refine ⟨B, hB, SlotTalk.beside (P := P) ⟨rfl, rfl, ?_, rfl, fun x hx => ⟨hx, rfl⟩,
    fun t ht => ⟨ht, fun id x hx => ⟨hx, rfl⟩⟩,
    fun t p => Iff.rfl, fun t p _ => ⟨rfl, rfl, rfl, fun _ _ => rfl, fun _ _ _ _ => rfl⟩⟩ hD.threads hT⟩
  simp only [LoginProgram.follow, StreamOrder.observe]
  split
  · rfl
  · by_cases hk : k = io.slot
    · subst hk
      rw [Function.update_self]
      rfl
    · rw [Function.update_of_ne hk]

/-- Before the `insert` of its `OnClientJoin` a session has no entry. -/
lemma Backed.no_entry (h : Backed b a w sid P) (hc : callback (P.loc t).pc = some (.join, k))
    (hp : P.s.pc t ≠ .done) (x : ℕ) : (idAt P.s k, x) ∉ P.s.characterMap := by
  intro hx
  obtain ⟨st, hS⟩ := h.sound
  have hname : slotOf (idAt P.s k) = k := (callback_current h.net hc).2
  obtain ⟨-, he⟩ := (hS.entries _).mp (key_mem hx)
  rw [hname, joining_of_callback hS hc] at he
  obtain ⟨u, hu, hdone⟩ := he
  obtain rfl := h.unique hc hu
  exact hp hdone

/-- What a step of the code of a callback leaves as it is. -/
structure CodeStep (P P' : Program τ) (t : τ) : Prop where
  net : P'.s.net = P.s.net
  pc : ∀ u ≠ t, P'.s.pc u = P.s.pc u
  job : ∀ u ≠ t, P'.job u = P.job u
  world : P'.world = P.world
  text : P'.text = P.text
  turns : P'.turns = P.turns
  streams : P'.streams = P.streams
  out : P'.out = P.out

omit [DecidableEq τ] [Fintype τ] in
lemma CodeStep.loc (h : CodeStep P P' t) (u : τ) : P'.loc u = P.loc u := by
  rw [Program.loc, h.net]
  rfl

omit [DecidableEq τ] [Fintype τ] in
lemma CodeStep.mem (h : CodeStep P P' t) : P'.mem = P.mem := by
  rw [Program.mem, h.net]
  rfl

omit [DecidableEq τ] [Fintype τ] in
lemma CodeStep.id (h : CodeStep P P' t) (k : ℕ) : idAt P'.s k = idAt P.s k := by
  rw [idAt, h.net]
  rfl

omit [DecidableEq τ] [Fintype τ] in
lemma CodeStep.spared (h : CodeStep P P' t) (hj : P'.job u = P.job u) : Spared P P' u :=
  ⟨h.loc u, hj, by rw [h.world], fun _ _ => by rw [h.mem], fun _ _ _ _ => by rw [h.text]⟩

omit [DecidableEq τ] [Fintype τ] in
/-- A slot whose entries and whose `OnClientJoin` the step has nothing to do with. -/
lemma CodeStep.beside (h : CodeStep P P' t) (hjob : ∀ u p, AtRecv (P.loc u) k p → P'.job u = P.job u)
    (hmap : ∀ x, (idAt P.s k, x) ∈ P'.s.characterMap →
      (idAt P.s k, x) ∈ P.s.characterMap ∧ P'.character x = P.character x)
    (hins : ∀ u id x, callback (P.loc u).pc = some (.join, k) → P'.s.pc u = .insert id x →
      P.s.pc u = .insert id x ∧ P'.character x = P.character x) : Beside P P' k := by
  refine ⟨h.id k, by rw [h.turns], by rw [h.streams], by rw [h.out], hmap, fun u hu => ?_, fun u p => by rw [h.loc],
    fun u p hp => h.spared (hjob u p hp)⟩
  rw [h.loc] at hu
  exact ⟨hu, fun id x hx => hins u id x hu hx⟩

omit [Fintype τ] in
/-- What is left to show of a step of the code. -/
lemma Dialog.coded (hD : Dialog b a w sid P) (hb : Backed b a w sid P') (hC : CodeStep P P' t) (hn : Named P')
    (hfresh : (∀ id x, P'.s.pc t ≠ .handle id x) → P'.job t = .out)
    (hhand : ∀ k p, AtRecv (P.loc t) k p → Papers P.mem (P.loc t) k (idAt P.s k) p (P'.job t))
    (hslots : ∀ k B, (P.mem.hist k).joined = true → (B.id.length = 40 ∧ B.nickname.length = 40) →
      SlotTalk P k (onClientJoin (idAt P.s k).toNat B) → ∃ B : Character,
        (B.id.length = 40 ∧ B.nickname.length = 40) ∧ SlotTalk P' k (onClientJoin (idAt P.s k).toNat B)) :
    Dialog b a w sid P' := by
  refine ⟨hb, hn, fun u => ?_, fun k hk => ?_⟩
  · by_cases hu : u = t
    · subst hu
      refine ⟨hfresh, fun ht => ?_, fun k p hp => ?_⟩
      · rw [hC.loc]
        exact (hD.threads u).outside fun k p hp => ht k p (hC.loc u ▸ hp)
      · rw [hC.loc] at hp ⊢
        rw [hC.mem, hC.id]
        exact hhand k p hp
    · exact (hD.threads u).spared (hC.spared (hC.job u hu)) (hC.pc u hu) fun k p _ => hC.id k
  · rw [hC.mem] at hk
    rw [hC.id]
    obtain ⟨B, hB, hT⟩ := hD.slots k hk
    exact hslots k B hk hB hT

/-- `Alloc` in `OnClientJoin` sets the `Character` up. -/
lemma Dialog.code_alloc {id : SessionID} (hD : Dialog b a w sid P) (hb : Backed b a w sid P')
    (hC : CodeStep P P' t) (ha : P.s.pc t = .alloc id) (hq : q ∉ P.s.held)
    (hpc : P'.s.pc t = .insert id q) (hM : P'.s.characterMap = P.s.characterMap) (hj : P'.job = P.job)
    (hc : P'.character = Function.update P.character q (onClientJoin id.toNat (P.character q))) :
    Dialog b a w sid P' := by
  obtain ⟨st, hS⟩ := hD.sound
  obtain ⟨k₀, hcb, hid⟩ := placed_alloc (hS.placed t) ha
  have hout : P.job t = .out := (hD.threads t).fresh fun id' x h => by cases ha.symm.trans h
  have hold : ∀ y, y ∈ P.s.held → P'.character y = P.character y := fun y hy => by
    have hyq : y ≠ q := fun h => hq (h ▸ hy)
    rw [hc, Function.update_of_ne hyq]
  refine hD.coded hb hC (fun y => ?_) (fun _ => by rw [hj]; exact hout)
    (fun k p hp => by rw [hj]; exact (hD.threads t).handling k p hp) fun k B hk hB hT => ?_
  · rw [hc]
    by_cases hy : y = q
    · subst hy
      rw [Function.update_self]
      exact hD.names y
    · rw [Function.update_of_ne hy]
      exact hD.names y
  by_cases hkk : k = k₀
  · subst hkk
    refine ⟨P.character q, hD.names q, ?_⟩
    obtain ⟨hturns, -⟩ := hT.joining t hcb
    have hno := hD.not_atRecv hcb
    refine ⟨by rw [hC.id]; exact hT.name, fun u hu => ?_, fun u p hp => ?_, fun _ => ?_, fun _ x hx => ?_⟩
    · rw [hC.loc] at hu
      obtain rfl := hD.unique hcb hu
      refine ⟨by rw [hC.turns]; exact hturns, fun id' x hx => ?_⟩
      obtain ⟨rfl, rfl⟩ := CbPc.insert.inj (hpc.symm.trans hx)
      rw [hc, Function.update_self, hid]
    · rw [hC.loc] at hp
      exact absurd hp (hno u p)
    · obtain ⟨c, hheard, hsaid, -⟩ := hT.idle hno
      refine ⟨_, by rw [hC.turns, hC.streams]; exact hheard, ?_, rfl⟩
      rw [hC.turns, hC.out, hsaid, hturns]
      rfl
    · rw [hC.id, hM] at hx
      exact absurd hx (hD.no_entry hcb (by rw [ha]; exact fun h => by cases h) x)
  · refine ⟨B, hB, hT.beside (hC.beside (fun u p _ => by rw [hj]) (fun y hy => ?_) fun u id' y hu hy => ?_)
      hD.threads⟩
    · rw [hM] at hy
      exact ⟨hy, hold y (held_of_mem hS (.inl ⟨_, hy⟩))⟩
    · have hut : u ≠ t := by
        rintro rfl
        exact hkk (Prod.mk.inj (Option.some.inj (hu.symm.trans hcb))).2
      rw [hC.pc u hut] at hy
      exact ⟨hy, hold y (held_of_mem hS (.inr ⟨u, id', hy⟩))⟩

/-- `insert` in `OnClientJoin` enters it. -/
lemma Dialog.code_insert {id : SessionID} (hD : Dialog b a w sid P) (hb : Backed b a w sid P')
    (hC : CodeStep P P' t) (ha : P.s.pc t = .insert id x) (hpc : P'.s.pc t = .done)
    (hM : P'.s.characterMap = insertMap P.s.characterMap id x) (hj : P'.job = P.job)
    (hc : P'.character = P.character) : Dialog b a w sid P' := by
  obtain ⟨st, hS⟩ := hD.sound
  obtain ⟨k₀, hcb, hid, -⟩ := placed_insert (hS.placed t) ha
  have hout : P.job t = .out := (hD.threads t).fresh fun id' x h => by cases ha.symm.trans h
  have hnew : ∀ i y, (i, y) ∈ P'.s.characterMap → i = id ∧ y = x ∨ (i, y) ∈ P.s.characterMap := by
    intro i y hy
    rw [hM, insertMap] at hy
    split at hy
    · rcases List.mem_cons.mp hy with hy | hy
      · exact .inl (Prod.mk.inj hy)
      · exact .inr hy
    · exact .inr hy
  refine hD.coded hb hC (fun y => hc ▸ hD.names y) (fun _ => by rw [hj]; exact hout)
    (fun k p hp => by rw [hj]; exact (hD.threads t).handling k p hp) fun k B hk hB hT => ⟨B, hB, ?_⟩
  by_cases hkk : k = k₀
  · subst hkk
    obtain ⟨hturns, hins⟩ := hT.joining t hcb
    have hno := hD.not_atRecv hcb
    have hstands : Stands P' k (onClientJoin (idAt P.s k).toNat B) [] [] (onClientJoin (idAt P.s k).toNat B) := by
      obtain ⟨c, hheard, hsaid, -⟩ := hT.idle hno
      refine ⟨by rw [hC.turns, hC.streams]; exact hheard, by rw [hC.turns, hC.out]; exact hsaid, ?_⟩
      rw [hC.turns, hturns]
      rfl
    refine ⟨by rw [hC.id]; exact hT.name, fun u hu => ?_, fun u p hp => ?_, fun _ => ⟨_, hstands⟩, fun _ y hy => ?_⟩
    · rw [hC.loc] at hu
      obtain rfl := hD.unique hcb hu
      exact ⟨by rw [hC.turns]; exact hturns, fun id' y hy => by cases hpc.symm.trans hy⟩
    · rw [hC.loc] at hp
      exact absurd hp (hno u p)
    · rw [hC.id] at hy
      rcases hnew _ y hy with ⟨-, rfl⟩ | hy
      · rw [hc, hins id y ha]
        exact hstands
      · exact absurd hy (hD.no_entry hcb (by rw [ha]; exact fun h => by cases h) y)
  · refine hT.beside (hC.beside (fun u p _ => by rw [hj]) (fun y hy => ?_) fun u id' y hu hy => ?_) hD.threads
    · rcases hnew _ y hy with ⟨he, -⟩ | hy
      · have hslot : slotOf (idAt P.s k₀) = k₀ := (callback_current hD.net hcb).2
        rw [← hid, ← he, hT.name] at hslot
        exact absurd hslot hkk
      · exact ⟨hy, by rw [hc]⟩
    · have hut : u ≠ t := by
        rintro rfl
        exact hkk (Prod.mk.inj (Option.some.inj (hu.symm.trans hcb))).2
      rw [hC.pc u hut] at hy
      exact ⟨hy, by rw [hc]⟩

omit [Fintype τ] in
/-- The other steps take entries out, or nothing. -/
lemma Dialog.code_rest (hD : Dialog b a w sid P) (hb : Backed b a w sid P') (hC : CodeStep P P' t)
    (hj : P'.job = P.job) (hc : P'.character = P.character) (hpc : ∀ id x, P.s.pc t ≠ .handle id x)
    (hpc' : ∀ id x, P'.s.pc t ≠ .insert id x) (hM : ∀ z ∈ P'.s.characterMap, z ∈ P.s.characterMap) :
    Dialog b a w sid P' := by
  refine hD.coded hb hC (fun y => hc ▸ hD.names y) (fun _ => by rw [hj]; exact (hD.threads t).fresh hpc)
    (fun k p hp => by rw [hj]; exact (hD.threads t).handling k p hp) fun k B hk hB hT => ⟨B, hB, ?_⟩
  refine hT.beside (hC.beside (fun u p _ => by rw [hj]) (fun y hy => ⟨hM _ hy, by rw [hc]⟩) fun u id y _ hy => ?_)
    hD.threads
  have hut : u ≠ t := by
    rintro rfl
    exact hpc' id y hy
  rw [hC.pc u hut] at hy
  exact ⟨hy, by rw [hc]⟩

/-- `JobHandler` is called. -/
lemma Dialog.code_deref {id : SessionID} (hD : Dialog b a w sid P) (hb : Backed b a w sid P') (hC : CodeStep P P' t)
    (hapi : (P.loc t).api = .idle) (ha : P.s.pc t = .deref id x) (hpc : P'.s.pc t = .handle id x)
    (hj : P'.job t = .type) (hc : P'.character = P.character) (hM : P'.s.characterMap = P.s.characterMap) :
    Dialog b a w sid P' := by
  have hout : P.job t = .out := (hD.threads t).fresh fun id' x h => by cases ha.symm.trans h
  have hmine : ∀ k p, AtRecv (P.loc t) k p → Mine P.mem (P.loc t) p := fun k p hp =>
    ((hD.threads t).handling k p hp).request (by rw [hout]; rfl)
  refine hD.coded hb hC (fun y => hc ▸ hD.names y) (fun h => absurd hpc (h id x))
    (fun k p hp => by rw [hj]; exact .of_reads rfl hapi (hmine k p hp)) fun k B hk hB hT => ⟨B, hB, ?_⟩
  by_cases hat : ∃ p, AtRecv (P.loc t) k p
  · obtain ⟨p, hat⟩ := hat
    refine .of_recv hb (by rw [hC.loc]; exact hat) fun y hy => ?_
    rw [hC.id, hM] at hy
    have hI := hT.receiving t p hat y hy
    rw [InHand, hout] at hI
    rw [InHand, hj, hC.mem, hC.world, hc, hC.text, hC.loc, Program.packet, ← Program.mem, hC.mem]
    exact hI.congr (by rw [hC.turns]) (by rw [hC.streams]) (by rw [hC.out])
  · refine hT.beside (hC.beside (fun u p hp => hC.job u ?_) (fun y hy => ⟨hM ▸ hy, by rw [hc]⟩)
      fun u id' y _ hy => ?_) hD.threads
    · rintro rfl
      exact hat ⟨p, hp⟩
    · have hut : u ≠ t := by
        rintro rfl
        cases hpc.symm.trans hy
      rw [hC.pc u hut] at hy
      exact ⟨hy, by rw [hc]⟩

/-- **A step of the code of a callback.** -/
lemma Dialog.code (hD : Dialog b a w sid P) (h : codeOf P t q = some P') : Dialog b a w sid P' := by
  simp only [codeOf, Option.map_eq_some_iff] at h
  obtain ⟨s, hs, rfl⟩ := h
  have hb := hD.toBacked.code hs
  have hnet := codeStep_net hs
  simp only [codeStep] at hs
  split at hs
  case isTrue => cases hs
  case isFalse hapi =>
    have hapi : (P.loc t).api = .idle := not_not.mp hapi
    have hgoto : ∀ (s₁ : State τ) z, (goto s₁ t z).pc t = z ∧ ∀ u ≠ t, (goto s₁ t z).pc u = s₁.pc u := fun s₁ z =>
      ⟨Function.update_self _ _ _, fun u hu => Function.update_of_ne hu _ _⟩
    cases hpc : P.s.pc t <;> simp only [hpc] at hs ⊢
    case alloc id =>
      split at hs <;> simp only [Option.some.injEq, reduceCtorEq] at hs
      rename_i hq
      subst hs
      exact hD.code_alloc ⟨hb.contents, hb.streams, hb.sends⟩
        ⟨rfl, (hgoto _ _).2, fun _ _ => rfl, rfl, rfl, rfl, rfl, rfl⟩ hpc hq (hgoto _ _).1 rfl rfl rfl
    case insert id x =>
      cases hs
      exact hD.code_insert hb ⟨rfl, (hgoto _ _).2, fun _ _ => rfl, rfl, rfl, rfl, rfl, rfl⟩ hpc (hgoto _ _).1
        rfl rfl rfl
    case find id =>
      cases hl : P.s.characterMap.lookup id <;> simp only [hl, Option.some.injEq] at hs
      all_goals
        subst hs
        refine hD.code_rest ⟨hb.contents, hb.streams, hb.sends⟩
          ⟨rfl, (hgoto _ _).2, fun _ _ => rfl, rfl, rfl, rfl, rfl, rfl⟩ rfl rfl (fun i y h => ?_) (fun i y h => ?_)
          fun _ hz => hz
        · cases hpc.symm.trans h
        · cases (hgoto _ _).1.symm.trans h
    case deref id x =>
      cases hs
      exact hD.code_deref ⟨hb.contents, hb.streams, hb.sends⟩
        ⟨rfl, (hgoto _ _).2, fun u hu => Function.update_of_ne hu _ _, rfl, rfl, rfl, rfl, rfl⟩ hapi hpc
        (hgoto _ _).1
        (Function.update_self _ _ _) rfl rfl
    case erase id =>
      cases hl : P.s.characterMap.lookup id <;> simp only [hl, Option.some.injEq] at hs
      all_goals
        subst hs
        refine hD.code_rest ⟨hb.contents, hb.streams, hb.sends⟩
          ⟨rfl, (hgoto _ _).2, fun _ _ => rfl, rfl, rfl, rfl, rfl, rfl⟩ rfl rfl (fun i y h => ?_) (fun i y h => ?_)
          fun z hz => ?_
        · cases hpc.symm.trans h
        · cases (hgoto _ _).1.symm.trans h
      · exact hz
      · exact (mem_eraseMap.mp hz).1
    all_goals cases hs

end LoginServerChat.LoginProgram
