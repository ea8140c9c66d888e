import LoginServerChat.LoginCode

/-!
The steps of `JobHandler` in the dialogs of the sessions. The thread that handles a request does nothing to
the other dialogs, and its own stays in step with `Login` from point to point.
-/

namespace LoginServerChat.LoginProgram

open NetPacket Packet Cipher NetState NetStep SlotStep SlotView SlotRun SlotRefs SlotPhase SlotLive SlotJoin
  OwnCalls PacketStep PacketRefs PacketShape RecvRoom RecvPackets Contents CallbackStage Callbacks CallbackRun
  CallbackCode CallbackProtocol AcceptUndo StreamOrder LoginRests Login Runs
open SendStream (Outgoing careful noteText)

variable {τ : Type*} [DecidableEq τ] {b : Boot} {a : τ} {w : τ → Bool} {sid : ℕ → SessionID}
  {P P₁ P' : Program τ} {t u : τ} {i k p q r x y : ℕ} {id id' : SessionID} {ch : Choice} {c : Character} {j : JobPc}
  {m m' : Mem} {l l' : Local}

/-- What `JobHandler` itself changes of the program: the point it is at, its `Character`, and what goes with
its request. -/
structure Touched (P P' : Program τ) (u : τ) (i x : ℕ) : Prop where
  s : P'.s = P.s
  streams : P'.streams = P.streams
  text : P'.text = P.text
  out : P'.out = P.out
  turns : ∀ k ≠ i, P'.turns k = P.turns k
  character : ∀ y ≠ x, P'.character y = P.character y
  job : ∀ t ≠ u, P'.job t = P.job t
  world : ∀ t ≠ u, P'.world t = P.world t

omit [DecidableEq τ] in
lemma touched_refl : Touched P P u i x :=
  ⟨rfl, rfl, rfl, rfl, fun _ _ => rfl, fun _ _ => rfl, fun _ _ => rfl, fun _ _ => rfl⟩

lemma Touched.goto (h : Touched P P' u i x) : Touched P (P'.goto u j) u i x :=
  ⟨h.s, h.streams, h.text, h.out, h.turns, h.character,
    fun t ht => (Function.update_of_ne ht _ _).trans (h.job t ht), h.world⟩

omit [DecidableEq τ] in
lemma Touched.store (h : Touched P P' u i x) : Touched P (P'.store x c) u i x :=
  ⟨h.s, h.streams, h.text, h.out, h.turns, fun y hy => (Function.update_of_ne hy _ _).trans (h.character y hy),
    h.job, h.world⟩

lemma touched_take {T : List Turn} {v : World} : Touched P
    { P with world := Function.update P.world u v, turns := Function.update P.turns i T } u i x :=
  ⟨rfl, rfl, rfl, rfl, fun _ hk => Function.update_of_ne hk _ _, fun _ _ => rfl, fun _ _ => rfl,
    fun _ ht => Function.update_of_ne ht _ _⟩

lemma Touched.backed (h : Touched P P' u i x) (hb : Backed b a w sid P) : Backed b a w sid P' := by
  refine ⟨?_, ?_, ?_⟩
  · rw [h.s]
    exact hb.contents
  · rw [h.s, h.streams]
    exact hb.streams
  · rw [h.s, h.text, h.out]
    exact hb.sends

lemma Touched.ran (h : Touched P₁ P' u i x) (hR : Ran P P₁ u ch m' l') : Ran P P' u ch m' l' := by
  refine ⟨hR.step, hR.admits, ?_, by rw [h.s]; exact hR.loc, by rw [h.s]; exact hR.observed, h.text.trans hR.text,
    fun k => by rw [h.out]; exact hR.out k, h.streams.trans hR.streams⟩
  rw [Program.mem, h.s]
  exact hR.mem

/-- The calls that `JobHandler` makes. -/
def asked : Choice → Bool
  | .edit _ _ | .alloc _ | .sendPacket _ _ | .free _ | .disconnect _ => true
  | _ => false

section Steps

variable [Fintype τ]

omit [DecidableEq τ] in
/-- The `Character` of a session is in the hands of no `OnClientJoin`. -/
lemma not_inserted {st : ℕ → Stage} {H : List ℕ} {s : State τ} (hS : Sound H s st) (hx : (id, x) ∈ s.characterMap)
    (hy : s.pc t = .insert id' y) : y ≠ x := by
  rintro rfl
  have h1 : s.held.count y ≤ 1 := List.nodup_iff_count_le_one.mp hS.nodup y
  rw [hS.held] at h1
  have h2 : 0 < s.characterMap.countP (·.2 = y) := List.countP_pos_iff.mpr ⟨_, hx, by simp⟩
  have h3 : CbPc.inserts y (s.pc t) ≤ ∑ v, CbPc.inserts y (s.pc v) :=
    Finset.single_le_sum (f := fun v => CbPc.inserts y (s.pc v)) (fun _ _ => Nat.zero_le _) (Finset.mem_univ t)
  have h4 : CbPc.inserts y (s.pc t) = 1 := by
    rw [hy]
    exact if_pos rfl
  omega

/-- `JobHandler` has the `Character` of the session it is called for. -/
lemma Backed.handle (h : Backed b a w sid P) (hat : AtRecv (P.loc u) i p) (hx : P.s.pc u = .handle id x) :
    (idAt P.s i, x) ∈ P.s.characterMap ∧ slotOf (idAt P.s i) = i ∧ P.s.sid x = idAt P.s i := by
  obtain ⟨st, hS⟩ := h.sound
  obtain ⟨k, hc, rfl, hm⟩ := placed_found (hS.placed u) (.inr hx)
  obtain ⟨-, rfl⟩ := Prod.mk.inj (Option.some.inj (hc.symm.trans (callback_atRecv hat)))
  exact ⟨hm, (callback_current h.net hc).2, hS.sid _ hm⟩

/-- What a step of `JobHandler` for slot `i` leaves to the other threads and sessions. -/
structure Elsewhere (P P' : Program τ) (u : τ) (i : ℕ) : Prop where
  joined : ∀ k, (P'.mem.hist k).joined = true → (P.mem.hist k).joined = true
  id : ∀ k, (P.mem.hist k).joined = true → idAt P'.s k = idAt P.s k
  map : P'.s.characterMap = P.s.characterMap
  pc : ∀ t ≠ u, P'.s.pc t = P.s.pc t
  spared : ∀ t ≠ u, Spared P P' t
  beside : ∀ k ≠ i, (P.mem.hist k).joined = true → Beside P P' k

section Elsewhere

variable (hD : Dialog b a w sid P) (hat : AtRecv (P.loc u) i p) (hx : P.s.pc u = .handle id x)
include hD hat hx

lemma Dialog.others_character (hc : ∀ y ≠ x, P'.character y = P.character y) :
    (∀ k ≠ i, (P.mem.hist k).joined = true → ∀ y, (idAt P.s k, y) ∈ P.s.characterMap →
      P'.character y = P.character y) ∧
    ∀ t id y, P.s.pc t = .insert id y → P'.character y = P.character y := by
  obtain ⟨hm, hslot, hsid⟩ := hD.handle hat hx
  obtain ⟨st, hS⟩ := hD.sound
  refine ⟨fun k hki hk y hy => hc y ?_, fun t id y hy => hc y (not_inserted hS hm hy)⟩
  rintro rfl
  obtain ⟨B, -, hT⟩ := hD.slots k hk
  have hid : idAt P.s k = idAt P.s i := (hS.sid _ hy).symm.trans hsid
  exact hki (hT.name.symm.trans ((congrArg slotOf hid).trans hslot))

lemma Touched.elsewhere (h : Touched P P' u i x) : Elsewhere P P' u i := by
  obtain ⟨hmap, hins⟩ := hD.others_character hat hx h.character
  have hloc : ∀ t, P'.loc t = P.loc t := fun t => by
    rw [Program.loc, h.s]
    rfl
  have hmem : P'.mem = P.mem := by
    rw [Program.mem, h.s]
    rfl
  have hS : ∀ t ≠ u, Spared P P' t := fun t ht =>
    ⟨hloc t, h.job t ht, h.world t ht, fun _ _ => by rw [hmem], fun _ _ _ _ => by rw [h.text]⟩
  refine ⟨fun k hk => hmem ▸ hk, fun k _ => by rw [h.s], by rw [h.s], fun t _ => by rw [h.s], hS,
    fun k hki hk => ?_⟩
  refine ⟨by rw [h.s], h.turns k hki, by rw [h.streams], by rw [h.out], fun y hy => ?_, fun t ht => ?_,
    fun t q => by rw [hloc], fun t q hq => hS t ?_⟩
  · rw [h.s] at hy
    exact ⟨hy, hmap k hki hk y hy⟩
  · rw [hloc] at ht
    refine ⟨ht, fun id y hy => ?_⟩
    rw [h.s] at hy
    exact ⟨hy, hins t id y hy⟩
  · rintro rfl
    cases hq.symm.trans hat
    exact hki rfl

lemma Ran.elsewhere (hR : Ran P P₁ u ch m' l') (hP₁ : P₁ = follow P P₁.s (.run u ch)) (h : Touched P₁ P' u i x)
    (hpc : ∀ k ≠ i, ∀ q, ¬AtRecv l' k q) : Elsewhere P P' u i := by
  have hR' := h.ran hR
  have hchar : P₁.character = P.character := by rw [hP₁]; rfl
  have hturns : P₁.turns = noteTurns P.turns (P.loc u).pc l'.pc := by
    rw [← hR.loc_self]
    exact congrArg Program.turns hP₁
  have hold : ∀ y ≠ x, P'.character y = P.character y := fun y hy => by rw [h.character y hy, hchar]
  obtain ⟨hmap, hins⟩ := hD.others_character hat hx hold
  have hother : ∀ t ≠ u, P'.job t = P.job t ∧ P'.world t = P.world t := fun t ht => by
    rw [h.job t ht, h.world t ht, hP₁]
    exact ⟨rfl, rfl⟩
  refine ⟨fun k hk => ?_, fun k hk => hR'.id_eq hD hk, hR'.observed.characterMap, hR'.observed.others,
    fun t ht => hR'.spared hD ht (hother t ht).1 (hother t ht).2, fun k hki hk => ?_⟩
  · rw [hR'.mem] at hk
    by_contra hk'
    obtain ⟨s, hp, -⟩ := lstep_joined ((reach_named hD.net).known u) hR.step (Bool.eq_false_of_not_eq_true hk') hk
    cases hp.symm.trans hat
  · refine hR'.beside hD hk (fun q hq => ?_) (hpc k hki) ((h.turns k hki).trans (congrFun hturns k)) hother
      (hmap k hki hk) hins
    cases hq.symm.trans hat
    exact hki rfl

end Elsewhere

/-- A step of the thread that handles a request. -/
lemma Dialog.elsewhere (hD : Dialog b a w sid P) (hb : Backed b a w sid P') (hat : AtRecv (P.loc u) i p)
    (hE : Elsewhere P P' u i) (hn : Named P') (hu : Settled P' u)
    (hslot : ∀ c₀, Sized c₀ → SlotTalk P i c₀ → SlotTalk P' i c₀) : Dialog b a w sid P' := by
  refine ⟨hb, hn, fun t => ?_, fun k hk => ?_⟩
  · by_cases ht : t = u
    · rw [ht]
      exact hu
    · exact (hD.threads t).spared (hE.spared t ht) (hE.pc t ht) fun k p hp => hE.id k (hD.live hp).2
  · have hjk := hE.joined k hk
    obtain ⟨B, hB, hT⟩ := hD.slots k hjk
    rw [hE.id k hjk]
    refine ⟨B, hB, ?_⟩
    by_cases hki : k = i
    · subst hki
      exact hslot _ (onClientJoin_sized _ hB) hT
    · exact hT.beside (hE.beside k hki hjk) hD.threads

/-- It has the same request in hand afterwards. -/
lemma Dialog.own (hD : Dialog b a w sid P) (hb : Backed b a w sid P') (hat : AtRecv (P.loc u) i p)
    (hx : P.s.pc u = .handle id x) (hE : Elsewhere P P' u i) (hn : Named P') (hat' : AtRecv (P'.loc u) i p)
    (hx' : P'.s.pc u = .handle id x) (hP : Papers P'.mem (P'.loc u) i (idAt P.s i) p (P'.job u))
    (hin : ∀ c₀, Sized c₀ → InHand P i c₀ u p x → InHand P' i c₀ u p x) : Dialog b a w sid P' := by
  have hid := hE.id i (hD.live hat).2
  refine hD.elsewhere hb hat hE hn ⟨fun h => absurd hx' (h id x), fun h => absurd hat' (h i p), fun k q hq => ?_⟩
    fun c₀ hc hT => .of_recv hb hat' fun y hy => ?_
  · cases hat'.symm.trans hq
    rw [hid]
    exact hP
  · rw [hid, hE.map] at hy
    have hm := (hD.handle hat hx).1
    obtain rfl := hD.entry_unique hm hy
    exact hin c₀ hc (hT.receiving u p hat x hm)

/-! ### Calls -/

omit [DecidableEq τ] [Fintype τ] in
/-- The calls of `JobHandler` go to the session layer from `OnRecv`. -/
lemma asked_step (hc : asked ch = true) (hat : AtRecv l k p) (h : lstep m l ch = some (m', l')) :
    l.drop = none ∧ l.api = .idle ∧ contentsStep m l ch = some (m', l') := by
  have hd : l.drop = none := by
    cases hd : l.drop with
    | none => rfl
    | some q =>
      have hch : ch ≠ .tick := by
        rintro rfl
        cases hc
      simp only [lstep, hd, if_neg hch, reduceCtorEq] at h
  have ha : l.api = .idle := by
    cases ha : l.api with
    | idle => rfl
    | on i id q =>
      have hno : apiStep m l i id q ch = none := by
        cases ch <;> first
          | cases q <;> rfl
          | cases hc
      simp only [lstep, hd, ha, hno, reduceCtorEq] at h
  rw [lstep_recv hd ha hat] at h
  refine ⟨hd, ha, ?_⟩
  cases ch <;> first
    | exact h
    | cases hc

/-- What a call leaves as it is. -/
structure Called (P P₁ : Program τ) (u : τ) (ch : Choice) (m' : Mem) (l' : Local) : Prop where
  ran : Ran P P₁ u ch m' l'
  follow : P₁ = follow P P₁.s (.run u ch)
  api : (P.loc u).api = .idle
  contents : contentsStep P.mem (P.loc u) ch = some (m', l')
  here : P₁.s.pc u = P.s.pc u
  posted : ∀ k, (P₁.out k).posted = (P.out k).posted

lemma Dialog.call (hD : Dialog b a w sid P) (hat : AtRecv (P.loc u) i p) (hc : asked ch = true)
    (hcare : careful P.mem (P.loc u) ch = true) (h : layer P (.run u ch) = some P₁) :
    Backed b a w sid P₁ ∧ ∃ m' l', Called P P₁ u ch m' l' := by
  obtain ⟨m', l', hR, hP₁, hcs⟩ := ran_layer h
  obtain ⟨hd, ha, hs⟩ := asked_step hc hat hR.step
  have hpc : l'.pc = (P.loc u).pc := (contentsStep_calm hs).2
  have hb : Backed b a w sid P₁ := by
    rw [hP₁]
    refine hD.toBacked.follow hcs fun t ch' he => ?_
    obtain ⟨rfl, rfl⟩ := Act.run.inj he
    exact hcare
  have hcb := callback_atRecv hat
  have hcb' : callback (P₁.loc u).pc = some (.recv, i) := by rw [hR.loc_self, hpc, hcb]
  refine ⟨hb, m', l', hR, hP₁, ha, hs, ?_, fun k => ?_⟩
  · exact hR.observed.stay ⟨fun h => (by cases hcb.symm.trans h), fun h => by cases hcb'.symm.trans h⟩
  · rw [hR.out, lview, lview, hpc]
    refine congrArg Outgoing.posted (SendStream.note_call fun id q he => ?_)
    rw [ha] at he
    cases he

section Called

variable (hC : Called P P₁ u ch m' l')
include hC

omit [Fintype τ] in
lemma Called.text : P₁.text = P.text := by
  rw [hC.ran.text, hC.api]
  rfl

omit [Fintype τ] in
lemma Called.stays (hat : AtRecv (P.loc u) i p) : AtRecv l' i p := by
  rw [AtRecv, (contentsStep_calm hC.contents).2]
  exact hat

omit [Fintype τ] in
lemma Called.streams (hat : AtRecv (P.loc u) i p) : P₁.streams = P.streams := by
  rw [hC.ran.streams, hC.stays hat, show (P.loc u).pc = _ from hat]
  rfl

omit [Fintype τ] in
lemma Called.turns (hat : AtRecv (P.loc u) i p) : P₁.turns = P.turns := by
  have h : P₁.turns = noteTurns P.turns (P.loc u).pc l'.pc := by
    rw [← hC.ran.loc_self]
    exact congrArg Program.turns hC.follow
  rw [h, show (P.loc u).pc = _ from hat]
  rfl

omit [Fintype τ] in
lemma Called.rest : P₁.job = P.job ∧ P₁.world = P.world ∧ P₁.character = P.character := by
  rw [hC.follow]
  exact ⟨rfl, rfl, rfl⟩

/-- A call, and what `JobHandler` stores beside it. -/
lemma Called.dialog (hD : Dialog b a w sid P) (hb : Backed b a w sid P₁) (hat : AtRecv (P.loc u) i p)
    (hx : P.s.pc u = .handle id x) (hT : Touched P₁ P' u i x) (hn : Named P')
    (hP : Papers m' l' i (idAt P.s i) p (P'.job u))
    (hin : ∀ c₀, Sized c₀ → InHand P i c₀ u p x → InHand P' i c₀ u p x) : Dialog b a w sid P' := by
  have hR := hT.ran hC.ran
  have hE := hC.ran.elsewhere hD hat hx hC.follow hT fun k hk q hq => by
    cases hq.symm.trans (hC.stays hat)
    exact hk rfl
  refine hD.own (hT.backed hb) hat hx hE hn ?_ ?_ ?_ hin
  · rw [hR.loc_self]
    exact hC.stays hat
  · rw [hT.s, hC.here, hx]
  · rw [hR.mem, hR.loc_self]
    exact hP

/-- `JobHandler` goes on from one point to another, with a call. -/
lemma Called.goes (hD : Dialog b a w sid P) (hb : Backed b a w sid P₁) (hat : AtRecv (P.loc u) i p)
    (hx : P.s.pc u = .handle id x) (hc : c.id.length = 40 ∧ c.nickname.length = 40)
    (hj : ∀ q, unread q (P.job u) = []) (hj' : ∀ q, unread q j = [])
    (hP : Papers m' l' i (idAt P.s i) p j)
    (howed : jobOwed m'.packet (P.world u) c p j ++ callOwed m'.packet P.text l'.api =
      jobOwed P.mem.packet (P.world u) (P.character x) p (P.job u))
    (hbec : becomes m'.packet (P.world u) c p j = becomes P.mem.packet (P.world u) (P.character x) p (P.job u)) :
    Dialog b a w sid ((P₁.store x c).goto u j) := by
  have hjob : ((P₁.store x c).goto u j).job u = j := Function.update_self ..
  have hchar : ((P₁.store x c).goto u j).character x = c := Function.update_self ..
  refine hC.dialog hD hb hat hx (touched_refl.store.goto) (fun y => ?_) (by rw [hjob]; exact hP) fun c₀ hc₀ hI => ?_
  · by_cases hy : y = x
    · rw [hy, hchar]
      exact hc
    · have hold : ((P₁.store x c).goto u j).character y = P.character y :=
        (Function.update_of_ne hy _ _).trans (congrFun hC.rest.2.2 y)
      rw [hold]
      exact hD.names y
  · obtain ⟨hheard, hsaid, hleft⟩ := hI
    have hR := (touched_refl.store.goto : Touched P₁ ((P₁.store x c).goto u j) u i x).ran hC.ran
    have hturns : ((P₁.store x c).goto u j).turns i = P.turns i := congrFun (hC.turns hat) i
    have hworld : ((P₁.store x c).goto u j).world u = P.world u := congrFun hC.rest.2.1 u
    have htext : ((P₁.store x c).goto u j).text = P.text := hC.text
    rw [InHand, hjob, hchar, hR.mem, hR.loc_self, hworld, htext, howed, hbec, hj']
    refine ⟨?_, ?_, by rw [hturns]; exact hleft⟩
    · rw [hturns, ← hj (P.packet p)]
      exact hheard.trans (congrArg Stream.handled (congrFun (hC.streams hat) i)).symm
    · rw [hturns, ← hsaid, hC.api]
      exact congrArg₂ (· ++ ·) (hC.posted i) (List.append_nil _).symm

/-- A call that stores nothing. -/
lemma Called.goes_on (hD : Dialog b a w sid P) (hb : Backed b a w sid P₁) (hat : AtRecv (P.loc u) i p)
    (hx : P.s.pc u = .handle id x) (hj : ∀ q, unread q (P.job u) = []) (hj' : ∀ q, unread q j = [])
    (hP : Papers m' l' i (idAt P.s i) p j)
    (howed : jobOwed m'.packet (P.world u) (P.character x) p j ++ callOwed m'.packet P.text l'.api =
      jobOwed P.mem.packet (P.world u) (P.character x) p (P.job u))
    (hbec : becomes m'.packet (P.world u) (P.character x) p j =
      becomes P.mem.packet (P.world u) (P.character x) p (P.job u)) : Dialog b a w sid (P₁.goto u j) := by
  have h := hC.goes hD hb hat hx (hD.names x) hj hj' hP howed hbec
  rwa [Program.store, ← hC.rest.2.2, Function.update_eq_self] at h

end Called

/-- `JobHandler` goes on from one point to another by itself. -/
lemma Dialog.moves (hD : Dialog b a w sid P) (hat : AtRecv (P.loc u) i p) (hx : P.s.pc u = .handle id x)
    (hc : c.id.length = 40 ∧ c.nickname.length = 40)
    (hj : ∀ q, unread q (P.job u) = []) (hj' : ∀ q, unread q j = [])
    (hP : Papers P.mem (P.loc u) i (idAt P.s i) p j)
    (howed : jobOwed P.mem.packet (P.world u) c p j = jobOwed P.mem.packet (P.world u) (P.character x) p (P.job u))
    (hbec : becomes P.mem.packet (P.world u) c p j = becomes P.mem.packet (P.world u) (P.character x) p (P.job u)) :
    Dialog b a w sid ((P.store x c).goto u j) := by
  have hjob : ((P.store x c).goto u j).job u = j := Function.update_self ..
  have hchar : ((P.store x c).goto u j).character x = c := Function.update_self ..
  have hT : Touched P ((P.store x c).goto u j) u i x := touched_refl.store.goto
  refine hD.own (hT.backed hD.toBacked) hat hx (hT.elsewhere hD hat hx) (fun y => ?_) hat hx
    (by rw [hjob]; exact hP) fun c₀ hc₀ hI => ?_
  · by_cases hy : y = x
    · rw [hy, hchar]
      exact hc
    · rw [show ((P.store x c).goto u j).character y = P.character y from Function.update_of_ne hy _ _]
      exact hD.names y
  · rw [InHand, hj] at hI
    rw [InHand, hjob, hchar, hj']
    rw [← howed, ← hbec] at hI
    exact Stands.congr (P := P) rfl rfl rfl hI

/-- It goes on and stores nothing. -/
lemma Dialog.moves_on (hD : Dialog b a w sid P) (hat : AtRecv (P.loc u) i p) (hx : P.s.pc u = .handle id x)
    (hj : ∀ q, unread q (P.job u) = []) (hj' : ∀ q, unread q j = [])
    (hP : Papers P.mem (P.loc u) i (idAt P.s i) p j)
    (howed : jobOwed P.mem.packet (P.world u) (P.character x) p j =
      jobOwed P.mem.packet (P.world u) (P.character x) p (P.job u))
    (hbec : becomes P.mem.packet (P.world u) (P.character x) p j =
      becomes P.mem.packet (P.world u) (P.character x) p (P.job u)) : Dialog b a w sid (P.goto u j) := by
  have h := hD.moves hat hx (hD.names x) hj hj' hP howed hbec
  rwa [Program.store, Function.update_eq_self] at h

end Steps

end LoginServerChat.LoginProgram
