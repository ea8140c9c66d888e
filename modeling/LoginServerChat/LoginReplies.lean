import LoginServerChat.LoginJobs

/-!
What the clients of `LoginServer` are told. `JobHandler` is called with the packets of a session one after
another, point by point and beside those of all other sessions; the client receives what `JobHandler` says as
a function of its requests.
-/

namespace LoginServerChat.LoginProgram

open NetPacket Packet Cipher NetState NetStep SlotStep SlotView SlotRun SlotRefs SlotPhase SlotLive SlotJoin
  OwnCalls PacketStep PacketRefs PacketShape RecvRoom RecvPackets Contents CallbackStage Callbacks CallbackRun
  CallbackCode CallbackProtocol AcceptUndo StreamOrder LoginRests Login Runs
open SendStream (Outgoing careful noteText)
open Frames (parse next)

variable {τ : Type*} [DecidableEq τ] {b : Boot} {a : τ} {w : τ → Bool} {sid : ℕ → SessionID}
  {P P₁ P' : Program τ} {t u : τ} {i k n p q r x : ℕ} {id : SessionID} {ch : Choice} {c : Character} {j : JobPc}
  {m m' : Mem} {l l' : Local} {v : World} {b₀ b₁ s : UInt8} {f : List UInt8} {fs : List (List UInt8)}

/-! ### Packets -/

/-- The points with a response in hand. -/
def JobPc.drafts : JobPc → Bool
  | .write _ _ _ | .send _ _ => true
  | _ => false

/-- There is nothing in hand at the other points. -/
lemma Papers.idle (ha : l.api = .idle) (hr : j.reads = false) (hd : j.drafts = false) : Papers m l k id p j := by
  refine ⟨fun h => ?_, fun r s fs h => ?_, fun r s h => ?_, fun i id' q h => ?_⟩
  · rw [hr] at h
    cases h
  · rw [h] at hd
    cases hd
  · rw [h] at hd
    cases hd
  · cases ha.symm.trans h

lemma packet_edit (op : PacketOp) : (m.onPacket p fun q => op.apply q).packet p = op.apply (m.packet p) :=
  Function.update_self ..

lemma Mine.read (h : Mine m l p) (n : ℕ) : Mine (m.onPacket p fun q => (PacketOp.getData n).apply q) l p :=
  ⟨h.has, by rw [packet_edit]; exact h.all⟩

/-- A field of the response is written. -/
lemma Draft.write (h : Draft m l r (f :: fs)) (hs : Shaped (m.packet r)) :
    Draft (m.onPacket r fun q => (PacketOp.setData f).apply q) l r fs ∧
      held ((m.onPacket r fun q => (PacketOp.setData f).apply q).packet r) = held (m.packet r) ++ f := by
  have hroom := h.room
  rw [List.flatten_cons, List.length_append] at hroom
  obtain ⟨h1, -, h3, h4⟩ := setData_held (d := f) hs.length hs.order (by omega)
  refine ⟨⟨⟨h.has, ?_⟩, ?_, ?_, ?_⟩, ?_⟩
  · rw [packet_edit]
    exact h.all
  · rw [packet_edit]
    exact h.plain
  · rw [packet_edit]
    exact h3.trans h.read
  · rw [packet_edit, show (PacketOp.setData f).apply (m.packet r) = ((m.packet r).setData f).2 from rfl, h4]
    omega
  · rw [packet_edit]
    exact h1

/-- What a request leads to, when its type has been read. -/
lemma taken {stack : List UInt8} {z : Packet} {pk : ℕ → Packet} (hc : Sized c) (hp : pk p = (z.getData 2).2)
    (hj : j = if isLogin (overlay stack (z.getData 2).1) then .account else .done) :
    jobOwed pk v c p j = answers (jobHandler v stack c z).2.2 ∧ becomes pk v c p j = (jobHandler v stack c z).1 ∧
      ∀ q, unread q j = [] := by
  rw [answers_jobHandler hc, jobHandler_type]
  by_cases ht : isLogin (overlay stack (z.getData 2).1)
  · rw [if_pos ht] at hj ⊢
    subst hj
    rw [if_pos ht, login_fst, jobOwed, becomes, hp]
    exact ⟨rfl, rfl, fun _ => rfl⟩
  · rw [if_neg ht] at hj ⊢
    subst hj
    rw [if_neg ht]
    exact ⟨rfl, rfl, fun _ => rfl⟩

section Steps

variable [Fintype τ]

/-- `Alloc` gives out an empty packet. -/
lemma Backed.draft (hB : Backed b a w sid P) (hs : allocPacket P.mem (P.loc u) q = some (m', l'))
    (hfit : headerSize + fs.flatten.length ≤ defaultSize) : Draft m' l' q fs ∧ held (m'.packet q) = [] := by
  have hK := hB.kept q
  simp only [allocPacket, Option.ite_none_right_eq_some, Option.some.injEq, Prod.mk.injEq] at hs
  obtain ⟨hpool, rfl, rfl⟩ := hs
  obtain ⟨hw, hr, he⟩ := hK.clear hpool
  have hno : owners P.s.net q = 0 := by
    by_contra hne
    have h := hK.pool
    rw [if_neg hne] at h
    change 0 < P.s.net.mem.pool q at hpool
    omega
  have hshare : share q (P.loc u) = 0 := by
    have h : share q (P.loc u) ≤ ∑ v, share q (P.s.net.loc v) :=
      Finset.single_le_sum (f := fun v => share q (P.s.net.loc v)) (fun _ _ => Nat.zero_le _) (Finset.mem_univ u)
    rw [owners] at hno
    omega
  have hpk : ((P.mem.onPool q (· - 1)).onPacket q Packet.addRefCount).packet q = (P.mem.packet q).addRefCount :=
    Function.update_self ..
  have hone : share q { P.loc u with holds := q :: (P.loc u).holds } = 1 := by
    rw [share_cons, hshare, if_pos rfl]
  refine ⟨⟨⟨by rw [hone]; exact Nat.one_pos, ?_⟩, ?_, ?_, ?_⟩, ?_⟩
  · have hcount := hK.count
    rw [hno] at hcount
    rw [hpk, hone, Packet.addRefCount]
    change (P.s.net.mem.packet q).refCount + 1 = _
    rw [hcount]
    rfl
  · rw [hpk]
    exact he
  · rw [hpk]
    exact hr
  · rw [hpk]
    exact (congrArg (· + fs.flatten.length) hw).trans_le hfit
  · rw [hpk, held]
    change List.take ((P.s.net.mem.packet q).writePos - (P.s.net.mem.packet q).readPos) _ = _
    rw [hw, hr, Nat.sub_self, List.take_zero]

/-! ### The points of `JobHandler` -/

section Points

variable (hD : Dialog b a w sid P) (hat : AtRecv (P.loc u) i p) (hx : P.s.pc u = .handle id x)
include hD hat

omit [Fintype τ] in
lemma Dialog.papers : Papers P.mem (P.loc u) i (idAt P.s i) p (P.job u) := (hD.threads u).handling i p hat

omit [Fintype τ] in
/-- No call is under way at most points. -/
lemma Dialog.quiet (hj : (P.job u).calls = false) : (P.loc u).api = .idle := by
  cases ha : (P.loc u).api with
  | idle => rfl
  | on i' id' q =>
    have h := ((hD.papers hat).call _ _ _ ha).1
    rw [hj] at h
    cases h

/-- A part of the request is read. -/
lemma Dialog.read (h : layer P (.run u (.edit p (.getData n))) = some P₁) : Backed b a w sid P₁ ∧
    Called P P₁ u (.edit p (.getData n)) (P.mem.onPacket p fun q => (PacketOp.getData n).apply q) (P.loc u) := by
  obtain ⟨hb, m', l', hC⟩ := hD.call hat rfl (by simp [careful, SendStream.reads]) h
  have hs := hC.contents
  simp only [contentsStep, Option.ite_none_right_eq_some, Option.some.injEq, Prod.mk.injEq] at hs
  obtain ⟨-, rfl, rfl⟩ := hs
  exact ⟨hb, hC⟩

include hx

/-- The `Character` of a session has its sizes. -/
lemma Dialog.sized (hj : ∀ pk w c, becomes pk w c p (P.job u) = c) : Sized (P.character x) := by
  obtain ⟨B, hB, hT⟩ := hD.slots i (hD.live hat).2
  have hI := (hT.receiving u p hat x (hD.handle hat hx).1).left
  rw [hj] at hI
  rw [← hI]
  exact foldl_serve_sized (onClientJoin_sized _ hB) _

/-- The request is taken up. -/
lemma Dialog.job_type (hj : P.job u = .type) (h : jobStep P u i p x q v b₀ b₁ .type = some P') :
    Dialog b a w sid P' := by
  simp only [jobStep, Option.map_eq_some_iff] at h
  obtain ⟨P₁, h, rfl⟩ := h
  obtain ⟨hb, hC⟩ := hD.read hat h
  generalize hz : (⟨v, [b₀, b₁], P.packet p, rfl⟩ : Turn) = z
  generalize hjj : (if isLogin (overlay [b₀, b₁] ((P.packet p).getData 2).1) then JobPc.account else .done) = jj
  have hsized := hD.sized hat hx fun pk w c => by rw [hj]; rfl
  obtain ⟨howed, hbec, hread⟩ := taken (v := v) hsized (packet_edit (m := P.mem) (.getData 2)) hjj.symm
  have hT : Touched P₁ ({ P₁ with
      world := Function.update P₁.world u v
      turns := Function.update P₁.turns i (P₁.turns i ++ [z]) }.goto u jj) u i x := touched_take.goto
  generalize hP' : ({ P₁ with
      world := Function.update P₁.world u v
      turns := Function.update P₁.turns i (P₁.turns i ++ [z]) } : Program τ).goto u jj = P' at hT ⊢
  have hjob : P'.job u = jj := by rw [← hP']; exact Function.update_self ..
  have hworld : P'.world u = v := by rw [← hP']; exact Function.update_self ..
  have hturns : P'.turns i = P.turns i ++ [z] := by
    rw [← hP', ← hC.turns hat]
    exact Function.update_self ..
  have hchar : P'.character = P.character := by rw [← hP']; exact hC.rest.2.2
  have hout : P'.out i = P₁.out i := by rw [hT.out]
  refine hC.dialog hD hb hat hx hT (fun y => hchar ▸ hD.names y) ?_ fun c₀ hc₀ hI => ?_
  · rw [hjob, ← hjj]
    have hmine := ((hD.papers hat).request (by rw [hj]; rfl)).read 2
    split_ifs
    · exact .of_reads rfl hC.api hmine
    · exact .of_calls rfl fun i id q hq => by cases hC.api.symm.trans hq
  · have hR := hT.ran hC.ran
    rw [InHand, hj] at hI
    obtain ⟨hheard, hsaid, hleft⟩ := hI
    rw [InHand, hjob, hworld, hchar, hR.mem, hR.loc_self, hread, howed, hbec]
    refine ⟨?_, ?_, ?_⟩
    · rw [hturns, hT.streams, hC.streams hat, ← hheard, List.map_append, List.append_nil, ← hz]
      rfl
    · rw [hturns, talk_snoc, ← hsaid, show (P.turns i).foldl serve c₀ = P.character x from hleft, hout, hC.posted,
        hC.api, ← hz]
      exact congrArg₂ (· ++ ·) (List.append_nil _).symm (List.append_nil _)
    · rw [hturns, List.foldl_append, show (P.turns i).foldl serve c₀ = P.character x from hleft, ← hz]
      rfl

lemma Dialog.job_account (hj : P.job u = .account) (h : jobStep P u i p x q v b₀ b₁ .account = some P') :
    Dialog b a w sid P' := by
  simp only [jobStep, Option.map_eq_some_iff] at h
  obtain ⟨P₁, h, rfl⟩ := h
  obtain ⟨hb, hC⟩ := hD.read hat h
  have hmine := ((hD.papers hat).request (by rw [hj]; rfl)).read 8
  refine hC.goes hD hb hat hx (hD.names x) (fun _ => by rw [hj]; rfl) (fun _ => rfl)
    (.of_reads rfl hC.api hmine) ?_ ?_
  · rw [hj, hC.api, jobOwed, jobOwed, packet_edit, readRequest_eq]
    exact List.append_nil _
  · rw [hj, becomes, becomes, packet_edit, readRequest_eq]
    rfl

lemma Dialog.job_key (hj : P.job u = .key) (h : jobStep P u i p x q v b₀ b₁ .key = some P') :
    Dialog b a w sid P' := by
  simp only [jobStep, Option.map_eq_some_iff] at h
  obtain ⟨P₁, h, rfl⟩ := h
  obtain ⟨hb, hC⟩ := hD.read hat h
  refine hC.goes hD hb hat hx (hD.names x) (fun _ => by rw [hj]; rfl) (fun _ => rfl)
    (.idle hC.api rfl rfl) ?_ ?_
  · rw [hj, hC.api]
    exact List.append_nil _
  · rw [hj]
    rfl

lemma Dialog.job_query (hj : P.job u = .query) (h : jobStep P u i p x q v b₀ b₁ .query = some P') :
    Dialog b a w sid P' := by
  have ha := hD.quiet hat (by rw [hj]; rfl)
  obtain ⟨hid, hnick⟩ := hD.names x
  simp only [jobStep] at h
  cases hdb : (P.world u).db (int64 (P.character x).accountNo) with
  | row r =>
    simp only [hdb, Option.some.injEq] at h
    subst h
    refine hD.moves hat hx ?_ (fun _ => by rw [hj]; rfl) (fun _ => rfl)
      (.idle ha rfl rfl) ?_ ?_
    · exact ⟨((P.world u).widen_length _ _).trans hid, ((P.world u).widen_length _ _).trans hnick⟩
    · simp only [hj, jobOwed, answer, hdb, lookUp]
    · simp only [hj, becomes, lookUp, hdb]
  | failed | empty =>
    simp only [hdb, Option.some.injEq] at h
    subst h
    refine hD.moves_on hat hx (fun _ => by rw [hj]; rfl) (fun _ => rfl) (.idle ha rfl rfl) ?_ ?_
    · simp only [hj, jobOwed, answer, hdb]
    · simp only [hj, becomes, lookUp, hdb]

lemma Dialog.job_redis (hj : P.job u = .redis) (h : jobStep P u i p x q v b₀ b₁ .redis = some P') :
    Dialog b a w sid P' := by
  have ha := hD.quiet hat (by rw [hj]; rfl)
  simp only [jobStep] at h
  split at h
  case isTrue ht =>
    obtain rfl := Option.some.inj h
    refine hD.moves_on hat hx (fun _ => by rw [hj]; rfl) (fun _ => rfl) (.idle ha rfl rfl) ?_ (by rw [hj]; rfl)
    rw [hj]
    exact (if_pos ht).symm
  case isFalse ht =>
    obtain rfl := Option.some.inj h
    refine hD.moves_on hat hx (fun _ => by rw [hj]; rfl) (fun _ => rfl) (.idle ha rfl rfl) ?_ (by rw [hj]; rfl)
    rw [hj]
    exact (if_neg ht).symm

lemma Dialog.job_alloc (hj : P.job u = .alloc s) (h : jobStep P u i p x q v b₀ b₁ (.alloc s) = some P') :
    Dialog b a w sid P' := by
  simp only [jobStep, Option.map_eq_some_iff] at h
  obtain ⟨P₁, h, rfl⟩ := h
  obtain ⟨hb, m', l', hC⟩ := hD.call hat rfl rfl h
  have hsized := hD.sized hat hx fun pk w c => by rw [hj]; rfl
  have hlen := length_response hsized s
  obtain ⟨hdraft, hempty⟩ := hD.toBacked.draft hC.contents
    (show headerSize + (response (P.character x) s).flatten.length ≤ defaultSize by rw [hlen]; decide)
  have hapi : l'.api = .idle := (allocPacket_api hC.contents).trans hC.api
  refine hC.goes_on hD hb hat hx (fun _ => by rw [hj]; rfl) (fun _ => rfl) ?_ ?_ (by rw [hj]; rfl)
  · refine ⟨fun h => (by cases h), fun r s' fs he => ?_, fun r s' he => (by cases he), fun i id q hq => ?_⟩
    · cases he
      exact hdraft
    · cases hapi.symm.trans hq
  · rw [hj, hapi, jobOwed, jobOwed, hempty]
    exact List.append_nil _

lemma Dialog.job_write (hj : P.job u = .write r s (f :: fs))
    (h : jobStep P u i p x q v b₀ b₁ (.write r s (f :: fs)) = some P') : Dialog b a w sid P' := by
  simp only [jobStep, Option.map_eq_some_iff] at h
  obtain ⟨P₁, h, rfl⟩ := h
  have hdraft := (hD.papers hat).write r s (f :: fs) hj
  obtain ⟨hb, m', l', hC⟩ := hD.call hat rfl
    (by rw [careful, show (P.mem.packet r).isEncode = false from hdraft.plain]; rfl) h
  have hs := hC.contents
  simp only [contentsStep, Option.ite_none_right_eq_some, Option.some.injEq, Prod.mk.injEq] at hs
  obtain ⟨-, rfl, rfl⟩ := hs
  obtain ⟨hnext, hheld⟩ := hdraft.write (reach_shaped hD.net r)
  refine hC.goes_on hD hb hat hx (fun _ => by rw [hj]; rfl) (fun _ => rfl) ?_ ?_ (by rw [hj]; rfl)
  · refine ⟨fun h => (by cases h), fun r' s' fs he => ?_, fun r s' he => (by cases he), fun i id q hq => ?_⟩
    · cases he
      exact hnext
    · cases hC.api.symm.trans hq
  · rw [hj, hC.api, jobOwed, jobOwed, hheld, List.flatten_cons, List.append_assoc]
    exact List.append_nil _

lemma Dialog.job_written (hj : P.job u = .write r s []) : Dialog b a w sid (P.goto u (.send r s)) := by
  have ha := hD.quiet hat (by rw [hj]; rfl)
  have hdraft := (hD.papers hat).write r s [] hj
  refine hD.moves_on hat hx (fun _ => by rw [hj]; rfl) (fun _ => rfl) ?_ ?_ (by rw [hj]; rfl)
  · refine ⟨fun h => (by cases h), fun r s' fs he => (by cases he), fun r' s' he => ?_, fun i id q hq => ?_⟩
    · cases he
      exact hdraft
    · cases ha.symm.trans hq
  · rw [hj, jobOwed, jobOwed, List.flatten_nil, List.append_nil]

lemma Dialog.job_send (hj : P.job u = .send r s) (h : jobStep P u i p x q v b₀ b₁ (.send r s) = some P') :
    Dialog b a w sid P' := by
  simp only [jobStep, Option.map_eq_some_iff] at h
  obtain ⟨P₁, h, rfl⟩ := h
  obtain ⟨hb, m', l', hC⟩ := hD.call hat rfl rfl h
  have hdraft := (hD.papers hat).send r s hj
  obtain ⟨-, hslot, hsid⟩ := hD.handle hat hx
  have hs := hC.contents
  simp only [contentsStep, Option.ite_none_right_eq_some, Option.some.injEq, Prod.mk.injEq] at hs
  obtain ⟨-, rfl, rfl⟩ := hs
  refine hC.goes_on hD hb hat hx (fun _ => by rw [hj]; rfl) (fun _ => rfl) ?_ (by rw [hj]; rfl) (by rw [hj]; rfl)
  refine .of_calls rfl fun i' id' q hq => ?_
  cases hq
  refine ⟨hsid ▸ hslot, fun r' hr' => ?_⟩
  cases hr'
  exact ⟨hsid, hdraft.congr rfl (share_call (by rw [hC.api]; rfl))⟩

lemma Dialog.job_free (hj : P.job u = .free r s) (h : jobStep P u i p x q v b₀ b₁ (.free r s) = some P') :
    Dialog b a w sid P' := by
  simp only [jobStep, Option.map_eq_some_iff] at h
  obtain ⟨P₁, h, rfl⟩ := h
  obtain ⟨hb, m', l', hC⟩ := hD.call hat rfl rfl h
  have hs := hC.contents
  simp only [contentsStep, Option.ite_none_right_eq_some, Option.some.injEq] at hs
  have hapi : l'.api = .idle := (freePacket_api hs.2).trans hC.api
  refine hC.goes_on hD hb hat hx (fun _ => by rw [hj]; rfl) (fun _ => rfl)
    (.idle hapi rfl rfl) ?_ (by rw [hj]; rfl)
  rw [hj, hapi]
  rfl

lemma Dialog.job_finish (hj : P.job u = .finish s) (h : jobStep P u i p x q v b₀ b₁ (.finish s) = some P') :
    Dialog b a w sid P' := by
  simp only [jobStep] at h
  split at h
  case isTrue =>
    rw [Option.map_eq_some_iff] at h
    obtain ⟨P₁, h, rfl⟩ := h
    obtain ⟨hb, m', l', hC⟩ := hD.call hat rfl rfl h
    obtain ⟨-, hslot, hsid⟩ := hD.handle hat hx
    have hs := hC.contents
    simp only [contentsStep, Option.ite_none_right_eq_some, Option.some.injEq, Prod.mk.injEq] at hs
    obtain ⟨-, rfl, rfl⟩ := hs
    refine hC.goes_on hD hb hat hx (fun _ => by rw [hj]; rfl) (fun _ => rfl) ?_ (by rw [hj]; rfl) (by rw [hj]; rfl)
    refine .of_calls rfl fun i' id' q hq => ?_
    cases hq
    exact ⟨hsid ▸ hslot, fun r' hr' => by cases hr'⟩
  case isFalse =>
    obtain rfl := Option.some.inj h
    have ha := hD.quiet hat (by rw [hj]; rfl)
    exact hD.moves_on hat hx (fun _ => by rw [hj]; rfl) (fun _ => rfl) (.idle ha rfl rfl) (by rw [hj]; rfl)
      (by rw [hj]; rfl)

/-- `OnRecv` returns. -/
lemma Dialog.job_done (hj : P.job u = .done) (h : jobStep P u i p x q v b₀ b₁ .done = some P') :
    Dialog b a w sid P' := by
  simp only [jobStep, Option.map_eq_some_iff] at h
  obtain ⟨P₁, h, rfl⟩ := h
  obtain ⟨m', l', hR, hP₁, hcs⟩ := ran_layer h
  obtain ⟨hd, ha, -⟩ := callback_of_asks (show asks .ret = true from rfl)
    (by rw [hR.step]; exact Option.some_ne_none _)
  have hs := hR.step
  rw [lstep_recv hd ha hat] at hs
  obtain ⟨rfl, rfl⟩ := Prod.mk.inj (Option.some.inj hs)
  have hb : Backed b a w sid P₁ := by
    rw [hP₁]
    refine hD.toBacked.follow hcs fun t ch he => ?_
    obtain ⟨rfl, rfl⟩ := Act.run.inj he
    rfl
  have hT : Touched P₁ (P₁.goto u .out) u i x := touched_refl.goto
  have hR' := hT.ran hR
  have hE := hR.elsewhere hD hat hx hP₁ hT fun k hk q hq => by cases hq
  have hchar : P₁.character = P.character := by rw [hP₁]; rfl
  have hcb := callback_atRecv hat
  have hloc : ∀ t ≠ u, (P₁.goto u .out).loc t = P.loc t := fun t ht => hR'.loc_other ht
  have hself : ((P₁.goto u .out).loc u).pc = .work i (.recv (.free p)) := by
    rw [hR'.loc_self]
    rfl
  refine hD.elsewhere (hT.backed hb) hat hE (fun y => ?_) ⟨fun _ => Function.update_self .., fun _ => ?_,
    fun k q hq => ?_⟩ fun c₀ hc₀ hS => ?_
  · exact (congrArg (fun f => (f y).id.length = 40 ∧ (f y).nickname.length = 40) hchar).mpr (hD.names y)
  · rw [hR'.loc_self]
    exact mild_idle ha
  · cases hself.symm.trans hq
  · have hid := hE.id i (hD.live hat).2
    have hI := hS.receiving u p hat x (hD.handle hat hx).1
    rw [InHand, hj, ha] at hI
    have hturns : (P₁.goto u .out).turns i = P.turns i := by
      have h1 : P₁.turns = noteTurns P.turns (P.loc u).pc (P₁.loc u).pc := congrArg Program.turns hP₁
      change P₁.turns i = _
      rw [h1, show (P.loc u).pc = _ from hat]
      rfl
    have hstreams : (P₁.goto u .out).streams = P.streams := by
      rw [hR'.streams, show (P.loc u).pc = _ from hat]
      rfl
    have hout : ((P₁.goto u .out).out i).posted = (P.out i).posted := by
      have hjoin : ¬Joins (P.loc u).pc (Local.goto (P.loc u) (.work i (.recv (.free p)))).pc i := by
        rintro ⟨s, hp, -⟩
        cases hp.symm.trans hat
      obtain ⟨-, -, h3⟩ := ghosts P.turns P.streams P.text P.mem.packet (P.out i) hR.step i hjoin
      rw [hR'.out]
      refine h3 fun id r h => ?_
      rw [ha] at h
      cases h
    have hstands : Stands (P₁.goto u .out) i c₀ [] [] (P.character x) :=
      hI.congr hturns (by rw [hstreams]) hout
    have hother : ∀ t y, callback ((P₁.goto u .out).loc t).pc = some (y, i) → False := by
      intro t y ht
      by_cases htu : t = u
      · rw [htu, hself] at ht
        cases ht
      · rw [hloc t htu] at ht
        exact htu (hD.unique hcb ht)
    refine ⟨hid ▸ hS.name, fun t ht => (hother t _ ht).elim, fun t q hq => (hother t _ (callback_atRecv hq)).elim,
      fun _ => ⟨_, hstands⟩, fun _ y hy => ?_⟩
    rw [hid, hE.map] at hy
    obtain rfl := hD.entry_unique (hD.handle hat hx).1 hy
    rw [show (P₁.goto u .out).character x = P.character x from congrFun hchar x]
    exact hstands

/-- **A step of `JobHandler`.** -/
lemma Dialog.job_step (h : jobStep P u i p x q v b₀ b₁ (P.job u) = some P') : Dialog b a w sid P' := by
  cases hj : P.job u <;> rw [hj] at h
  case out | crashed => cases h
  case type => exact hD.job_type hat hx hj h
  case account => exact hD.job_account hat hx hj h
  case key => exact hD.job_key hat hx hj h
  case query => exact hD.job_query hat hx hj h
  case redis => exact hD.job_redis hat hx hj h
  case alloc s => exact hD.job_alloc hat hx hj h
  case write r s fs =>
    cases fs with
    | nil =>
      obtain rfl := Option.some.inj h
      exact hD.job_written hat hx hj
    | cons f fs => exact hD.job_write hat hx hj h
  case send r s => exact hD.job_send hat hx hj h
  case free r s => exact hD.job_free hat hx hj h
  case finish s => exact hD.job_finish hat hx hj h
  case done => exact hD.job_done hat hx hj h

end Points

end Steps

end LoginServerChat.LoginProgram
