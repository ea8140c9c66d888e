import LoginServerChat.LoginSteps

/-!
The dialog of a session. Whatever else the server does, the responses that a session is sent are those of
`JobHandler`, called with the session's requests one after another, from the `Character` that `OnClientJoin`
has set up.
-/

namespace LoginServerChat.LoginProgram

open NetPacket Packet Cipher NetState NetStep SlotStep SlotView SlotRun SlotRefs SlotPhase SlotLive SlotJoin
  OwnCalls PacketStep PacketRefs PacketShape RecvRoom RecvPackets Contents CallbackStage Callbacks CallbackRun
  CallbackCode CallbackProtocol AcceptUndo StreamOrder LoginRests Login Runs
open SendStream (Outgoing careful noteText heeds)

variable {τ : Type*} {P P' : Program τ} {t u : τ} {k p q x : ℕ} {c₀ c : Character}

/-- Where the dialog of slot `k` stands, when the session started with `c₀`: `new` has not been taken up of
what was handed over, `owed` has not been queued of what is to be said, and `c` is the `Character` after it. -/
structure Stands (P : Program τ) (k : ℕ) (c₀ : Character) (new owed : List (List UInt8)) (c : Character) : Prop
    where
  heard : (P.turns k).map (fun t => held t.packet) ++ new = (P.streams k).handled
  said : (P.out k).posted ++ owed = talk c₀ (P.turns k)
  left : (P.turns k).foldl serve c₀ = c

/-- The dialog while thread `t` handles packet `p` with the `Character` `x`. -/
def InHand (P : Program τ) (k : ℕ) (c₀ : Character) (t : τ) (p x : ℕ) : Prop :=
  Stands P k c₀ (unread (P.packet p) (P.job t))
    (jobOwed P.mem.packet (P.world t) (P.character x) p (P.job t) ++
      callOwed P.mem.packet P.text (P.loc t).api)
    (becomes P.mem.packet (P.world t) (P.character x) p (P.job t))

structure SlotTalk (P : Program τ) (k : ℕ) (c₀ : Character) : Prop where
  name : slotOf (idAt P.s k) = k
  joining : ∀ t, callback (P.loc t).pc = some (.join, k) → P.turns k = [] ∧
    ∀ id x, P.s.pc t = .insert id x → P.character x = c₀
  receiving : ∀ t p, AtRecv (P.loc t) k p → ∀ x, (idAt P.s k, x) ∈ P.s.characterMap → InHand P k c₀ t p x
  idle : (∀ t p, ¬AtRecv (P.loc t) k p) → ∃ c, Stands P k c₀ [] [] c
  entries : (∀ t p, ¬AtRecv (P.loc t) k p) → ∀ x, (idAt P.s k, x) ∈ P.s.characterMap →
    Stands P k c₀ [] [] (P.character x)

/-- Thread `t` is where `LoginServer` can have come to, with what it needs in its hands. -/
structure Settled (P : Program τ) (t : τ) : Prop where
  fresh : (∀ id x, P.s.pc t ≠ .handle id x) → P.job t = .out
  outside : (∀ k p, ¬AtRecv (P.loc t) k p) → Mild (P.loc t)
  handling : ∀ k p, AtRecv (P.loc t) k p → Papers P.mem (P.loc t) k (idAt P.s k) p (P.job t)

/-- What thread `t` is left with by a step of another one. -/
structure Spared (P P' : Program τ) (t : τ) : Prop where
  loc : P'.loc t = P.loc t
  job : P'.job t = P.job t
  world : P'.world t = P.world t
  packet : ∀ q, Mine P.mem (P.loc t) q → P'.mem.packet q = P.mem.packet q
  text : ∀ i id r, (P.loc t).api = .on i id (.enqueue r) → P'.text r = P.text r

/-- What the dialog of slot `k` is left with by a step that has nothing to do with it. -/
structure Beside (P P' : Program τ) (k : ℕ) : Prop where
  id : idAt P'.s k = idAt P.s k
  turns : P'.turns k = P.turns k
  handled : (P'.streams k).handled = (P.streams k).handled
  posted : (P'.out k).posted = (P.out k).posted
  map : ∀ x, (idAt P.s k, x) ∈ P'.s.characterMap →
    (idAt P.s k, x) ∈ P.s.characterMap ∧ P'.character x = P.character x
  join : ∀ t, callback (P'.loc t).pc = some (.join, k) → callback (P.loc t).pc = some (.join, k) ∧
    ∀ id x, P'.s.pc t = .insert id x → P.s.pc t = .insert id x ∧ P'.character x = P.character x
  recv : ∀ t p, AtRecv (P'.loc t) k p ↔ AtRecv (P.loc t) k p
  hands : ∀ t p, AtRecv (P.loc t) k p → Spared P P' t

lemma Stands.congr {new owed : List (List UInt8)} (ht : P'.turns k = P.turns k)
    (hh : (P'.streams k).handled = (P.streams k).handled) (ho : (P'.out k).posted = (P.out k).posted)
    (h : Stands P k c₀ new owed c) : Stands P' k c₀ new owed c :=
  ⟨by rw [ht, hh]; exact h.heard, by rw [ht, ho]; exact h.said, by rw [ht]; exact h.left⟩

lemma Settled.spared (h : Settled P t) (hS : Spared P P' t) (hpc : P'.s.pc t = P.s.pc t)
    (hid : ∀ k p, AtRecv (P.loc t) k p → idAt P'.s k = idAt P.s k) : Settled P' t := by
  refine ⟨fun ht => ?_, fun ht => ?_, fun k p hp => ?_⟩
  · rw [hS.job]
    exact h.fresh fun id x => hpc ▸ ht id x
  · rw [hS.loc] at ht ⊢
    exact h.outside ht
  · rw [hS.loc] at hp ⊢
    rw [hid k p hp, hS.job]
    exact (h.handling k p hp).congr hS.packet (fun _ => rfl) rfl

/-- **The dialogs of the other slots.** -/
lemma SlotTalk.beside (hB : Beside P P' k) (hH : ∀ t, Settled P t) (h : SlotTalk P k c₀) : SlotTalk P' k c₀ := by
  have hidle : (∀ t p, ¬AtRecv (P'.loc t) k p) → ∀ t p, ¬AtRecv (P.loc t) k p :=
    fun hn t p hp => hn t p ((hB.recv t p).mpr hp)
  refine ⟨hB.id ▸ h.name, fun t ht => ?_, fun t p hp x hx => ?_, fun hn => ?_, fun hn x hx => ?_⟩
  · obtain ⟨hc, hx⟩ := hB.join t ht
    obtain ⟨h1, h2⟩ := h.joining t hc
    refine ⟨hB.turns.trans h1, fun id x hi => ?_⟩
    obtain ⟨h3, h4⟩ := hx id x hi
    exact h4.trans (h2 id x h3)
  · rw [hB.id] at hx
    obtain ⟨hm, hc⟩ := hB.map x hx
    have hp' := (hB.recv t p).mp hp
    have hS := hB.hands t p hp'
    have hT := h.receiving t p hp' x hm
    obtain ⟨h1, h2, h3⟩ := ((hH t).handling k p hp').owed hS.packet (P.world t) (P.character x)
    have h4 := ((hH t).handling k p hp').called hS.packet hS.text
    rw [InHand] at hT ⊢
    rw [hS.job, hS.world, hc, hS.loc, h1, h2, h4]
    have h3' : unread (P'.packet p) (P.job t) = unread (P.packet p) (P.job t) := h3
    rw [h3']
    exact hT.congr hB.turns hB.handled hB.posted
  · obtain ⟨c, hc⟩ := h.idle (hidle hn)
    exact ⟨c, hc.congr hB.turns hB.handled hB.posted⟩
  · rw [hB.id] at hx
    obtain ⟨hm, hc⟩ := hB.map x hx
    rw [hc]
    exact (h.entries (hidle hn) x hm).congr hB.turns hB.handled hB.posted

/-- The sizes of the names in the pool. -/
def Named (P : Program τ) : Prop := ∀ x, (P.character x).id.length = 40 ∧ (P.character x).nickname.length = 40

lemma callback_join {pc : Pc} (h : callback pc = some (.join, k)) : ∃ s, pc = .accOn k (.joining s) := by
  unfold callback at h
  split at h
  case h_1 i s =>
    obtain ⟨-, rfl⟩ := Prod.mk.inj (Option.some.inj h)
    exact ⟨s, rfl⟩
  all_goals cases h

variable [DecidableEq τ]

/-- **The invariant.** -/
structure Dialog (b : Boot) (a : τ) (w : τ → Bool) (sid : ℕ → SessionID) (P : Program τ) : Prop
    extends Backed b a w sid P where
  names : Named P
  threads : ∀ t, Settled P t
  slots : ∀ k, (P.mem.hist k).joined = true → ∃ B : Character, (B.id.length = 40 ∧ B.nickname.length = 40) ∧
    SlotTalk P k (onClientJoin (idAt P.s k).toNat B)

section Steps

variable [Fintype τ] {b : Boot} {a : τ} {w : τ → Bool} {sid : ℕ → SessionID} {ch : Choice} {m' : Mem} {l' : Local}

/-- A step of the session layer spares the other threads. -/
lemma Ran.spared (hD : Dialog b a w sid P) (hR : Ran P P' u ch m' l') (ht : t ≠ u) (hj : P'.job t = P.job t)
    (hw : P'.world t = P.world t) : Spared P P' t := by
  refine ⟨hR.loc_other ht, hj, hw, fun q hq => ?_, fun i id r ha => ?_⟩
  · rw [hR.mem]
    exact mine_same (hD.kept q) hq (Ne.symm ht) (hD.seen hR.step q)
  · rw [hR.text]
    exact SendStream.noteText_of_coded (hD.followed.ready.calls t i id r ha) _ _

omit [Fintype τ] in
/-- A thread that is not in `OnRecv` of a slot queues nothing for it. -/
lemma Dialog.no_enqueue (hD : Dialog b a w sid P) (hu : ∀ p, ¬AtRecv (P.loc u) k p) (id : SessionID) (r : ℕ) :
    (P.loc u).api ≠ .on k id (.enqueue r) := by
  intro ha
  by_cases hat : ∃ j p, AtRecv (P.loc u) j p
  · obtain ⟨j, p, hp⟩ := hat
    obtain ⟨-, rfl, -⟩ := ((hD.threads u).handling j p hp).call _ _ _ ha
    exact hu p hp
  · cases (hD.threads u).outside (fun j p hp => hat ⟨j, p, hp⟩) _ _ _ ha

lemma Dialog.joined_init {s : Sock} {y : InitPc} (hD : Dialog b a w sid P) (hk : (P.mem.hist k).joined = true) :
    (P.loc u).pc ≠ .accOn k (.init s y) := fun hp =>
  Bool.false_ne_true
    ((unjoined_of_accOn (by decide) (by decide) (by decide) hD.net hp (.inr ⟨s, y, rfl⟩)).symm.trans hk)

lemma Dialog.joined_join {s : Sock} (hD : Dialog b a w sid P) (hk : (P.mem.hist k).joined = true) :
    (P.loc u).pc ≠ .accOn k (.join s) := fun hp =>
  Bool.false_ne_true
    ((unjoined_of_accOn (by decide) (by decide) (by decide) hD.net hp (.inl ⟨s, rfl⟩)).symm.trans hk)

lemma Ran.id_eq (hD : Dialog b a w sid P) (hR : Ran P P' u ch m' l') (hk : (P.mem.hist k).joined = true) :
    idAt P'.s k = idAt P.s k := by
  have hm : (P'.s.net.mem.sess k).sessionID = (m'.sess k).sessionID := by rw [← hR.mem]; rfl
  rw [idAt, hm]
  refine (lstep_sessionID ((reach_named hD.net).known u) hR.step).resolve_right ?_
  rintro ⟨s, q, hp⟩
  exact hD.joined_init hk hp

/-- The step has nothing to do with the dialogs of the slots in whose `OnRecv` the thread is not. -/
lemma Ran.beside (hD : Dialog b a w sid P) (hR : Ran P P' u ch m' l') (hk : (P.mem.hist k).joined = true)
    (hu : ∀ p, ¬AtRecv (P.loc u) k p) (hu' : ∀ p, ¬AtRecv l' k p)
    (hturns : P'.turns k = noteTurns P.turns (P.loc u).pc l'.pc k)
    (hothers : ∀ t ≠ u, P'.job t = P.job t ∧ P'.world t = P.world t)
    (hmap : ∀ x, (idAt P.s k, x) ∈ P.s.characterMap → P'.character x = P.character x)
    (hins : ∀ t id x, P.s.pc t = .insert id x → P'.character x = P.character x) : Beside P P' k := by
  have hjoin : ¬Joins (P.loc u).pc l'.pc k := by
    rintro ⟨s, hp, -⟩
    exact hD.joined_join hk hp
  obtain ⟨h1, h2, h3⟩ := ghosts P.turns P.streams P.text P.mem.packet (P.out k) hR.step k hjoin
  refine ⟨hR.id_eq hD hk, hturns.trans h1, ?_, ?_, fun x hx => ?_, fun t ht => ?_, fun t p => ?_, fun t p hp => ?_⟩
  · rw [hR.streams]
    rcases h2 with h2 | ⟨p, hp, -⟩
    · rw [h2]
    · exact absurd hp.2 (hu' p)
  · rw [hR.out]
    exact h3 (hD.no_enqueue hu)
  · rw [hR.observed.characterMap] at hx
    exact ⟨hx, hmap x hx⟩
  · by_cases htu : t = u
    · subst htu
      rw [hR.loc_self] at ht
      obtain ⟨s, hs⟩ := callback_join ht
      have hpc : (P.loc t).pc = l'.pc :=
        (lstep_joining ((reach_named hD.net).known t) hR.step hs).resolve_right hjoin
      have hsame : callback (P.loc t).pc = some (.join, k) := by rw [hpc, ht]
      have hsame' : callback (P'.loc t).pc = some (.join, k) := by rw [hR.loc_self, ht]
      refine ⟨hsame, fun id x hx => ?_⟩
      have hpc : P'.s.pc t = P.s.pc t := by
        refine hR.observed.stay ?_
        exact ⟨fun h => (by cases hsame.symm.trans h), fun h => by cases hsame'.symm.trans h⟩
      rw [hpc] at hx
      exact ⟨hx, hins t id x hx⟩
    · rw [hR.loc_other htu] at ht
      refine ⟨ht, fun id x hx => ?_⟩
      rw [hR.observed.others t htu] at hx
      exact ⟨hx, hins t id x hx⟩
  · by_cases htu : t = u
    · subst htu
      rw [hR.loc_self]
      exact ⟨fun h => absurd h (hu' p), fun h => absurd h (hu p)⟩
    · rw [hR.loc_other htu]
  · have htu : t ≠ u := fun h => hu p (h ▸ hp)
    exact hR.spared hD htu (hothers t htu).1 (hothers t htu).2

/-! ### A step of a thread in `OnRecv` that is not of its code -/

lemma callback_atRecv {l : Local} (h : AtRecv l k p) : callback l.pc = some (.recv, k) := by rw [h]; rfl

/-- One callback at a time. -/
lemma Backed.unique (h : Backed b a w sid P) {y z : Kind} (hu : callback (P.loc u).pc = some (y, k))
    (ht : callback (P.loc t).pc = some (z, k)) : t = u := by
  obtain ⟨st, hS⟩ := h.sound
  exact callback_unique (hS.staged k) hu ht

/-- While `OnClientJoin` runs for a slot no thread is in `OnRecv` of it. -/
lemma Backed.not_atRecv (h : Backed b a w sid P) (hc : callback (P.loc t).pc = some (.join, k)) (u : τ) (p : ℕ) :
    ¬AtRecv (P.loc u) k p := by
  intro hp
  obtain rfl := h.unique hc (callback_atRecv hp)
  cases hc.symm.trans (callback_atRecv hp)

/-- A session has one entry. -/
lemma Backed.entry_unique {id : SessionID} {y : ℕ} (h : Backed b a w sid P) (hx : (id, x) ∈ P.s.characterMap)
    (hy : (id, y) ∈ P.s.characterMap) : x = y := by
  obtain ⟨st, hS⟩ := h.sound
  exact Option.some.inj (((lookup_iff hS.keys).mpr hx).symm.trans ((lookup_iff hS.keys).mpr hy))

/-- The thread in `OnRecv` holds up the release of the session. -/
lemma Backed.live (h : Backed b a w sid P) (hat : AtRecv (P.loc u) k p) :
    (P.mem.sess k).releaseFlag ≠ 1 ∧ (P.mem.hist k).joined = true := by
  have hrole : ((slot P.s.net k).L u).role = .work (.recv (.onRecv p)) := by
    change pcRole k (P.loc u).pc = _
    rw [hat, pcRole, if_pos rfl]
  have hJ := reach_joinedAt (k := k) (by decide) (by decide) (by decide) h.net u
  have hvalid : 0 < LV.valid ((slot P.s.net k).L u) := by
    rw [LV.valid, hrole]
    exact Nat.add_pos_left Nat.one_pos _
  have hmet : 0 < LV.met ((slot P.s.net k).L u) := by
    rw [LV.met, hrole]
    exact Nat.add_pos_left Nat.one_pos _
  have hphase := hJ.live hvalid
  have hflag := (reach_phased (k := k) h.net).flag ((reach_phased (k := k) h.net).live hphase)
  rw [if_pos hphase] at hflag
  exact ⟨fun h1 => (by cases hflag.symm.trans h1), hJ.met hmet⟩

/-- What the step of a call or of a `Free` does to the dialog. -/
structure OwnStep (P P' : Program τ) (u : τ) (k p : ℕ) (m' : Mem) (l' : Local) : Prop where
  pc : l'.pc = (P.loc u).pc
  papers : Papers m' l' k (idAt P.s k) p (P.job u)
  new : unread (m'.packet p) (P.job u) = unread (P.packet p) (P.job u)
  owed : ∀ w c, (P'.out k).posted ++ (jobOwed m'.packet w c p (P.job u) ++ callOwed m'.packet P'.text l'.api) =
    (P.out k).posted ++ (jobOwed P.mem.packet w c p (P.job u) ++ callOwed P.mem.packet P.text (P.loc u).api)
  becomes : ∀ w c, becomes m'.packet w c p (P.job u) = becomes P.mem.packet w c p (P.job u)

/-- The thread goes on with a call. -/
lemma OwnStep.of_call (hD : Dialog b a w sid P) (hat : AtRecv (P.loc u) k p) (hR : Ran P P' u ch m' l')
    (hd : (P.loc u).drop = none) (ha : (P.loc u).api ≠ .idle) : OwnStep P P' u k p m' l' := by
  have hP := (hD.threads u).handling k p hat
  cases hapi : (P.loc u).api with
  | idle => exact absurd hapi ha
  | on i id q =>
    obtain ⟨hj, rfl, -⟩ := hP.call _ _ _ hapi
    have hs := hR.step
    simp only [lstep, hd, hapi] at hs
    obtain ⟨hpc, hpap, howed⟩ := call_step P.text (P.out i) hapi hP (hD.live hat).1 rfl
      (reach_shaped hD.net) hs
    have hjob := fun pk => owed_calls (p := p) hj pk
    rw [← hR.text, ← hR.out, hapi] at howed
    refine ⟨hpc, hpap, ?_, fun w c => ?_, fun w c => ?_⟩
    · exact (hjob m'.packet (P.world u) (P.character 0)).2.2.trans
        (hjob P.mem.packet (P.world u) (P.character 0)).2.2.symm
    · rw [(hjob m'.packet w c).1, (hjob P.mem.packet w c).1, List.nil_append, List.nil_append, howed, hapi]
    · rw [(hjob m'.packet w c).2.1, (hjob P.mem.packet w c).2.1]

/-- The thread gives a packet back to the pool. -/
lemma OwnStep.of_drop (hD : Dialog b a w sid P) (hat : AtRecv (P.loc u) k p) (hR : Ran P P' u ch m' l')
    (hd : (P.loc u).drop = some q) : OwnStep P P' u k p m' l' := by
  have hP := (hD.threads u).handling k p hat
  have hs := hR.step
  simp only [lstep, hd, Option.ite_none_right_eq_some, Option.some.injEq, Prod.mk.injEq] at hs
  obtain ⟨rfl, rfl, rfl⟩ := hs
  have hq : ∀ r, Mine P.mem (P.loc u) r →
      ((P.mem.onPacket q Packet.clear).onPool q (· + 1)).packet r = P.mem.packet r := fun r hr =>
    Function.update_of_ne (fun h => hr.not_dropped (hD.kept r) u (hd.trans (congrArg some h.symm))) _ _
  have htext : P'.text = P.text := by
    rw [hR.text, noteText]
    rintro i id p key - h
    cases h
  have hout : (P'.out k).posted = (P.out k).posted := by
    rw [hR.out]
    exact congrArg Outgoing.posted SendStream.note_self
  refine ⟨rfl, hP.congr hq (fun _ => rfl) rfl, ?_, fun w c => ?_, fun w c => (hP.owed hq w c).2.1⟩
  · exact (hP.owed hq (P.world u) (P.character 0)).2.2
  · rw [hout, htext, (hP.owed hq w c).1]
    exact congrArg (fun z => (P.out k).posted ++ (_ ++ z)) (hP.called hq fun _ _ _ _ => rfl)

/-! ### The steps that the session layer takes by itself -/

omit [DecidableEq τ] [Fintype τ] in
/-- Contents code that is not that of `LoginServer` has no step. -/
lemma plain_asks (hp : plain P (.run u ch) = true) (h : lstep P.mem (P.loc u) ch ≠ none) (ha : asks ch = true) :
    ch = .ret ∧ ∀ k p, ¬AtRecv (P.loc u) k p := by
  obtain ⟨hd, hapi, hcb⟩ := callback_of_asks ha h
  change (P.s.net.loc u).drop = none at hd
  change (P.s.net.loc u).api = .idle at hapi
  change Local.callback (P.s.net.loc u) = true at hcb
  simp only [AtRecv, Program.loc]
  simp only [plain] at hp
  rw [Local.callback] at hcb
  split at hcb
  case h_1 hpc => simp [hpc] at hp
  case h_2 hpc =>
    simp only [hpc, decide_eq_true_eq] at hp
    rw [hp] at ha
    cases ha
  case h_3 hpc | h_5 hpc =>
    simp only [hpc, decide_eq_true_eq] at hp
    exact ⟨hp, fun k p h => by cases hpc.symm.trans h⟩
  case h_4 hpc => simp [hpc, hd, hapi] at hp
  case h_6 => cases hcb

omit [DecidableEq τ] [Fintype τ] in
lemma plain_atRecv (hp : plain P (.run u ch) = true) (h : AtRecv (P.loc u) k p) :
    (P.loc u).api ≠ .idle ∨ (P.loc u).drop ≠ none := by
  have hpc : (P.s.net.loc u).pc = _ := h
  simp only [plain, hpc, decide_eq_true_eq] at hp
  exact hp

omit [Fintype τ] in
/-- Contents code is careful with the packets it has sent. -/
lemma Dialog.careful_plain (hD : Dialog b a w sid P) (hp : plain P (.run u ch) = true)
    (h : lstep P.mem (P.loc u) ch ≠ none) : careful P.mem (P.loc u) ch = true := by
  cases ch
  case edit q op => cases (plain_asks hp h rfl).1
  case key key =>
    rw [careful]
    split
    case h_1 i id r hapi =>
      by_cases hat : ∃ k p, AtRecv (P.loc u) k p
      · obtain ⟨k, p, hat⟩ := hat
        have hDr := ((((hD.threads u).handling k p hat).call _ _ _ hapi).2.2 r rfl).2
        rw [hDr.read]
        simp
      · cases (hD.threads u).outside (fun k p hat' => hat ⟨k, p, hat'⟩) _ _ _ hapi
    case h_2 => rfl
  all_goals rfl

/-- What a worker has in hand when it calls `OnRecv`. -/
structure Handed (m : Mem) (l : Local) (m' : Mem) (l' : Local) (p : ℕ) : Prop where
  before : l.drop = none ∧ l.api = .idle
  after : l'.drop = none ∧ l'.api = .idle
  mine : Mine m' l' p

lemma Ran.handed (hB : Backed b a w sid P) (hR : Ran P P' u ch m' l') (hH : Hears (P.loc u).pc l'.pc k p) :
    Handed P.mem (P.loc u) m' l' p := by
  obtain ⟨hp, hp'⟩ := hH
  have hne : l'.pc ≠ (P.loc u).pc := by
    rw [hp, hp']
    exact fun h => by cases h
  obtain ⟨r, q, hdec, rfl, rfl⟩ := (lstep_decode hR.step hp).resolve_left hne
  have hg := reach_grip (by decide) (by decide) (by decide) hB.net u
  have hholds := (reach_kept (by decide) (by decide) (by decide) hB.net).1 u
  change GripAt P.mem (P.loc u) at hg
  rw [GripAt, hp] at hg
  obtain ⟨⟨hd, ha, hcount⟩, -⟩ := hg
  have hshare : share p (P.loc u) = 1 := by
    have h1 : 0 < share p (P.loc u) := share_pos (hholds.pc p (by change Pc.needs (P.loc u).pc = _; rw [hp]; rfl))
    have h2 : share p (P.loc u) ≤ owners P.s.net p :=
      (Finset.single_le_sum (f := fun v => share p (P.s.net.loc v)) (fun _ _ => Nat.zero_le _)
        (Finset.mem_univ u)).trans (Nat.le_add_right _ _)
    have h3 := (hB.kept p).count
    change (P.s.net.mem.packet p).refCount = 1 at hcount
    omega
  have hshare' : share p (Local.goto (P.loc u) (.work k (.recv (decoded p r)))) = 1 := by
    rw [share_goto, hshare]
    rw [hp]
    rfl
  refine ⟨⟨hd, ha⟩, ⟨hd, ha⟩, ⟨by omega, ?_⟩⟩
  rw [hshare', Mem.onPacket]
  simp only [Function.update_self]
  rw [decode_refCount hdec]
  exact hcount

/-- A session has come to its `OnClientJoin`. -/
lemma Ran.joins (hb : Backed b a w sid P') (hR : Ran P P' u ch m' l')
    (hturns : P'.turns k = noteTurns P.turns (P.loc u).pc l'.pc k) (hJ : Joins (P.loc u).pc l'.pc k)
    (c₀ : Character) : SlotTalk P' k c₀ := by
  obtain ⟨s, hp, hp'⟩ := hJ
  have hcb : callback (P'.loc u).pc = some (.join, k) := by rw [hR.loc_self, hp']; rfl
  have hpc : P'.s.pc u = .alloc (idAt P.s k) := by
    refine hR.observed.enter ?_ .join k hcb
    change callback (P.loc u).pc = none
    rw [hp]
    rfl
  have hapi : (P.loc u).api = .idle ∧ l'.api = .idle := by
    rcases lstep_join hR.step hp with h | ⟨h, rfl⟩
    · cases hp'.symm.trans (h.trans hp)
    · exact ⟨h, h⟩
  have hturns' : P'.turns k = [] := by
    rw [hturns, hp, hp', noteTurns, Function.update_self]
  have hstream : P'.streams k = .start := by
    rw [hR.streams, hp, hp', note, Function.update_self]
  have hout : P'.out k = .start := by
    rw [hR.out, lview, lview, hp, hp', hapi.1, hapi.2, pcRole_acc, pcRole_acc]
    rfl
  have hstart : ∃ c, Stands P' k c₀ [] [] c :=
    ⟨c₀, by rw [hturns', hstream]; rfl, by rw [hturns', hout]; rfl, by rw [hturns']; rfl⟩
  have hname : slotOf (idAt P'.s k) = k := (callback_current hb.net hcb).2
  refine ⟨hname, fun t ht => ?_, fun t q hq => ?_, fun _ => hstart, fun _ x hx => ?_⟩
  · obtain rfl := hb.unique hcb ht
    refine ⟨hturns', fun id x hx => ?_⟩
    cases hpc.symm.trans hx
  · exact absurd hq (hb.not_atRecv hcb t q)
  · -- the session has no entry yet
    obtain ⟨st, hS⟩ := hb.sound
    obtain ⟨-, he⟩ := (hS.entries _).mp (key_mem hx)
    rw [hname, joining_of_callback hS hcb] at he
    obtain ⟨t, ht, hdone⟩ := he
    obtain rfl := hb.unique hcb ht
    cases hpc.symm.trans hdone

/-- The dialog of a slot in whose `OnRecv` a thread is. -/
lemma SlotTalk.of_recv (hb : Backed b a w sid P) (hat : AtRecv (P.loc u) k p)
    (h : ∀ x, (idAt P.s k, x) ∈ P.s.characterMap → InHand P k c₀ u p x) : SlotTalk P k c₀ := by
  have hcb := callback_atRecv hat
  refine ⟨(callback_current hb.net hcb).2, fun t ht => ?_, fun t q hq x hx => ?_, fun hn => absurd hat (hn u p),
    fun hn => absurd hat (hn u p)⟩
  · obtain rfl := hb.unique hcb ht
    cases hcb.symm.trans ht
  · obtain rfl := hb.unique hcb (callback_atRecv hq)
    have hpc : (P.loc t).pc = .work k (.recv (.onRecv q)) := hq
    cases hpc.symm.trans hat
    exact h x hx

/-- A request is handed over. -/
lemma Ran.hears (hD : Dialog b a w sid P) (hb : Backed b a w sid P') (hR : Ran P P' u ch m' l')
    (hjob : P'.job u = .out) (hchar : P'.character = P.character)
    (hturns : P'.turns k = noteTurns P.turns (P.loc u).pc l'.pc k) (hH : Hears (P.loc u).pc l'.pc k p)
    (h : SlotTalk P k c₀) : SlotTalk P' k c₀ := by
  have hat' : AtRecv (P'.loc u) k p := by rw [hR.loc_self]; exact hH.2
  have hrecv : receiving (P.s.net.loc u).pc = some (k, .recv (.decode p)) := by
    change receiving (P.loc u).pc = _
    rw [hH.1]
    rfl
  have hjk := joined_of_receiving (by decide) (by decide) (by decide) hD.net hrecv
  have hno : ∀ t q, ¬AtRecv (P.loc t) k q := by
    intro t q hq
    by_cases htu : t = u
    · subst htu
      cases hH.1.symm.trans hq
    · have hA := reach_alone (k := k) (t := u) (by decide) (by decide) hD.net
        (by rw [recvs_of_receiving hrecv]; exact Nat.one_pos)
      refine hA.others t htu (.recv (.onRecv q)) ?_
      change receiving (P.loc t).pc = _
      rw [hq]
      rfl
  have hnot : ∀ q, ¬AtRecv (P.loc u) k q := hno u
  have hjoin : ¬Joins (P.loc u).pc l'.pc k := by
    rintro ⟨s, hs, -⟩
    cases hH.1.symm.trans hs
  obtain ⟨h1, h2, h3⟩ := ghosts P.turns P.streams P.text P.mem.packet (P.out k) hR.step k hjoin
  have hHand := hR.handed hD.toBacked hH
  refine .of_recv hb hat' fun x hx => ?_
  rw [hR.id_eq hD hjk, hR.observed.characterMap] at hx
  obtain ⟨hheard, hsaid, hleft⟩ := h.entries hno x hx
  rw [InHand, hjob, hR.loc_self, hHand.after.2, hchar]
  have hturns' : P'.turns k = P.turns k := hturns.trans h1
  refine ⟨?_, ?_, by rw [hturns']; exact hleft⟩
  · rw [hturns', hR.streams, hH.1, hH.2, note, Function.update_self, Stream.handle, ← hheard, List.append_nil,
      unread, Program.packet, ← hR.mem]
    rfl
  · rw [hturns', hR.out, h3 (hD.no_enqueue hnot)]
    exact hsaid

/-- The thread stays in `OnRecv`. -/
lemma OwnStep.talk (hD : Dialog b a w sid P) (hb : Backed b a w sid P') (hR : Ran P P' u ch m' l')
    (hat : AtRecv (P.loc u) k p) (hO : OwnStep P P' u k p m' l') (hjob : P'.job u = P.job u)
    (hworld : P'.world u = P.world u) (hchar : P'.character = P.character)
    (hturns : P'.turns k = noteTurns P.turns (P.loc u).pc l'.pc k) (h : SlotTalk P k c₀) : SlotTalk P' k c₀ := by
  have hat' : AtRecv (P'.loc u) k p := by rw [hR.loc_self, AtRecv, hO.pc]; exact hat
  have hjoin : ¬Joins (P.loc u).pc l'.pc k := by
    rintro ⟨s, hs, -⟩
    cases hs.symm.trans hat
  obtain ⟨h1, h2, -⟩ := ghosts P.turns P.streams P.text P.mem.packet (P.out k) hR.step k hjoin
  have hturns' : P'.turns k = P.turns k := hturns.trans h1
  have hhandled : (P'.streams k).handled = (P.streams k).handled := by
    rw [hR.streams]
    rcases h2 with h2 | ⟨q, hq, -⟩
    · rw [h2]
    · cases hq.1.symm.trans hat
  refine .of_recv hb hat' fun x hx => ?_
  rw [hR.id_eq hD (hD.live hat).2, hR.observed.characterMap] at hx
  obtain ⟨hheard, hsaid, hleft⟩ := h.receiving u p hat x hx
  rw [InHand, hjob, hworld, hR.loc_self, hchar, hR.mem]
  refine ⟨?_, ?_, ?_⟩
  · rw [hturns', hhandled, ← hheard, ← hO.new, Program.packet, ← hR.mem]
    rfl
  · rw [hturns', ← hsaid]
    exact hO.owed _ _
  · rw [hturns', hleft, hO.becomes]

omit [Fintype τ] in
lemma callback_recv {pc : Pc} (h : callback pc = some (.recv, k)) : ∃ p, pc = .work k (.recv (.onRecv p)) := by
  unfold callback at h
  split at h
  case h_2 i p =>
    obtain ⟨-, rfl⟩ := Prod.mk.inj (Option.some.inj h)
    exact ⟨p, rfl⟩
  all_goals cases h

lemma Dialog.atRecv_of_handle {id : SessionID} (hD : Dialog b a w sid P) (hx : P.s.pc u = .handle id x) :
    ∃ k p, AtRecv (P.loc u) k p := by
  obtain ⟨st, hS⟩ := hD.sound
  obtain ⟨k, hc, -⟩ := placed_found (hS.placed u) (.inr hx)
  obtain ⟨p, hp⟩ := callback_recv hc
  exact ⟨k, p, hp⟩

/-- Outside of `OnRecv` there is no `JobHandler`. -/
lemma Dialog.job_out (hD : Dialog b a w sid P) (h : ∀ k p, ¬AtRecv (P.loc u) k p) : P.job u = .out := by
  refine (hD.threads u).fresh fun id x hx => ?_
  obtain ⟨k, p, hp⟩ := hD.atRecv_of_handle hx
  exact h k p hp

/-- **A step of the session layer.** -/
lemma Dialog.plain_run (hD : Dialog b a w sid P) (hp : plain P (.run u ch) = true)
    (h : layer P (.run u ch) = some P') : Dialog b a w sid P' := by
  obtain ⟨m', l', hR, hP', hcs⟩ := ran_layer h
  have hstep : lstep P.mem (P.loc u) ch ≠ none := by
    rw [hR.step]
    exact Option.some_ne_none _
  have hb : Backed b a w sid P' := by
    rw [hP']
    refine hD.toBacked.follow hcs fun t ch' he => ?_
    obtain ⟨rfl, rfl⟩ := Act.run.inj he
    exact hD.careful_plain hp hstep
  have hjob : P'.job = P.job := by rw [hP']; rfl
  have hworld : P'.world = P.world := by rw [hP']; rfl
  have hchar : P'.character = P.character := by rw [hP']; rfl
  have hturns : P'.turns = noteTurns P.turns (P.loc u).pc l'.pc := by
    rw [← hR.loc_self]
    exact congrArg Program.turns hP'
  have hstay : ∀ k p, AtRecv (P.loc u) k p → l'.pc = (P.loc u).pc := fun k p hat => by
    rcases lstep_cases hR.step with hpc | ⟨hd, ha⟩
    · exact hpc
    · exact absurd (plain_atRecv hp hat) (not_or.mpr ⟨not_not.mpr ha, not_not.mpr hd⟩)
  have hown : ∀ k p, AtRecv (P.loc u) k p → OwnStep P P' u k p m' l' := fun k p hat => by
    cases hd : (P.loc u).drop with
    | some q => exact .of_drop hD hat hR hd
    | none => exact .of_call hD hat hR hd ((plain_atRecv hp hat).resolve_right (not_not.mpr hd))
  have hjoined : ∀ k, (P'.mem.hist k).joined = true → ¬Joins (P.loc u).pc l'.pc k →
      (P.mem.hist k).joined = true := by
    intro k hk hJ
    rw [hR.mem] at hk
    by_contra hk'
    exact hJ (lstep_joined ((reach_named hD.net).known u) hR.step (Bool.eq_false_of_not_eq_true hk') hk)
  have hother : ∀ t ≠ u, P'.job t = P.job t ∧ P'.world t = P.world t := fun t _ => by
    rw [hjob, hworld]
    exact ⟨rfl, rfl⟩
  refine ⟨hb, fun x => hchar ▸ hD.names x, fun t => ?_, fun k hk => ?_⟩
  · by_cases ht : t ≠ u
    · exact (hD.threads t).spared (hR.spared hD ht (hother t ht).1 (hother t ht).2) (hR.observed.others t ht)
        fun k p hat => hR.id_eq hD (hD.live hat).2
    obtain rfl := not_not.mp ht
    refine ⟨fun hpc => ?_, fun hno => ?_, fun k p hat => ?_⟩
    · -- the point of the code changes with the callback only
      rw [hjob]
      refine (hD.threads t).fresh fun id x hx => ?_
      obtain ⟨k, p, hat⟩ := hD.atRecv_of_handle hx
      have hcb := callback_atRecv hat
      have hcb' : callback (P'.loc t).pc = some (.recv, k) := by rw [hR.loc_self, hstay k p hat]; exact hcb
      have hsame : P'.s.pc t = P.s.pc t :=
        hR.observed.stay ⟨fun h => (by cases hcb.symm.trans h), fun h => by cases hcb'.symm.trans h⟩
      exact hpc id x (hsame.trans hx)
    · have hno' : ∀ k p, ¬AtRecv (P.loc t) k p := fun k p hat => by
        refine hno k p ?_
        rw [hR.loc_self, AtRecv, hstay k p hat]
        exact hat
      have hsend : ∀ id p, ch ≠ .sendPacket id p := by
        rintro id p rfl
        cases (plain_asks hp hstep rfl).1
      rw [hR.loc_self]
      exact lstep_mild hsend ((hD.threads t).outside hno') hR.step
    · rw [hR.loc_self] at hat
      rw [hR.loc_self, hR.mem, hjob]
      rcases atRecv_of hR.step hat with hat | hH
      · rw [hR.id_eq hD (hD.live hat).2]
        exact (hown k p hat).papers
      · have hHand := hR.handed hD.toBacked hH
        have hout : P.job t = .out := hD.job_out fun k p hat => by cases hH.1.symm.trans hat
        rw [hout]
        exact .of_reads rfl hHand.after.2 hHand.mine
  · by_cases hJ : Joins (P.loc u).pc l'.pc k
    · exact ⟨P.character 0, hD.names 0, hR.joins hb (congrFun hturns k) hJ _⟩
    have hjk := hjoined k hk hJ
    obtain ⟨B, hB, hT⟩ := hD.slots k hjk
    rw [hR.id_eq hD hjk]
    refine ⟨B, hB, ?_⟩
    by_cases hat : ∃ p, AtRecv (P.loc u) k p
    · obtain ⟨p, hat⟩ := hat
      exact (hown k p hat).talk hD hb hR hat (congrFun hjob u) (congrFun hworld u) hchar (congrFun hturns k) hT
    by_cases hH : ∃ p, Hears (P.loc u).pc l'.pc k p
    · obtain ⟨p, hH⟩ := hH
      have hout : P.job u = .out := hD.job_out fun k p hat => by cases hH.1.symm.trans hat
      exact hR.hears hD hb ((congrFun hjob u).trans hout) hchar (congrFun hturns k) hH hT
    · have hnot := not_exists.mp hat
      refine hT.beside (hR.beside hD hjk hnot (fun p hp' => ?_) (congrFun hturns k) hother
        (fun x _ => by rw [hchar]) fun _ _ x _ => by rw [hchar]) hD.threads
      exact (atRecv_of hR.step hp').elim (hnot p) fun hH' => hH ⟨p, hH'⟩

end Steps

end LoginServerChat.LoginProgram
