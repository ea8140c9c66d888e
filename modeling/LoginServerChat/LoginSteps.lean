import LoginServerChat.LoginDesk

/-!
The steps of `LoginServer` with all of its code. A step is one of the session layer, of the code of a
callback or of `JobHandler`; what it means to the other threads and the other sessions is the same for all.
-/

namespace LoginServerChat.LoginProgram

open NetPacket Packet Cipher NetState NetStep SlotStep SlotView SlotRun SlotRefs SlotPhase SlotLive SlotJoin
  OwnCalls PacketStep PacketRefs PacketShape RecvRoom RecvPackets Contents CallbackStage Callbacks CallbackRun
  CallbackCode CallbackProtocol AcceptUndo StreamOrder LoginRests Login Runs
open SendStream (Outgoing careful noteText heeds)

variable {τ : Type*} [DecidableEq τ] {P P' P'' : Program τ}

namespace Program

def mem (P : Program τ) : Mem := P.s.net.mem
def loc (P : Program τ) (t : τ) : Local := P.s.net.loc t

end Program

/-- A state of the program in a run, with what stands beside it. -/
structure Backed (b : Boot) (a : τ) (w : τ → Bool) (sid : ℕ → SessionID) (P : Program τ) : Prop where
  contents : Reach cstep (fun _ _ => True) (start (boot b a w) [] sid []) P.s
  streams : Reach StreamOrder.watch (fun W => avoids [.skipRelease, .lateEnter] W.c)
    (StreamOrder.unwatched (boot b a w)) ⟨P.s.net, P.streams⟩
  sends : Reach SendStream.watch (heeds [.skipRelease, .lateEnter]) (SendStream.unwatched (boot b a w))
    ⟨P.s.net, P.text, P.out⟩

section Backed

variable [Fintype τ] {b : Boot} {a : τ} {w : τ → Bool} {sid : ℕ → SessionID} {s : State τ} {t u : τ} {ch : Choice}
  {k p q : ℕ} (h : Backed b a w sid P)
include h

lemma Backed.net : Reach step (avoids foreign) (boot b a w) P.s.net := reach_login h.contents

lemma Backed.sound : ∃ st, Sound [] P.s st := (reach_sound List.nodup_nil h.contents).2

lemma Backed.kept (q : ℕ) : PacketKept P.s.net q := (reach_kept (by decide) (by decide) (by decide) h.net).2 q

lemma Backed.seen {m' : Mem} {l' : Local} (hs : lstep P.mem (P.loc t) ch = some (m', l')) (q : ℕ) :
    PSeen q P.mem (P.loc t) m' l' :=
  lstep_pseen ((reach_kept (by decide) (by decide) (by decide) h.net).1 t)
    (reach_owning (by decide) (by decide) (by decide) h.net t) hs q

lemma Backed.followed : SendStream.Followed ⟨P.s.net, P.text, P.out⟩ :=
  SendStream.reach_followed (by decide) (by decide) (by decide) h.sends

/-- A step of the session layer. -/
lemma Backed.follow {x : Act τ} (hs : cstep P.s (.net x) = some s)
    (hc : ∀ t ch, x = .run t ch → careful P.s.net.mem (P.s.net.loc t) ch = true) :
    Backed b a w sid (follow P s x) := by
  have hnet := cstep_net hs
  have hev : avoids [.skipRelease, .lateEnter] P.s.net x := by
    obtain ⟨hf, hown⟩ := reach_owns (reach_sound List.nodup_nil h.contents).1
    cases x with
    | run t ch =>
      have hsub : ∀ e ∈ ([.skipRelease, .lateEnter] : List Ev), e ∈ foreign := by simp [foreign]
      exact fun hm => ownRun_label hf hown t ch (hsub _ hm)
    | complete io n d => simp [avoids, ev]
    | give t u p => simp [avoids, ev]
  cases x with
  | run t ch =>
    refine ⟨.step h.contents trivial hs, .step (a := .run t ch) h.streams hev ?_,
      .step (a := .run t ch) h.sends ⟨hev, hc t ch rfl⟩ ?_⟩
    · simp only [StreamOrder.watch, hnet]
      rfl
    · simp only [SendStream.watch, hnet]
      rfl
  | complete io n d =>
    refine ⟨.step h.contents trivial hs, .step (a := .complete io n d) h.streams hev ?_,
      .step (a := .complete io n d) h.sends trivial ?_⟩
    · simp only [StreamOrder.watch, hnet]
      rfl
    · simp only [SendStream.watch, hnet]
      rfl
  | give t u p =>
    refine ⟨.step h.contents trivial hs, .step (a := .give t u p) h.streams hev ?_,
      .step (a := .give t u p) h.sends trivial ?_⟩
    · simp only [StreamOrder.watch, hnet]
      rfl
    · simp only [SendStream.watch, hnet]
      rfl

omit [Fintype τ] in
/-- A step of the code of a callback. -/
lemma Backed.code (hs : codeStep P.s t q = some s) : Backed b a w sid { P with s := s } := by
  have hnet := codeStep_net hs
  refine ⟨.step (a := .code t q) h.contents trivial hs, ?_, ?_⟩
  · exact hnet ▸ h.streams
  · exact hnet ▸ h.sends

end Backed

/-! ### Calls of `SendPacket` -/

section Calls

variable {m m' : Mem} {l l' : Local} {ch : Choice} {i k : ℕ}

/-- If a thread comes to be in a call, it is one of `Disconnect`. -/
def Mild (l' : Local) : Prop := ∀ i id q, l'.api = .on i id q → spent q = true

lemma mild_idle (h : l'.api = .idle) : Mild l' := fun i id q ha => by cases h.symm.trans ha

variable (hc : ∀ id p, ch ≠ .sendPacket id p) (ha : l.api = .idle)
include hc ha

lemma contentsStep_mild (h : contentsStep m l ch = some (m', l')) : Mild l' := by
  revert h
  fun_cases contentsStep m l ch
  case case1 => exact fun h => mild_idle ((allocPacket_api h).trans ha)
  case case2 p _ => exact fun h => mild_idle ((freePacket_api (Option.some.inj h)).trans ha)
  case case6 id p _ => exact absurd rfl (hc id p)
  all_goals
    simp only [Option.some.injEq, Prod.mk.injEq, reduceCtorEq, false_implies, and_imp]
  case case8 =>
    rintro rfl rfl i id q hq
    cases hq
    rfl
  all_goals
    rintro rfl rfl
    exact mild_idle ha

lemma recvStep_mild {p : RecvPc} (h : recvStep m l i p ch = some (m', l')) : Mild l' := by
  revert h
  fun_cases recvStep m l i p ch <;>
    try simp only [Option.some.injEq, Prod.mk.injEq, reduceCtorEq, false_implies, and_imp]
  case case9 => exact fun h => mild_idle ((allocPacket_api h).trans ha)
  case case16 => exact contentsStep_mild hc ha
  case case17 | case18 => exact fun h => mild_idle ((freePacket_api h).trans ha)
  case case19 =>
    rintro rfl rfl i id q hq
    cases hq
    rfl
  all_goals
    rintro rfl rfl
    exact mild_idle ha

lemma workStep_mild {p : WorkPc} (h : workStep m l i p ch = some (m', l')) : Mild l' := by
  revert h
  fun_cases workStep m l i p ch <;>
    try simp only [Option.some.injEq, Prod.mk.injEq, reduceCtorEq, false_implies, and_imp]
  case case5 => exact fun h => mild_idle ((freePacket_api h).trans ha)
  case case8 => exact fun h => mild_idle ((sendStep_api h).trans ha)
  case case9 => exact recvStep_mild hc ha
  case case10 => exact fun h => mild_idle ((postStep_api h).trans ha)
  all_goals
    rintro rfl rfl
    exact mild_idle ha

lemma relStep_mild {p : RelPc} {x : Bool} (h : relStep m l i x p ch = some (m', l')) : Mild l' := by
  revert h
  fun_cases relStep m l i x p ch <;>
    try simp only [Option.some.injEq, Prod.mk.injEq, reduceCtorEq, false_implies, and_imp]
  case case5 | case7 => exact fun h => mild_idle ((freePacket_api h).trans ha)
  case case12 => exact contentsStep_mild hc ha
  all_goals
    rintro rfl rfl
    exact mild_idle ha

lemma accOnStep_mild {p : AccOn} (h : accOnStep m l i p ch = some (m', l')) : Mild l' := by
  revert h
  fun_cases accOnStep m l i p ch <;>
    try simp only [Option.some.injEq, Prod.mk.injEq, reduceCtorEq, false_implies, and_imp]
  case case1 s p =>
    intro h
    refine mild_idle ?_
    cases p <;> exact (congrArg (fun r => r.2.api) h).symm.trans ha
  case case6 => exact contentsStep_mild hc ha
  all_goals
    rintro rfl rfl
    exact mild_idle ha

lemma acceptStep_mild {p : AccPc} (h : acceptStep m l p ch = some (m', l')) : Mild l' := by
  revert h
  fun_cases acceptStep m l p ch <;>
    try simp only [Option.some.injEq, Prod.mk.injEq, reduceCtorEq, false_implies, and_imp]
  case case8 => exact contentsStep_mild hc ha
  all_goals
    rintro rfl rfl
    exact mild_idle ha

omit ha in
/-- Only contents code calls `SendPacket`. -/
lemma lstep_mild (hl : Mild l) (h : lstep m l ch = some (m', l')) : Mild l' := by
  unfold lstep at h
  split at h
  case h_1 =>
    split at h
    · obtain ⟨rfl, rfl⟩ := Prod.mk.inj (Option.some.inj h)
      exact hl
    · exact absurd h.symm (Option.some_ne_none _)
  case h_2 =>
    split at h
    case h_1 ha => exact fun i id q hq => ((apiStep_spent ha (hl _ _ _ ha) h).2 i id q hq).2
    case h_2 ha =>
      split at h
      case h_1 => exact contentsStep_mild hc ha h
      case h_2 => exact acceptStep_mild hc ha h
      case h_3 => exact accOnStep_mild hc ha h
      case h_4 =>
        split at h
        · obtain ⟨rfl, rfl⟩ := Prod.mk.inj (Option.some.inj h)
          exact mild_idle ha
        · exact absurd h.symm (Option.some_ne_none _)
      case h_5 => exact workStep_mild hc ha h
      case h_6 => exact relStep_mild hc ha h

end Calls

/-! ### What a step of the session layer adds to the streams -/

section Local

variable {m m' : Mem} {l l' : Local} {ch : Choice} {i k : ℕ} {S : ℕ → Stream} {T : ℕ → List Turn}
  {text : ℕ → List UInt8} {pk : ℕ → Packet} {o : Outgoing}

/-- `OnClientJoin` is called for slot `k`. -/
def Joins (pc pc' : Pc) (k : ℕ) : Prop := ∃ s, pc = .accOn k (.join s) ∧ pc' = .accOn k (.joining s)

/-- A worker gets from `Decode` to `OnRecv`. -/
def Hears (pc pc' : Pc) (k p : ℕ) : Prop :=
  pc = .work k (.recv (.decode p)) ∧ pc' = .work k (.recv (.onRecv p))

lemma lstep_cases (h : lstep m l ch = some (m', l')) : l'.pc = l.pc ∨ l.drop = none ∧ l.api = .idle := by
  unfold lstep at h
  split at h
  case h_1 =>
    split at h
    · obtain ⟨-, rfl⟩ := Prod.mk.inj (Option.some.inj h)
      exact .inl rfl
    · cases h
  case h_2 hd =>
    split at h
    case h_1 i id p ha =>
      left
      revert h
      fun_cases apiStep m l i id p ch <;>
        simp only [Option.some.injEq, Prod.mk.injEq, reduceCtorEq, false_implies, and_imp]
      all_goals
        rintro - rfl
        rfl
    case h_2 ha => exact .inr ⟨hd, ha⟩

lemma lstep_join {s : Sock} (h : lstep m l ch = some (m', l')) (hp : l.pc = .accOn k (.join s)) :
    l'.pc = l.pc ∨ l.api = .idle ∧ l' = Local.goto l (.accOn k (.joining s)) := by
  rcases lstep_cases h with hpc | ⟨hd, ha⟩
  · exact .inl hpc
  · simp only [lstep, hd, ha, hp] at h
    cases ch <;> simp only [accOnStep, Option.some.injEq, Prod.mk.injEq, reduceCtorEq] at h
    exact .inr ⟨ha, h.2.symm⟩

lemma lstep_decode {p : ℕ} (h : lstep m l ch = some (m', l')) (hp : l.pc = .work k (.recv (.decode p))) :
    l'.pc = l.pc ∨ ∃ r q, (m.packet p).decode = some (r, q) ∧ m' = m.onPacket p (fun _ => q) ∧
      l' = Local.goto l (.work k (.recv (decoded p r))) := by
  rcases lstep_cases h with hpc | ⟨hd, ha⟩
  · exact .inl hpc
  · rw [lstep_recv hd ha hp] at h
    exact .inr (recvStep_decode h)

lemma walk_posted (r r' : Role) : (o.walk pk r r').posted = o.posted ∨
    ∃ s s', r = .acc (.join s) ∧ r' = .acc (.joining s') := by
  unfold Outgoing.walk
  split
  case h_1 s s' => exact .inr ⟨s, s', rfl, rfl⟩
  all_goals exact .inl rfl

variable {pc pc' : Pc}

lemma noteTurns_same (hj : ∀ s j s', pc = .accOn k (.join s) → pc' ≠ .accOn j (.joining s')) :
    noteTurns T pc pc' k = T k := by
  unfold noteTurns
  split
  case h_1 i s j s' =>
    by_cases hk : k = i
    · subst hk
      exact absurd rfl (hj s j s' rfl)
    · exact Function.update_of_ne hk ..
  case h_2 => rfl

lemma note_hears (hj : ∀ s j s', pc = .accOn k (.join s) → pc' ≠ .accOn j (.joining s')) :
    note S m pc pc' k = S k ∨ ∃ p j q, pc = .work k (.recv (.decode p)) ∧ pc' = .work j (.recv (.onRecv q)) ∧
      note S m pc pc' k = (S k).handle (held (m.packet p)) := by
  unfold note
  split
  case h_1 i s j s' =>
    by_cases hk : k = i
    · subst hk
      exact absurd rfl (hj s j s' rfl)
    · exact .inl (Function.update_of_ne hk ..)
  case h_2 i p j q =>
    by_cases hk : k = i
    · subst hk
      exact .inr ⟨p, j, q, rfl, rfl, Function.update_self ..⟩
    · exact .inl (Function.update_of_ne hk ..)
  case h_3 => exact .inl rfl

lemma note_posted {x x' : LV} (hj : ∀ s s', x.role = .acc (.join s) → x'.role ≠ .acc (.joining s'))
    (ha : ∀ id r, x.api ≠ some (id, .enqueue r)) : (o.note text pk x x').posted = o.posted := by
  unfold Outgoing.note
  split
  case h_1 id p _ h1 _ => exact absurd h1 (ha id p)
  case h_2 =>
    rcases (walk_posted x.role x'.role : (o.walk pk x.role x'.role).posted = o.posted ∨ _) with h | ⟨s, s', h1, h2⟩
    · exact h
    · exact absurd h2 (hj s s' h1)

/-- What a step does to the dialog of a slot that it does not call `OnClientJoin` for: a request may be
handed over, and a response queued. -/
lemma ghosts (T : ℕ → List Turn) (S : ℕ → Stream) (text : ℕ → List UInt8) (pk : ℕ → Packet) (o : Outgoing)
    (h : lstep m l ch = some (m', l')) (k : ℕ) (hj : ¬Joins l.pc l'.pc k) :
    noteTurns T l.pc l'.pc k = T k ∧
      (note S m' l.pc l'.pc k = S k ∨ ∃ p, Hears l.pc l'.pc k p ∧
        note S m' l.pc l'.pc k = (S k).handle (held (m'.packet p))) ∧
      ((∀ id r, l.api ≠ .on k id (.enqueue r)) →
        (o.note text pk (lview l k) (lview l' k)).posted = o.posted) := by
  have hjoin : ∀ s j s', l.pc = .accOn k (.join s) → l'.pc ≠ .accOn j (.joining s') := by
    intro s j s' h1 h2
    rcases lstep_join h h1 with hpc | ⟨-, rfl⟩
    · cases h2.symm.trans (hpc.trans h1)
    · exact hj ⟨s, h1, rfl⟩
  refine ⟨noteTurns_same hjoin, (note_hears hjoin).imp_right ?_, fun ha => note_posted (fun s s' h1 h2 => ?_) ?_⟩
  · rintro ⟨p, j, q, h1, h2, h3⟩
    refine ⟨p, ⟨h1, ?_⟩, h3⟩
    rcases lstep_decode h h1 with hpc | ⟨r, q', -, -, rfl⟩
    · cases h2.symm.trans (hpc.trans h1)
    · cases r
      · cases h2
      · rfl
  · exact hjoin s k s' (role_acc h1) (role_acc h2)
  · exact fun id r hr => ha id r (SendStream.api_on hr)

/-- The id of a slot changes only when the slot is prepared. -/
lemma lstep_sessionID (hn : Known m l) (h : lstep m l ch = some (m', l')) :
    (m'.sess k).sessionID = (m.sess k).sessionID ∨ ∃ s q, l.pc = .accOn k (.init s q) := by
  rcases lstep_seen hn h k with ⟨e, -, hst⟩ | ⟨-, hv⟩
  · generalize hV : view m k = V at hst
    generalize hL : lview l k = L at hst
    generalize hV' : view m' k = V' at hst
    generalize lview l' k = L' at hst
    change (view m' k).s.sessionID = (view m k).s.sessionID ∨ _
    rw [hV, hV']
    cases hst
    case initSessionID s id _ => exact .inr ⟨s, _, role_acc (congrArg LV.role hL)⟩
    all_goals exact .inl rfl
  · rcases hv with hv | ⟨_, hv⟩
    · exact .inl (congrArg (fun V : View => V.s.sessionID) hv)
    · exact .inl (congrArg (fun V : View => V.s.sessionID) hv)

lemma recvStep_atRecv {q : RecvPc} {p : ℕ} (hq : l.pc = .work i (.recv q)) (h : recvStep m l i q ch = some (m', l'))
    (hp : AtRecv l' k p) : AtRecv l k p ∨ Hears l.pc l'.pc k p := by
  revert h
  fun_cases recvStep m l i q ch
  case case9 => exact fun h => by rw [AtRecv, (allocPacket_calm h).2] at hp; cases hp
  case case16 => exact fun h => .inl (by rw [AtRecv, ← (contentsStep_calm h).2]; exact hp)
  all_goals
    intro h
    simp only [Option.some.injEq, Prod.mk.injEq, reduceCtorEq] at h
  case case17 | case18 =>
    rw [AtRecv, (freePacket_calm (m := m) h ⟨rfl, rfl, rfl⟩).2] at hp
    cases hp
  all_goals
    obtain ⟨rfl, rfl⟩ := h
    cases hp
  exact .inr ⟨hq, rfl⟩

/-- A thread that is in `OnRecv` after a step was there before, or comes from `Decode`. -/
lemma atRecv_of {p : ℕ} (h : lstep m l ch = some (m', l')) (hp : AtRecv l' k p) :
    AtRecv l k p ∨ Hears l.pc l'.pc k p := by
  cases lstep_takes h with
  | aside h =>
    refine .inl (receiving_eq ?_)
    rw [← h.2, show l'.pc = _ from hp]
    rfl
  | clear i s _ _ hr | skip i _ _ _ _ _ hr =>
    rw [show l'.pc = _ from hp] at hr
    cases hr
  | take i _ _ _ _ _ _ hr | pass i _ _ _ _ _ hr => cases hr.symm.trans hp
  | recv i q _ _ hq h => exact recvStep_atRecv hq h hp

/-- `OnClientJoin` is entered by its call. -/
lemma lstep_joining {s : Sock} (hn : Known m l) (h : lstep m l ch = some (m', l'))
    (hp : l'.pc = .accOn k (.joining s)) : l.pc = l'.pc ∨ Joins l.pc l'.pc k := by
  rcases lstep_seen hn h k with ⟨e, -, hst⟩ | ⟨hv, -⟩
  · generalize view m k = V at hst
    generalize hL : lview l k = L at hst
    generalize view m' k = V' at hst
    generalize hL' : lview l' k = L' at hst
    have hr : L'.role = .acc (.joining s) := by
      rw [← hL', lview, hp, pcRole_acc]
    have hsame : L.role = L'.role → l.pc = l'.pc := fun he =>
      (role_acc (by rw [hL, he, hr])).trans hp.symm
    cases hst
    case join s' => exact .inr ⟨s', role_acc (congrArg LV.role hL), role_acc (congrArg LV.role hL')⟩
    case entryPass j _ _ => cases j <;> cases hr
    all_goals first
      | exact .inl (hsame rfl)
      | cases hr
  · refine .inl ((role_acc (p := .joining s) ?_).trans hp.symm)
    rw [← hv, lview, hp, pcRole_acc]

end Local

/-- A step in which the session layer takes one for thread `u`. -/
structure Ran (P P' : Program τ) (u : τ) (ch : Choice) (m' : Mem) (l' : Local) : Prop where
  step : lstep P.mem (P.loc u) ch = some (m', l')
  admits : admits P.s u ch = true
  mem : P'.mem = m'
  loc : P'.s.net.loc = Function.update P.s.net.loc u l'
  observed : Observed P.s u P'.s.net P'.s
  text : P'.text = noteText P.text P.mem (P.loc u).api ch
  out : ∀ k, P'.out k = (P.out k).note P.text P.mem.packet (lview (P.loc u) k) (lview l' k)
  streams : P'.streams = note P.streams m' (P.loc u).pc l'.pc

lemma ran_layer {u : τ} {ch : Choice} (h : layer P (.run u ch) = some P') :
    ∃ m' l', Ran P P' u ch m' l' ∧ P' = follow P P'.s (.run u ch) ∧ cstep P.s (.net (.run u ch)) = some P'.s := by
  simp only [layer, Option.map_eq_some_iff] at h
  obtain ⟨s, hs, rfl⟩ := h
  have hcs := hs
  simp only [cstep, Option.ite_none_right_eq_some, Option.map_eq_some_iff, NetStep.step] at hs
  obtain ⟨ha, n, ⟨⟨m', l'⟩, hl, rfl⟩, rfl⟩ := hs
  have ho := observe_observed P.s u ⟨m', Function.update P.s.net.loc u l'⟩
  refine ⟨m', l', ⟨hl, ha, ?_, ?_, ?_, rfl, fun k => ?_, ?_⟩, rfl, hcs⟩
  · exact congrArg Config.mem ho.net
  · exact congrArg Config.loc ho.net
  · rw [show (LoginProgram.follow P (observe P.s u ⟨m', Function.update P.s.net.loc u l'⟩) (.run u ch)).s =
      observe P.s u ⟨m', Function.update P.s.net.loc u l'⟩ from rfl, ho.net]
    exact ho
  · simp only [LoginProgram.follow, ho.net, Function.update_self]
    rfl
  · simp only [LoginProgram.follow, StreamOrder.observe, ho.net, Function.update_self]
    rfl

lemma Ran.loc_self {u : τ} {ch : Choice} {m' : Mem} {l' : Local} (h : Ran P P' u ch m' l') : P'.loc u = l' := by
  rw [Program.loc, h.loc, Function.update_self]

lemma Ran.loc_other {u t : τ} {ch : Choice} {m' : Mem} {l' : Local} (h : Ran P P' u ch m' l') (ht : t ≠ u) :
    P'.loc t = P.loc t := by
  rw [Program.loc, h.loc, Function.update_of_ne ht]
  rfl

end LoginServerChat.LoginProgram
