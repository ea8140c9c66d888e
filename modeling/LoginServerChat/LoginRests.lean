import LoginServerChat.CallbackProtocol
import LoginServerChat.Progress
import LoginServerChat.Quiescence

/-!
`LoginServer` as a whole: the session layer, with the code of its own callbacks as the contents code.
That code calls for the session it handles only, so the runs of the session layer that go wrong are not
among its runs.
-/

namespace LoginServerChat.LoginRests

open NetPacket NetState NetStep SlotStep SlotView SlotRun SlotRefs SlotPhase OwnCalls Contents CallbackStage
  Callbacks CallbackRun CallbackCode CallbackProtocol StaleIds FreeStack AcceptSocks AcceptUndo PacketShape Progress
  Quiescence Runs

variable {τ : Type*} [DecidableEq τ] [Fintype τ] {b : Boot} {a : τ} {w : τ → Bool} {sid : ℕ → SessionID}
  {s s' : State τ} {t : τ} {k : ℕ} {st : ℕ → Stage}

/-- The moves in which the session layer takes no step with one of the labels. -/
def without (B : List Ev) (s : State τ) : Move τ → Prop
  | .net x => avoids B s.net x
  | .code _ _ => True

omit [Fintype τ] in
lemma cstep_net {x : Act τ} (h : cstep s (.net x) = some s') : step s.net x = some s'.net := by
  cases x with
  | run t ch =>
    simp only [cstep, Option.ite_none_right_eq_some, Option.map_eq_some_iff] at h
    obtain ⟨-, n, hn, rfl⟩ := h
    rw [hn, (observe_observed s t n).net]
  | complete io m d | give t u p =>
    simp only [cstep, Option.map_eq_some_iff] at h
    obtain ⟨n, hn, rfl⟩ := h
    exact hn

/-- A run of `LoginServer` is one of the session layer without the labels that calls for another session
could give its steps. -/
lemma reach_without {B : List Ev} (h : Reach cstep (without B) (start (boot b a w) [] sid []) s) :
    Reach step (avoids (foreign ++ B)) (boot b a w) s.net := by
  induction h with
  | init => exact .init
  | @step s s' x hr hx hs ih =>
    cases x with
    | code t q => rwa [codeStep_net hs]
    | net x =>
      obtain ⟨hnet, -⟩ := reach_sound List.nodup_nil (hr.mono fun _ _ _ => trivial)
      obtain ⟨hf, hown⟩ := reach_owns hnet
      have hev : ev s.net x ∉ foreign := by
        cases x with
        | run t ch => exact ownRun_label hf hown t ch
        | complete io n d => simp [ev, foreign]
        | give t u p => simp [ev, foreign]
      refine .step ih ?_ (cstep_net hs)
      rw [avoids, List.mem_append, not_or]
      exact ⟨hev, hx⟩

lemma reach_login (h : Reach cstep (fun _ _ => True) (start (boot b a w) [] sid []) s) :
    Reach step (avoids foreign) (boot b a w) s.net :=
  (reach_owns (reach_sound List.nodup_nil h).1).1

/-! ### At rest -/

/-- The contents of a server for `n` clients at rest: `characterMap` has the sessions there are, each with a
`Character` of its own that carries its id, and the pool has the other `Character`s. -/
structure CharactersRest (n : ℕ) (s : State τ) : Prop where
  keys : (s.characterMap.map Prod.fst).Perm ((sessions n s.net).map (idAt s))
  sid : ∀ x ∈ s.characterMap, s.sid x.2 = x.1
  held : s.held.Perm (s.characterMap.map Prod.snd)
  once : s.held.Nodup

omit [DecidableEq τ] in
/-- No callback runs on a server at rest. -/
lemma stage_rests (h : Rests a s.net) (hS : SlotStaged (slot s.net k) (st k)) : (st k).running = none := by
  by_contra hn
  obtain ⟨x, hx⟩ := Option.ne_none_iff_exists'.mp hn
  have hcalls := hS.calls x
  rw [if_pos hx, h.sum_eq (LV.calls x) rfl] at hcalls
  exact absurd hcalls (by decide)

lemma enrolled_rests (hr : Reach step (avoids foreign) (boot b a w) s.net) (h : Rests a s.net)
    (hS : SlotStaged (slot s.net k) (st k)) : Enrolled s k (st k) ↔ (s.net.mem.hist k).phase = .live := by
  have hrun := stage_rests h hS
  have hpush : ∑ t, LV.pushes ((slot s.net k).L t) = 0 := h.sum_eq LV.pushes rfl
  have haway := hS.away
  rw [hpush] at haway
  have hsettled := h.settled (k := k) hr
  constructor
  · intro he
    have hne : st k ≠ .away := fun h0 => by
      rw [h0] at he
      exact he
    refine hsettled.resolve_left fun hf => hne (haway.mpr (.inr (.inl hf)))
  · intro hp
    have hne : st k ≠ .away := fun h0 => by
      rcases haway.mp h0 with hj | hf | h1
      · exact absurd ((rests_joined (by decide) hr h hp).symm.trans hj) Bool.noConfusion
      · exact Phase.noConfusion (hp.symm.trans hf)
      · exact Nat.lt_irrefl 0 h1
    rw [running_none hne fun x => by simp [hrun]]
    trivial

lemma current_live (hr : Reach step (avoids foreign) (boot b a w) s.net) (hp : (s.net.mem.hist k).phase = .live) :
    Current s.net (idAt s k) ∧ slotOf (idAt s k) = k := by
  have hev : (s.net.mem.hist k).ever = true := (reach_phased hr).live hp
  have hslot : slotOf (idAt s k) = k := (reach_named hr k).1.id hev
  refine ⟨⟨?_, ?_⟩, hslot⟩ <;> rw [hslot]
  · exact hev
  · rfl

lemma keys_rests (hS : Sound [] s st) (hr : Reach step (avoids foreign) (boot b a w) s.net) (h : Rests a s.net)
    (id : SessionID) : id ∈ s.characterMap.map Prod.fst ↔ ∃ k ∈ sessions b.maxUser s.net, idAt s k = id := by
  have hlt : ∀ k, (s.net.mem.hist k).phase = .live → k < b.maxUser := fun k hp =>
    (reach_stacked hr k).small (by simp [hp])
  rw [hS.entries, enrolled_rests hr h (hS.staged _)]
  constructor
  · rintro ⟨⟨-, hid⟩, hp⟩
    exact ⟨slotOf id, mem_sessions.mpr ⟨hlt _ hp, hp⟩, hid⟩
  · rintro ⟨k, hk, rfl⟩
    have hp := (mem_sessions.mp hk).2
    obtain ⟨hc, hslot⟩ := current_live hr hp
    exact ⟨hc, by rwa [hslot]⟩

lemma characters_rest (hS : Sound [] s st) (hr : Reach step (avoids foreign) (boot b a w) s.net)
    (h : Rests a s.net) : CharactersRest b.maxUser s := by
  have hcb : ∀ t x k, callback (s.net.loc t).pc ≠ some (x, k) := fun t x k hc => by
    have h0 := calls_of_callback hc
    rw [show pcRole k (s.net.loc t).pc = .none from congrArg LV.role (h.idle t)] at h0
    simp [Role.calls] at h0
  refine ⟨?_, hS.sid, ?_, hS.nodup⟩
  · have hinj : ((sessions b.maxUser s.net).map (idAt s)).Nodup := by
      refine (List.nodup_range.filter _).map_on fun i hi j hj hij => ?_
      rw [← (current_live hr (mem_sessions.mp hi).2).2, hij, (current_live hr (mem_sessions.mp hj).2).2]
    refine (List.perm_ext_iff_of_nodup hS.keys hinj).mpr fun id => ?_
    rw [keys_rests hS hr h, List.mem_map]
  · rw [List.perm_iff_count]
    intro p
    have h0 : ∑ t, CbPc.inserts p (s.pc t) = 0 := by
      refine Finset.sum_eq_zero fun t _ => ?_
      cases hp : s.pc t with
      | insert id q =>
        obtain ⟨k, hc, -⟩ := placed_insert (hS.placed t) hp
        exact absurd hc (hcb t _ _)
      | _ => rfl
    rw [hS.held, h0, Nat.add_zero, List.count_nil, Nat.zero_add, List.count, List.countP_map]
    exact List.countP_congr fun x _ => by simp

/-- **The login server at rest.** In every run of `LoginServer` in which jobs can be posted and no `SendPost`
gives up after its second pass while `sendQ` holds a packet. -/
theorem login_rests (h : Reach cstep (without [.lostSend, .loadedUnlock]) (start (boot b a w) [] sid []) s)
    (hr : Rests a s.net) : ServerRests b.maxUser s.net ∧ CharactersRest b.maxUser s := by
  have hall : Reach cstep (fun _ _ => True) (start (boot b a w) [] sid []) s := h.mono fun _ _ _ => trivial
  obtain ⟨-, st, hS⟩ := reach_sound List.nodup_nil hall
  exact ⟨reach_rests (reach_without h) hr, characters_rest hS (reach_login hall) hr⟩

instance {B : List Ev} {s : State τ} : (x : Move τ) → Decidable (without B s x)
  | .net _ => inferInstanceAs (Decidable (_ ∉ _))
  | .code _ _ => .isTrue trivial

omit [Fintype τ] in
lemma reach_mild {B : List Ev} {c : State τ} (l : List (Move τ)) {p : State τ → Bool}
    (h : (run cstep (fun s x => decide (without B s x)) c l).map p = some true) :
    ∃ s, Reach cstep (without B) c s ∧ p s = true :=
  reach_of_run (fun _ _ => of_decide_eq_true) l h

/-- The first client has joined, and a receive is posted for it. -/
def joinedRest : List (Move (Fin 4)) :=
  layer firstAccept ++ [.code 0 7, .code 0 7] ++ layer [.run 0 .ret, .run 0 (.io .pending), .run 0 .tick]

theorem login_rests_joined : ∃ s, Reach cstep (without [.lostSend, .loadedUnlock])
    (start crew [] (fun _ => 0) []) s ∧ s.characterMap = [(firstID, 7)] ∧ s.net.mem.nowSession = 1 ∧
      ServerRests 1 s.net ∧ CharactersRest 1 s := by
  obtain ⟨s, hr, hp⟩ := reach_mild (B := [.lostSend, .loadedUnlock]) (c := start crew [] (fun _ => 0) [])
    joinedRest (p := fun s => resting s.net && decide (s.characterMap = [(firstID, 7)] ∧ s.net.mem.nowSession = 1))
    (by decide +kernel)
  rw [Bool.and_eq_true, decide_eq_true_eq] at hp
  obtain ⟨h, h1, h2⟩ := hp
  exact ⟨s, hr, h1, h2, login_rests hr (rests_of_resting h)⟩

/-! ### Progress -/

/-- What contents code alone asks of the session layer. -/
def asks : Choice → Bool
  | .ret | .sendPacket _ _ | .disconnect _ | .edit _ _ | .free _ => true
  | _ => false

section Asks

variable {m : Mem} {l : Local} {i : ℕ} {ch : Choice} (ha : asks ch = true)

include ha

/-- Outside of the callbacks nothing is asked. -/
lemma apiStep_asks (id : SessionID) (p : ApiPc) : apiStep m l i id p ch = none := by
  cases ch <;> first
    | cases p <;> rfl
    | cases ha

lemma sendStep_asks (p : SendPc) : sendStep m l i p ch = none := by
  cases ch <;> first
    | cases p <;> rfl
    | cases ha

lemma postStep_asks (p : PostPc) : postStep m l i p ch = none := by
  cases ch <;> first
    | cases p <;> rfl
    | cases ha

lemma recvStep_asks {p : RecvPc} (hp : ∀ q, p ≠ .onRecv q) : recvStep m l i p ch = none := by
  cases p with
  | onRecv q => exact absurd rfl (hp q)
  | _ =>
    cases ch <;> first
      | rfl
      | cases ha

lemma workStep_asks {p : WorkPc} (hp : ∀ q, p ≠ .recv (.onRecv q)) : workStep m l i p ch = none := by
  cases p with
  | send p => exact sendStep_asks ha p
  | recv p => exact recvStep_asks ha fun q h => hp q (congrArg WorkPc.recv h)
  | post p => exact postStep_asks ha p
  | _ =>
    cases ch <;> first
      | rfl
      | cases ha

lemma relStep_asks {p : RelPc} (x : Bool) (hp : p ≠ .leaving) : relStep m l i x p ch = none := by
  cases p with
  | leaving => exact absurd rfl hp
  | _ =>
    cases ch <;> first
      | rfl
      | cases ha

lemma acceptStep_asks {p : AccPc} (hp : ∀ h, p ≠ .request h) : acceptStep m l p ch = none := by
  cases p with
  | request h => exact absurd rfl (hp h)
  | _ =>
    cases ch <;> first
      | rfl
      | cases ha

lemma accOnStep_asks {p : AccOn} (hp : ∀ h, p ≠ .joining h) : accOnStep m l i p ch = none := by
  cases p with
  | joining h => exact absurd rfl (hp h)
  | _ =>
    cases ch <;> first
      | rfl
      | cases ha

lemma callback_of_asks (h : lstep m l ch ≠ none) : l.drop = none ∧ l.api = .idle ∧ Local.callback l = true := by
  cases hd : l.drop with
  | some q =>
    refine absurd ?_ h
    simp only [lstep, hd]
    exact if_neg fun hc => by simp [hc, asks] at ha
  | none =>
  cases hapi : l.api with
  | on i id p =>
    refine absurd ?_ h
    simp only [lstep, hd, hapi]
    exact apiStep_asks ha id p
  | idle =>
  refine ⟨rfl, rfl, ?_⟩
  by_contra hcb
  refine h ?_
  unfold Local.callback at hcb
  cases hp : l.pc with
  | ext => simp [hp] at hcb
  | acc p =>
    simp only [lstep, hd, hapi, hp]
    exact acceptStep_asks ha fun s hs => by simp [hp, hs] at hcb
  | accOn i p =>
    simp only [lstep, hd, hapi, hp]
    exact accOnStep_asks ha fun s hs => by simp [hp, hs] at hcb
  | gqcs =>
    simp only [lstep, hd, hapi, hp]
    split
    · simp [asks] at ha
    · rfl
  | work i p =>
    simp only [lstep, hd, hapi, hp]
    exact workStep_asks ha fun q hq => by simp [hp, hq] at hcb
  | rel i p x =>
    simp only [lstep, hd, hapi, hp]
    exact relStep_asks ha x fun hq => by simp [hp, hq] at hcb

end Asks

end LoginServerChat.LoginRests
