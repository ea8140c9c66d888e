import LoginServerChat.SlotRecv

/-!
Runs in which contents code calls `SendPacket` and `Disconnect` from `OnRecv` only, for the
session it is handling. The worker's own reference is then still there when the call leaves, so
that no call takes `ioCount` to zero and no `RELEASE` job is ever posted.
-/

namespace LoginServerChat.OwnCalls

open NetPacket NetState NetStep SlotStep SlotView SlotRun SlotRefs SlotPhase SlotLive SlotRelease
  SlotJoin SlotSend SendPath SlotRecv Runs

variable {m m' : Mem} {l l' : Local} {i : ℕ} {ch : Choice}

/-- The session that the thread is handling in `OnRecv`. -/
def handled (m : Mem) (l : Local) : Option SessionID :=
  match l.pc with
  | .work i (.recv (.onRecv _)) => some (m.sess i).sessionID
  | _ => none

/-- A call is for the session that the thread is handling. -/
def ownCall (m : Mem) (l : Local) : Choice → Prop
  | .sendPacket id _ | .disconnect id => handled m l = some id
  | _ => True

/-- A thread in a call is on the slot it calls for, in the receive loop. -/
def Own (l : Local) : Prop := ∀ i id p, l.api = .on i id p → ∃ q, l.pc = .work i (.recv q)

lemma own_idle (h : l.api = .idle) : Own l := fun _ _ _ h' => Api.noConfusion (h.symm.trans h')

lemma contentsStep_own (hn : ∀ i p, l.pc = .work i p → slotOf (m.sess i).sessionID = i)
    (ho : ownCall m l ch) (ha : l.api = .idle) (h : contentsStep m l ch = some (m', l')) :
    Own l' := by
  have hcall : ∀ id x, handled m l = some id → Own (Local.call l (.on (slotOf id) id x)) := by
    intro id x hid j id' y hj
    unfold handled at hid
    split at hid
    case h_1 i p hp =>
      obtain rfl := Option.some.inj hid
      cases hj
      rw [hn _ _ hp]
      exact ⟨_, hp⟩
    case h_2 => exact absurd hid.symm (Option.some_ne_none _)
  revert h
  fun_cases contentsStep m l ch <;>
    try simp only [Option.some.injEq, Prod.mk.injEq, reduceCtorEq, false_implies, and_imp]
  case case1 p =>
    simp only [allocPacket]
    split <;> simp only [Option.some.injEq, Prod.mk.injEq, reduceCtorEq, false_implies, and_imp]
    rintro rfl rfl
    exact own_idle ha
  case case2 =>
    intro h
    obtain ⟨rfl, rfl⟩ := Prod.mk.inj h
    refine own_idle ?_
    split <;> exact ha
  case case4 =>
    rintro rfl rfl
    exact own_idle ha
  all_goals
    rintro rfl rfl
    exact hcall _ _ ho

lemma apiStep_own {id : SessionID} {p : ApiPc} (ha : l.api = .on i id p) (ho : Own l)
    (h : apiStep m l i id p ch = some (m', l')) : Own l' := by
  have hon : ∀ a, (∀ j id' y, a = .on j id' y → j = i) → Own (Local.call l a) := by
    intro a hj j id' y h
    rw [hj j id' y h]
    exact ho i id p ha
  revert h
  fun_cases apiStep m l i id p ch <;>
    simp only [Option.some.injEq, Prod.mk.injEq, reduceCtorEq, false_implies, and_imp]
  all_goals
    rintro rfl rfl
    refine hon _ fun j id' y h => ?_
    cases h
  all_goals rfl

/-- The steps of a thread that leave its calls alone. -/
lemma sendStep_api {p : SendPc} (h : sendStep m l i p ch = some (m', l')) : l'.api = l.api := by
  revert h
  fun_cases sendStep m l i p ch <;>
    simp only [Option.some.injEq, Prod.mk.injEq, reduceCtorEq, false_implies, and_imp]
  all_goals
    rintro rfl rfl
    rfl

lemma postStep_api {p : PostPc} (h : postStep m l i p ch = some (m', l')) : l'.api = l.api := by
  revert h
  fun_cases postStep m l i p ch <;>
    simp only [Option.some.injEq, Prod.mk.injEq, reduceCtorEq, false_implies, and_imp]
  all_goals
    rintro rfl rfl
    rfl

lemma freePacket_api {p : ℕ} (h : freePacket m l p = (m', l')) : l'.api = l.api := by
  unfold freePacket at h
  obtain ⟨rfl, rfl⟩ := Prod.mk.inj h
  split <;> rfl

lemma allocPacket_api {p : ℕ} (h : allocPacket m l p = some (m', l')) : l'.api = l.api := by
  unfold allocPacket at h
  split at h
  · obtain ⟨rfl, rfl⟩ := Prod.mk.inj (Option.some.inj h)
    rfl
  · exact absurd h.symm (Option.some_ne_none _)

lemma recvStep_own {p : RecvPc} (hn : ∀ i p, l.pc = .work i p → slotOf (m.sess i).sessionID = i)
    (ho : ownCall m l ch) (ha : l.api = .idle) (hp : l.pc = .work i (.recv p))
    (h : recvStep m l i p ch = some (m', l')) : Own l' := by
  revert h
  fun_cases recvStep m l i p ch <;>
    try simp only [Option.some.injEq, Prod.mk.injEq, reduceCtorEq, false_implies, and_imp]
  case case9 => exact fun h => own_idle ((allocPacket_api h).trans ha)
  case case16 => exact contentsStep_own hn ho ha
  case case17 | case18 => exact fun h => own_idle ((freePacket_api h).trans ha)
  case case19 id =>
    rintro rfl rfl
    intro j id' y h
    cases h
    rw [show slotOf id = i from hn _ _ hp]
    exact ⟨_, rfl⟩
  all_goals
    rintro rfl rfl
    exact own_idle ha

lemma workStep_own {p : WorkPc} (hn : ∀ i p, l.pc = .work i p → slotOf (m.sess i).sessionID = i)
    (ho : ownCall m l ch) (ha : l.api = .idle) (hp : l.pc = .work i p)
    (h : workStep m l i p ch = some (m', l')) : Own l' := by
  revert h
  fun_cases workStep m l i p ch <;>
    try simp only [Option.some.injEq, Prod.mk.injEq, reduceCtorEq, false_implies, and_imp]
  case case5 => exact fun h => own_idle ((freePacket_api h).trans ha)
  case case8 => exact fun h => own_idle ((sendStep_api h).trans ha)
  case case9 => exact recvStep_own hn ho ha hp
  case case10 => exact fun h => own_idle ((postStep_api h).trans ha)
  all_goals
    rintro rfl rfl
    exact own_idle ha

lemma relStep_own {p : RelPc} {x : Bool}
    (hn : ∀ i p, l.pc = .work i p → slotOf (m.sess i).sessionID = i)
    (ho : ownCall m l ch) (ha : l.api = .idle) (h : relStep m l i x p ch = some (m', l')) :
    Own l' := by
  revert h
  fun_cases relStep m l i x p ch <;>
    try simp only [Option.some.injEq, Prod.mk.injEq, reduceCtorEq, false_implies, and_imp]
  case case5 | case7 => exact fun h => own_idle ((freePacket_api h).trans ha)
  case case12 => exact contentsStep_own hn ho ha
  all_goals
    rintro rfl rfl
    exact own_idle ha

lemma accOnStep_own {p : AccOn} (hn : ∀ i p, l.pc = .work i p → slotOf (m.sess i).sessionID = i)
    (ho : ownCall m l ch) (ha : l.api = .idle) (h : accOnStep m l i p ch = some (m', l')) :
    Own l' := by
  revert h
  fun_cases accOnStep m l i p ch <;>
    try simp only [Option.some.injEq, Prod.mk.injEq, reduceCtorEq, false_implies, and_imp]
  case case1 s p =>
    intro h
    refine own_idle ?_
    cases p <;> exact (congrArg (fun r => r.2.api) h).symm.trans ha
  case case6 => exact contentsStep_own hn ho ha
  all_goals
    rintro rfl rfl
    exact own_idle ha

lemma acceptStep_own {p : AccPc} (hn : ∀ i p, l.pc = .work i p → slotOf (m.sess i).sessionID = i)
    (ho : ownCall m l ch) (ha : l.api = .idle) (h : acceptStep m l p ch = some (m', l')) :
    Own l' := by
  revert h
  fun_cases acceptStep m l p ch <;>
    try simp only [Option.some.injEq, Prod.mk.injEq, reduceCtorEq, false_implies, and_imp]
  case case8 => exact contentsStep_own hn ho ha
  all_goals
    rintro rfl rfl
    exact own_idle ha

lemma lstep_own (hn : ∀ i p, l.pc = .work i p → slotOf (m.sess i).sessionID = i)
    (ho : ownCall m l ch) (hl : Own l) (h : lstep m l ch = some (m', l')) : Own l' := by
  unfold lstep at h
  split at h
  case h_1 =>
    split at h
    · obtain ⟨rfl, rfl⟩ := Prod.mk.inj (Option.some.inj h)
      exact hl
    · exact absurd h.symm (Option.some_ne_none _)
  case h_2 =>
    split at h
    case h_1 ha => exact apiStep_own ha hl h
    case h_2 ha =>
      split at h
      case h_1 => exact contentsStep_own hn ho ha h
      case h_2 => exact acceptStep_own hn ho ha h
      case h_3 => exact accOnStep_own hn ho ha h
      case h_4 =>
        split at h
        · obtain ⟨rfl, rfl⟩ := Prod.mk.inj (Option.some.inj h)
          exact own_idle ha
        · exact absurd h.symm (Option.some_ne_none _)
      case h_5 hp => exact workStep_own hn ho ha hp h
      case h_6 => exact relStep_own hn ho ha h

/-! ### No `RELEASE` job -/

/-- The thread neither posts a `RELEASE` job nor has taken one. -/
structure Calm (l : LV) : Prop where
  role : l.role ≠ .work (.entry .release)
  api : ∀ id, l.api ≠ some (id, .request)

variable {k : ℕ} {e : Ev} {V V' : View} {x x' : LV}

lemma sstep_calm (h : SStep k e V x V' x') (hq : .release ∉ V.jobs) (hx : Calm x)
    (hlast : ∀ id, x.api = some (id, .leave) → V.s.ioCount - 1 ≠ 0) :
    .release ∉ V'.jobs ∧ Calm x' := by
  obtain ⟨hr, ha⟩ := hx
  cases h
  case leaveLast h0 => exact absurd h0 (hlast _ rfl)
  case request | requestFail => exact absurd rfl (ha _)
  case post => exact ⟨by simpa using hq, hr, fun _ => nofun⟩
  case gqcs j js hj =>
    refine ⟨fun hm => hq (hj ▸ List.mem_cons_of_mem _ hm), fun h => hq ?_, ha⟩
    have hj' : j = .release := by simpa using h
    rw [hj, hj']
    exact List.mem_cons_self
  case chkID c _ => cases c <;> exact ⟨hq, hr, fun _ => nofun⟩
  case entryPass j _ _ => cases j <;> exact ⟨hq, nofun, fun _ => nofun⟩
  case entrySkip j _ _ => cases j <;> exact ⟨hq, nofun, fun _ => nofun⟩
  all_goals first
    | exact ⟨hq, hr, ha⟩
    | exact ⟨hq, hr, fun _ => nofun⟩
    | exact ⟨hq, nofun, fun _ => nofun⟩

variable {τ : Type*} [DecidableEq τ] [Fintype τ] {b : Boot} {a : τ} {w : τ → Bool} {c : Config τ}

/-- The actions of runs in which contents code calls for the session it is handling only. -/
def owns (c : Config τ) : Act τ → Prop
  | .run t ch => ownCall c.mem (c.loc t) ch
  | _ => True

def SlotCalm (S : Slot τ) : Prop := .release ∉ S.V.jobs ∧ ∀ t, Calm (S.L t)

lemma next_calm {S S' : Slot τ} (h : Next k e S S') (hB : Counted S)
    (ho : ∀ t, (S.L t).api ≠ none → ∃ p, (S.L t).role = .work (.recv p)) (hc : SlotCalm S) :
    SlotCalm S' := by
  obtain ⟨hq, hL⟩ := hc
  cases h with
  | @thread e V L V' l' t hs =>
    have hlast : ∀ id, (L t).api = some (id, .leave) → V.s.ioCount - 1 ≠ 0 := by
      -- the worker has its own reference besides that of the call
      intro id hid
      obtain ⟨p, hp⟩ := ho t (by simp [hid])
      have h2 : LV.refs (L t) = 2 := by
        simp only at hp
        simp [LV.refs, hp, hid, Role.refs, WorkPc.refs, ApiPc.refs]
      have := le_sum (fun u => LV.refs (L u)) t
      simp only [Counted, refs] at hB
      omega
    obtain ⟨hq', hl'⟩ := sstep_calm hs hq (hL t) hlast
    refine ⟨hq', fun u => ?_⟩
    by_cases hut : u = t
    · subst hut
      simpa using hl'
    · simpa [hut] using hL u
  | @complete V L io n d hio =>
    refine ⟨fun hm => ?_, hL⟩
    rcases List.mem_append.mp hm with hm | hm
    · exact hq hm
    · have := List.mem_singleton.mp hm
      simp only [IoReq.done] at this
      split at this <;> cases this

omit [DecidableEq τ] [Fintype τ] in
lemma own_slot (h : ∀ t, Own (c.loc t)) (k : ℕ) (t : τ) (ha : ((slot c k).L t).api ≠ none) :
    ∃ p, ((slot c k).L t).role = .work (.recv p) := by
  simp only [slot, lview, apiRole] at ha ⊢
  split at ha
  case h_1 i id p hi =>
    split at ha
    · rename_i hk
      obtain ⟨q, hq⟩ := h t i id p hi
      exact ⟨q, by rw [hq, hk, pcRole_work]⟩
    · exact absurd rfl ha
  case h_2 => exact absurd rfl ha

/-- What such runs keep. -/
structure OwnRun (c : Config τ) : Prop where
  own : ∀ t, Own (c.loc t)
  calm : ∀ k, SlotCalm (slot c k)

/-- The labels that a call for another session could give a step. -/
def foreign : List Ev := [.skipRelease, .lateEnter, .lostRelease]

lemma ownRun_label (h : Reach step (avoids foreign) (boot b a w) c) (ho : OwnRun c) (t : τ)
    (ch : Choice) : label c.mem (c.loc t) ch ∉ foreign := by
  intro hm
  unfold label at hm
  split at hm
  case h_1 i id q hd hapi =>
    split at hm
    · split at hm
      · exact absurd hm (by decide)
      · rename_i hj
        obtain ⟨p, hp⟩ := ho.own t i id _ hapi
        refine hj ((reach_joinedAt (k := i) (by decide) (by decide) (by decide) h t).met ?_)
        simp [slot, lview, hp, pcRole, LV.met, Role.met, Role.refs, WorkPc.refs]
    · exact absurd hm (by decide)
  case h_2 => exact absurd hm (by decide)
  case h_3 i id hd hapi =>
    refine ((ho.calm i).2 t).api id ?_
    simp [slot, lview, hapi, apiRole]
  case h_4 i hd hapi hp =>
    refine absurd ?_ ((ho.calm i).2 t).role
    simp [slot, lview, hp, pcRole]
  case h_5 =>
    split at hm
    · split at hm <;> exact absurd hm (by decide)
    · exact absurd hm (by decide)
  case h_6 => exact absurd hm (by decide)

lemma ownRun_step {c' : Config τ} {x : Act τ} (h : Reach step (avoids foreign) (boot b a w) c)
    (hx : owns c x) (hs : step c x = some c') (ho : OwnRun c) : OwnRun c' := by
  have hN := reach_named h
  refine ⟨fun t => ?_, fun k => ?_⟩
  · cases x with
    | run u ch =>
      simp only [step, Option.map_eq_some_iff] at hs
      obtain ⟨⟨m', l'⟩, hs, rfl⟩ := hs
      dsimp only
      by_cases htu : t = u
      · subst htu
        rw [Function.update_self]
        exact lstep_own (hN.known t).work hx (ho.own t) hs
      · rw [Function.update_of_ne htu]
        exact ho.own t
    | complete io n d =>
      simp only [step] at hs
      split at hs <;> simp only [Option.some.injEq, reduceCtorEq] at hs
      subst hs
      exact ho.own t
    | give u v p =>
      simp only [step] at hs
      split at hs <;> simp only [Option.some.injEq, reduceCtorEq] at hs
      rename_i hg
      subst hs
      by_cases htv : t = v
      · subst htv
        exact own_idle (by simpa using hg.2.2.2.2.1)
      · by_cases htu : t = u
        · subst htu
          exact own_idle (by simpa [htv] using hg.2.2.2.1)
        · simpa [htv, htu] using ho.own t
  · rcases step_slot hN hs k with he | ⟨e, -, hn⟩
    · exact he ▸ ho.calm k
    · exact next_calm hn (reach_counted (by decide) (by decide) h) (own_slot ho.own k) (ho.calm k)

/-- **Own calls are harmless.** A run in which contents code calls for the session it is handling
only has none of the labels that the results about slots exclude. -/
theorem reach_owns (h : Reach step owns (boot b a w) c) :
    Reach step (avoids foreign) (boot b a w) c ∧ OwnRun c := by
  induction h with
  | init =>
    refine ⟨.init, fun t => own_idle rfl, fun k => ⟨?_, fun t => ?_⟩⟩
    · rw [(fresh_boot b a w k).jobs]
      exact List.not_mem_nil
    · rw [(fresh_boot b a w k).idle t]
      exact ⟨nofun, nofun⟩
  | @step c c' x _ hx hs ih =>
    refine ⟨.step ih.1 ?_ hs, ownRun_step ih.1 hx hs ih.2⟩
    cases x with
    | run t ch => exact ownRun_label ih.1 ih.2 t ch
    | complete => exact show Ev.ok ∉ foreign by decide
    | give => exact show Ev.ok ∉ foreign by decide

end LoginServerChat.OwnCalls
