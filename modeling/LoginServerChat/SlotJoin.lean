import LoginServerChat.SlotRelease

/-!
Before `OnClientJoin` a session belongs to the accept thread alone.

This rests on the ids: no caller of `SendPacket` or `Disconnect` gets past `EnterSession` on a
slot whose id has not been handed out, which only an id from before a wrap of `_sessionCnt`
could do.
-/

namespace LoginServerChat.SlotJoin

open NetPacket NetState NetStep SlotStep SlotView SlotRun SlotRefs SlotPhase SlotLive SlotRelease Runs

variable {τ : Type*} [DecidableEq τ] [Fintype τ]

/-- The thread accepts on the slot: it holds the slot's first reference, or is about to. -/
def LV.accepts (l : LV) : ℕ :=
  match l.role with
  | .acc (.pend _) | .acc (.cancel _) => 0
  | .acc _ => 1
  | _ => 0

/-- The thread accepts and has not called `OnClientJoin`. -/
def LV.unmet (l : LV) : ℕ :=
  match l.role with
  | .acc (.init _ _) | .acc (.assoc _) | .acc (.join _) | .acc .stop => 1
  | _ => 0

def Role.met : Role → ℕ
  | .acc (.joining _) | .acc (.recv _) | .acc .fail => 1
  | .acc _ => 0
  | r => Role.refs r

def ApiPc.met : ApiPc → ℕ
  | .chkID _ => 0
  | p => ApiPc.valid p

/-- The references of a thread that need a session which has been announced. -/
def LV.met (l : LV) : ℕ := Role.met l.role + (l.api.elim 0 fun x => ApiPc.met x.2)

lemma LV.met_le (l : LV) : LV.met l ≤ LV.valid l := by
  obtain ⟨r, x⟩ := l
  have h1 : Role.met r ≤ Role.valid r := by
    cases r with
    | acc p => cases p <;> simp [Role.met, Role.valid, AccOn.valid]
    | _ => rfl
  rcases x with _ | ⟨id, p⟩
  · simpa [LV.met, LV.valid] using h1
  · have h2 : ApiPc.met p ≤ ApiPc.valid p := by cases p <;> simp [ApiPc.met, ApiPc.valid]
    simp only [LV.met, LV.valid, Option.elim]
    omega

lemma LV.accepts_le (l : LV) : LV.accepts l ≤ LV.inits l + LV.refs l := by
  obtain ⟨r, x⟩ := l
  cases r with
  | acc p =>
    rcases p with ⟨_, p⟩ | _ | _ | _ | _ | _ | _ | _ | _
    · cases p <;> simp only [LV.accepts, LV.inits, LV.refs, Role.refs, AccOn.refs] <;> omega
    all_goals simp only [LV.accepts, LV.refs, Role.refs, AccOn.refs]; omega
  | _ => simp [LV.accepts]

variable {k : ℕ} {e : Ev} {V V' : View} {l l' : LV}

/-- The slot has a client or is getting one. -/
def View.busy (V : View) : ℕ := if V.h.phase = .init ∨ V.h.phase = .live then 1 else 0

/-- One thread accepts at a time; `n` counts the others. -/
lemma sstep_accepts {n : ℕ} (h : SStep k e V l V' l') (hA : SoundAt V l)
    (hcas : V.s.ioCount = 0 → V.h.phase = .live → n = 0)
    (hn : n + LV.accepts l ≤ View.busy V) : n + LV.accepts l' ≤ View.busy V' := by
  cases h
  case pop hst =>
    simp [View.busy, hA.stack (by omega)] at hn
    simp [View.busy, hn, LV.accepts]
  case initReleaseFlag =>
    simp [View.busy, hA.init Nat.one_pos, LV.accepts] at hn
    simp [View.busy, hn, LV.accepts]
  case cas h0 hf =>
    have hph := hA.of_flag (.inr trivial) hf
    simp [View.busy, hcas h0 hph, LV.accepts]
  case push =>
    simp [View.busy, hA.rel Nat.one_pos, LV.accepts] at hn
    simp [View.busy, hn, LV.accepts]
  case entryPass j _ _ => cases j <;> exact hn
  case entrySkip j _ _ => cases j <;> exact hn
  all_goals first
    | exact hn
    | exact le_trans (by simp [LV.accepts]) hn

/-- A session is announced before it is used; `n` counts what the other threads hold. -/
lemma sstep_met {n : ℕ} (h : SStep k e V l V' l') (he : e ≠ .lateEnter) (hs : e ≠ .skipRelease)
    (hpop : 0 < V.stack → View.refs V + n = 0)
    (hm : 0 < View.refs V + (n + LV.met l) → V.h.joined = true)
    (hp : 0 < View.refs V' + (n + LV.met l')) : V'.h.joined = true := by
  cases h
  case entrySkipRelease => exact absurd rfl hs
  case chkID c hid =>
    by_contra hj
    exact he (if_neg hj)
  case join => rfl
  case pop hst =>
    have := hpop (by omega)
    simp only [LV.met, Role.met, View.refs, Option.elim] at hp this
    omega
  case entryPass j _ _ => cases j <;> exact hm hp
  case entrySkip j hj _ =>
    cases j
    case release => exact absurd rfl hj
    all_goals exact hm hp
  case gqcs j js hj =>
    refine hm ?_
    simp only [View.refs, LV.met, Role.met, Role.refs, WorkPc.refs, hj, List.map_cons,
      List.sum_cons, Option.elim] at hp ⊢
    omega
  all_goals
    refine hm ?_
    simp only [View.refs, LV.met, Role.met, Role.refs, WorkPc.refs, SendPc.refs,
      PostPc.refs, ApiPc.met, ApiPc.valid, Job.refs, cancelAll_length, List.map_append,
      List.sum_append, List.map_cons, List.map_nil, List.sum_cons, List.sum_nil,
      List.length_append, List.length_cons, List.length_nil, Option.elim] at hp ⊢
    omega

lemma sstep_unmet (h : SStep k e V l V' l') (hl : 0 < LV.unmet l → V.h.joined = false)
    (hp : 0 < LV.unmet l') : V'.h.joined = false := by
  cases h
  case pop => rfl
  case entryPass j _ _ => cases j <;> exact hl hp
  case entrySkip j _ _ => cases j <;> exact hl hp
  all_goals first
    | exact hl hp
    | exact absurd hp (Nat.lt_irrefl 0)

/-- Who announces a session is the thread that accepts on it. -/
lemma sstep_joined (h : SStep k e V l V' l') (hV : V.h.joined = false)
    (hp : V'.h.joined = true) : 0 < LV.accepts l := by
  cases h
  case join => exact Nat.one_pos
  case pop => exact absurd hp Bool.false_ne_true
  case entrySkip j _ _ => cases j <;> exact absurd (hV.symm.trans hp) Bool.false_ne_true
  all_goals exact absurd (hV.symm.trans hp) Bool.false_ne_true

lemma LV.unmet_le (l : LV) : LV.unmet l ≤ LV.accepts l := by
  obtain ⟨r, x⟩ := l
  cases r with
  | acc p => cases p <;> simp [LV.unmet, LV.accepts]
  | _ => simp [LV.unmet]

lemma LV.inits_le (l : LV) : LV.inits l ≤ LV.unmet l := by
  obtain ⟨r, x⟩ := l
  rcases r with _ | p | _ | _
  · rfl
  · rcases p with ⟨_, p⟩ | _ | _ | _ | _ | _ | _ | _ | _
    · cases p <;> simp [LV.inits, LV.unmet]
    all_goals simp [LV.inits]
  · rfl
  · rfl

variable {b : Boot} {a : τ} {w : τ → Bool} {c : Config τ} {bad : List Ev}

theorem reach_accepts (hok : .ok ∉ bad) (hr : .skipRelease ∈ bad)
    (h : Reach step (avoids bad) (boot b a w) c) :
    ∑ t, LV.accepts ((slot c k).L t) ≤ View.busy (slot c k).V := by
  refine slot_inv (I := fun S => ∑ t, LV.accepts (S.L t) ≤ View.busy S.V) hok (fun S hf => ?_)
    (fun c e S' hc hi he hn => ?_) h
  · simp [hf.idle, LV.accepts]
  · have hA := fun t => reach_sound (k := k) hok hr hc t
    have hP := reach_phased (k := k) hc
    generalize slot c k = S at hn hi hA hP
    cases hn with
    | @thread e V L V' l' t hs =>
      obtain ⟨n, hn, hn'⟩ := sum_split LV.accepts L t
      simp only [hn, hn'] at hi ⊢
      refine sstep_accepts hs (hA t) (fun h0 hph => ?_) hi
      -- a live slot without references has no thread that accepts
      have hi0 : ∑ u, LV.inits (L u) = 0 := by simpa [hph] using hP.inits
      have hu : ∑ u, LV.accepts (L u) = 0 := by
        refine Finset.sum_eq_zero fun u _ => ?_
        have h1 := LV.accepts_le (L u)
        have h2 : LV.refs (L u) = 0 := ((hA u).empty h0).2
        have h3 := le_sum (fun u => LV.inits (L u)) u
        omega
      omega
    | complete => exact hi

/-- What only an announced session has, besides the thread that accepts on it. -/
def met (S : Slot τ) : ℕ := View.refs S.V + ∑ t, LV.met (S.L t)

theorem reach_met (hok : .ok ∉ bad) (hr : .skipRelease ∈ bad) (hl : .lateEnter ∈ bad)
    (h : Reach step (avoids bad) (boot b a w) c) (hm : 0 < met (slot c k)) :
    (slot c k).V.h.joined = true := by
  revert hm
  refine slot_inv (I := fun S => 0 < met S → S.V.h.joined = true) hok (fun S hf hm => ?_)
    (fun c e S' hc hi he hn => ?_) h
  · simp [met, View.refs, hf.ios, hf.jobs, hf.idle, LV.met, Role.met, Role.refs] at hm
  · have hA := fun t => reach_sound (k := k) hok hr hc t
    generalize slot c k = S at hn hi hA
    cases hn with
    | @thread e V L V' l' t hs =>
      obtain ⟨n, hn, hn'⟩ := sum_split LV.met L t
      simp only [met, hn, hn'] at hi ⊢
      refine sstep_met hs (fun h => he (h ▸ hl)) (fun h => he (h ▸ hr)) (fun hst => ?_) hi
      have hph : V.h.phase = .free := (hA t).stack hst
      have hV : View.refs V = 0 := by
        by_contra hV
        exact Phase.noConfusion (hph.symm.trans ((hA t).held (Nat.pos_of_ne_zero hV)))
      have hu : ∑ u, LV.met (L u) = 0 := by
        refine Finset.sum_eq_zero fun u _ => ?_
        by_contra hu
        have h1 := LV.met_le (L u)
        exact Phase.noConfusion (hph.symm.trans ((hA u).live (by dsimp only; omega)))
      omega
    | @complete V L io n d hio =>
      intro _
      refine hi ?_
      have := List.length_pos_of_mem hio
      simp only [met, View.refs]
      omega

theorem reach_unmet (hok : .ok ∉ bad) (hr : .skipRelease ∈ bad)
    (h : Reach step (avoids bad) (boot b a w) c) (t : τ) (hu : 0 < LV.unmet ((slot c k).L t)) :
    (slot c k).V.h.joined = false := by
  revert t hu
  refine slot_inv (I := fun S => ∀ t, 0 < LV.unmet (S.L t) → S.V.h.joined = false) hok
    (fun S hf t hu => ?_) (fun c e S' hc hi he hn => ?_) h
  · simp [hf.idle, LV.unmet] at hu
  · have hacc := reach_accepts (k := k) hok hr hc
    generalize slot c k = S at hn hi hacc
    cases hn with
    | @thread e V L V' l' t hs =>
      intro u hu
      by_cases hut : u = t
      · subst hut
        exact sstep_unmet hs (hi u) (by simpa using hu)
      · simp only [Function.update_of_ne hut] at hu
        by_contra hj
        -- the thread that announces the session would be a second one that accepts
        have ht := sstep_joined hs (hi u hu) (by simpa using hj)
        have h1 := LV.unmet_le (L u)
        have h2 : View.busy V ≤ 1 := by unfold View.busy; split <;> omega
        have := eq_zero_of_sum_le (f := fun u => LV.accepts (L u)) (t := t) (u := u)
          (by dsimp only at hacc; omega) hut
        omega
    | complete => exact hi

lemma sstep_unannounced {n : ℕ} (h : SStep k e V l V' l')
    (hi : V.h.phase = .live → V.h.joined = false → 0 < n + LV.unmet l)
    (hp : V'.h.phase = .live) (hj : V'.h.joined = false) : 0 < n + LV.unmet l' := by
  cases h
  case initReleaseFlag => exact Nat.succ_pos n
  case join => exact Bool.noConfusion hj
  case pop | cas | push => exact Phase.noConfusion hp
  case entryPass j _ _ => cases j <;> exact hi hp hj
  case entrySkip j _ _ => cases j <;> exact hi hp hj
  all_goals exact hi hp hj

/-- A live session that has not been announced is still with the thread that accepts on it. -/
theorem reach_unannounced (hok : .ok ∉ bad)
    (h : Reach step (avoids bad) (boot b a w) c) (hp : (slot c k).V.h.phase = .live)
    (hj : (slot c k).V.h.joined = false) : 0 < ∑ t, LV.unmet ((slot c k).L t) := by
  revert hp hj
  refine slot_inv (I := fun S => S.V.h.phase = .live → S.V.h.joined = false →
    0 < ∑ t, LV.unmet (S.L t)) hok (fun S hf hp => ?_) (fun c e S' hc hi he hn => ?_) h
  · simp [hf.h, freshHist] at hp
  · generalize slot c k = S at hn hi
    cases hn with
    | @thread e V L V' l' t hs =>
      obtain ⟨n, hn, hn'⟩ := sum_split LV.unmet L t
      simp only [hn, hn'] at hi ⊢
      exact sstep_unannounced hs hi
    | complete => exact hi

/-- What the point of a thread says about its slot, with the announcement. -/
structure JoinedAt (V : View) (l : LV) : Prop extends SoundAt V l where
  met : 0 < LV.met l → V.h.joined = true
  heldJoined : 0 < View.refs V → V.h.joined = true
  unmet : 0 < LV.unmet l → V.h.joined = false

theorem reach_joinedAt (hok : .ok ∉ bad) (hr : .skipRelease ∈ bad) (hl : .lateEnter ∈ bad)
    (h : Reach step (avoids bad) (boot b a w) c) (t : τ) :
    JoinedAt (slot c k).V ((slot c k).L t) := by
  have hm := reach_met (k := k) hok hr hl h
  have ht := le_sum (fun u => LV.met ((slot c k).L u)) t
  simp only [met] at hm
  exact ⟨reach_sound hok hr h t, fun h => hm (by omega), fun h => hm (by omega),
    reach_unmet hok hr h t⟩

end LoginServerChat.SlotJoin
