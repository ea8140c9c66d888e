import LoginServerChat.Callbacks

/-!
The invariant of `characterMap` and of the `Character`s, and that the steps of the session layer
keep it. They leave the map alone: a thread that enters or leaves a callback changes the stage of
its session, and the entries there are stay the ones there should be.
-/

namespace LoginServerChat.CallbackRun

open NetPacket NetState NetStep SlotStep SlotView SlotRun SlotRefs SlotPhase SlotLive SlotRelease
  SlotJoin SlotSend SendPath SlotRecv OwnCalls Contents CallbackStage StaleIds Callbacks Runs

variable {τ : Type*}

/-! ### The invariant -/

def idAt (s : State τ) (k : ℕ) : SessionID := (s.net.mem.sess k).sessionID

/-- The code of a thread is in the callback that the session layer has called, on the id of its
slot and with the `Character` of that id. -/
def Placed (s : State τ) (t : τ) : Prop :=
  match callback (s.net.loc t).pc with
  | none => s.pc t = .out
  | some (.join, k) => s.pc t = .alloc (idAt s k) ∨
      (∃ p, s.pc t = .insert (idAt s k) p ∧ s.sid p = idAt s k) ∨ s.pc t = .done
  | some (.recv, k) => s.pc t = .find (idAt s k) ∨
      ∃ p, (s.pc t = .deref (idAt s k) p ∨ s.pc t = .handle (idAt s k) p) ∧
        (idAt s k, p) ∈ s.characterMap
  | some (.leave, k) => s.pc t = .erase (idAt s k) ∨ s.pc t = .done

/-- The session of slot `k` has its entry, when the slot is at stage `y`: not before the
`insert` of its `OnClientJoin`, and not after the `erase` of its `OnClientLeave`. -/
def Enrolled (s : State τ) (k : ℕ) : Stage → Prop
  | .away => False
  | .joining => ∃ t, callback (s.net.loc t).pc = some (.join, k) ∧ s.pc t = .done
  | .joined | .receiving => True
  | .leaving => ∃ t, callback (s.net.loc t).pc = some (.leave, k) ∧ s.pc t ≠ .done

/-- A `Character` that is on its way into the map. -/
def CbPc.inserts (p : ℕ) : CbPc → ℕ
  | .insert _ q => if q = p then 1 else 0
  | _ => 0

variable {s : State τ} {c n : Config τ} {t u : τ} {x y : Kind} {k : ℕ} {g : Stage}
  {id : SessionID} {p q : ℕ}

lemma calls_of_callback (h : callback (c.loc t).pc = some (x, k)) :
    Role.calls (pcRole k (c.loc t).pc) = some x := by
  rw [calls_pcRole, h]
  simp

lemma callback_of_calls (h : Role.calls (pcRole k (c.loc t).pc) = some x) :
    callback (c.loc t).pc = some (x, k) := by
  rw [calls_pcRole, Option.bind_eq_some_iff] at h
  obtain ⟨⟨y, i⟩, hc, h⟩ := h
  obtain ⟨hi, h⟩ := Option.ite_none_right_eq_some.mp h
  rw [hc, ← Option.some.inj h, ← hi]

/-- The points of a callback are reached in that callback only. -/
lemma placed_alloc (hP : Placed s t) (h : s.pc t = .alloc id) :
    ∃ k, callback (s.net.loc t).pc = some (.join, k) ∧ id = idAt s k := by
  unfold Placed at hP
  split at hP
  case h_2 k hc => exact ⟨k, hc, by simpa [h] using hP⟩
  all_goals simp [h] at hP

lemma placed_insert (hP : Placed s t) (h : s.pc t = .insert id p) :
    ∃ k, callback (s.net.loc t).pc = some (.join, k) ∧ id = idAt s k ∧ s.sid p = id := by
  unfold Placed at hP
  split at hP
  case h_2 k hc =>
    simp only [h, reduceCtorEq, CbPc.insert.injEq, false_or, or_false] at hP
    obtain ⟨r, ⟨rfl, rfl⟩, hr⟩ := hP
    exact ⟨k, hc, rfl, hr⟩
  all_goals simp [h] at hP

lemma placed_find (hP : Placed s t) (h : s.pc t = .find id) :
    ∃ k, callback (s.net.loc t).pc = some (.recv, k) ∧ id = idAt s k := by
  unfold Placed at hP
  split at hP
  case h_3 k hc => exact ⟨k, hc, by simpa [h] using hP⟩
  all_goals simp [h] at hP

lemma placed_found (hP : Placed s t) (h : s.pc t = .deref id p ∨ s.pc t = .handle id p) :
    ∃ k, callback (s.net.loc t).pc = some (.recv, k) ∧ id = idAt s k ∧ (id, p) ∈ s.characterMap := by
  unfold Placed at hP
  split at hP
  case h_3 k hc =>
    rcases h with h | h
    · simp only [h, reduceCtorEq, CbPc.deref.injEq, false_or, or_false] at hP
      obtain ⟨r, ⟨rfl, rfl⟩, hr⟩ := hP
      exact ⟨k, hc, rfl, hr⟩
    · simp only [h, reduceCtorEq, CbPc.handle.injEq, false_or] at hP
      obtain ⟨r, ⟨rfl, rfl⟩, hr⟩ := hP
      exact ⟨k, hc, rfl, hr⟩
  all_goals rcases h with h | h <;> simp [h] at hP

lemma placed_erase (hP : Placed s t) (h : s.pc t = .erase id) :
    ∃ k, callback (s.net.loc t).pc = some (.leave, k) ∧ id = idAt s k := by
  unfold Placed at hP
  split at hP
  case h_4 k hc => exact ⟨k, hc, by simpa [h] using hP⟩
  all_goals simp [h] at hP

/-- `OnClientJoin` and `OnClientLeave` return when their work is done. -/
lemma placed_returns (hP : Placed s t) (hc : callback (s.net.loc t).pc = some (x, k)) (hx : x ≠ .recv)
    (h : CbPc.returns (s.pc t) = true) : s.pc t = .done := by
  unfold Placed at hP
  cases x
  case join =>
    simp only [hc] at hP
    rcases hP with hp | ⟨p, hp, -⟩ | hp
    · rw [hp] at h
      exact absurd h Bool.false_ne_true
    · rw [hp] at h
      exact absurd h Bool.false_ne_true
    · exact hp
  case recv => exact absurd rfl hx
  case leave =>
    simp only [hc] at hP
    rcases hP with hp | hp
    · rw [hp] at h
      exact absurd h Bool.false_ne_true
    · exact hp

lemma placed_missing (hP : Placed s t) : s.pc t ≠ .missing id := by
  intro h
  unfold Placed at hP
  split at hP <;> simp [h] at hP

variable [DecidableEq τ] [Fintype τ]

/-- The invariant, when the `Character`s `H` were out already at the start. -/
structure Sound (H : List ℕ) (s : State τ) (st : ℕ → Stage) : Prop where
  staged : ∀ k, SlotStaged (slot s.net k) (st k)
  log : ∀ id, follow id s.log = some (stageOf s.net st id)
  joins : ∀ id, joins id s.log = (view s.net.mem (slotOf id)).issued.count id
  placed : ∀ t, Placed s t
  keys : (s.characterMap.map Prod.fst).Nodup
  entries : ∀ id, id ∈ s.characterMap.map Prod.fst ↔
    Current s.net id ∧ Enrolled s (slotOf id) (st (slotOf id))
  sid : ∀ x ∈ s.characterMap, s.sid x.2 = x.1
  held : ∀ p, s.held.count p =
    H.count p + s.characterMap.countP (·.2 = p) + ∑ t, CbPc.inserts p (s.pc t)
  nodup : s.held.Nodup

variable {st st' : ℕ → Stage} {H : List ℕ}

omit [DecidableEq τ] in
/-- A callback that a thread runs is the one its slot is in. -/
lemma running_of_callback (hst : SlotStaged (slot c k) g)
    (h : callback (c.loc t).pc = some (x, k)) : g.running = some x := by
  have h1 := le_sum (fun u => LV.calls x ((slot c k).L u)) t
  have h2 : LV.calls x ((slot c k).L t) = 1 := if_pos (calls_of_callback h)
  have h3 := hst.calls x
  by_contra hg
  rw [if_neg hg] at h3
  omega

/-- And no other thread runs one of the slot. -/
lemma callback_unique (hst : SlotStaged (slot c k) g) (h : callback (c.loc t).pc = some (x, k))
    (h' : callback (c.loc u).pc = some (y, k)) : u = t := by
  have hx := running_of_callback hst h
  obtain rfl : x = y := Option.some.inj (hx.symm.trans (running_of_callback hst h'))
  by_contra hut
  have h1 : LV.calls x ((slot c k).L t) = 1 := if_pos (calls_of_callback h)
  have h2 : LV.calls x ((slot c k).L u) = 1 := if_pos (calls_of_callback h')
  have h3 := hst.calls x
  rw [if_pos hx] at h3
  have := eq_zero_of_sum_le (f := fun v => LV.calls x ((slot c k).L v)) (t := t) (h3.le.trans h1.ge) hut
  omega

omit [DecidableEq τ] in
lemma stage_of_callback (hst : SlotStaged (slot c k) g)
    (h : callback (c.loc t).pc = some (x, k)) : g ≠ .away := by
  rintro rfl
  exact absurd (running_of_callback hst h).symm (Option.some_ne_none x)

/-! ### The session layer moves -/

variable {b : Boot} {a : τ} {w : τ → Bool} {ch : Choice}

/-- What a step of thread `t` leaves the contents with. -/
structure Observed (s : State τ) (t : τ) (n : Config τ) (s' : State τ) : Prop where
  net : s'.net = n
  characterMap : s'.characterMap = s.characterMap
  sid : s'.sid = s.sid
  held : s'.held = s.held
  others : ∀ u ≠ t, s'.pc u = s.pc u
  enter : callback (s.net.loc t).pc = none → ∀ x k, callback (n.loc t).pc = some (x, k) →
    s'.pc t = entry (idAt s k) x
  exit : callback (s.net.loc t).pc ≠ none → callback (n.loc t).pc = none → s'.pc t = .out
  stay : (callback (s.net.loc t).pc = none ↔ callback (n.loc t).pc = none) → s'.pc t = s.pc t

omit [Fintype τ] in
lemma observe_observed (s : State τ) (t : τ) (n : Config τ) : Observed s t n (observe s t n) := by
  unfold observe
  split
  case h_1 x k hc hc' =>
    refine ⟨rfl, rfl, rfl, rfl, fun u hu => Function.update_of_ne hu _ _, fun _ y j hj => ?_,
      fun h => absurd hc h, fun h => ?_⟩
    · obtain ⟨rfl, rfl⟩ := Prod.mk.inj (Option.some.inj (hc'.symm.trans hj))
      exact Function.update_self _ _ _
    · exact absurd ((h.mp hc).symm.trans hc') (Option.some_ne_none _).symm
  case h_2 x k hc hc' =>
    refine ⟨rfl, rfl, rfl, rfl, fun u hu => Function.update_of_ne hu _ _, fun h => ?_,
      fun _ _ => Function.update_self _ _ _, fun h => ?_⟩
    · exact absurd (h.symm.trans hc) (Option.some_ne_none _).symm
    · exact absurd ((h.mpr hc').symm.trans hc) (Option.some_ne_none _).symm
  case h_3 hno hno' =>
    refine ⟨rfl, rfl, rfl, rfl, fun _ _ => rfl, fun h y j hj => absurd hj (hno _ _ h), fun h h' => ?_,
      fun _ => rfl⟩
    obtain ⟨⟨y, j⟩, hy⟩ := Option.ne_none_iff_exists'.mp h
    exact absurd h' (hno' _ _ hy)

/-- Everything that is known of a step of the session layer. -/
structure NetMove (s : State τ) (t : τ) (n : Config τ) (s' : State τ) (st st' : ℕ → Stage) : Prop where
  moved : Moved s.net n t st st'
  staged : ∀ k, SlotStaged (slot n k) (st' k)
  observed : Observed s t n s'
  /-- A thread that stays in a callback stays in the same one. -/
  same : ∀ y z, callback (s.net.loc t).pc = some y → callback (n.loc t).pc = some z → y = z
  /-- A callback returns when its code is done. -/
  returns : callback (s.net.loc t).pc ≠ none → callback (n.loc t).pc = none →
    CbPc.returns (s.pc t) = true

omit [DecidableEq τ] in
lemma NetMove.pc_other {s' : State τ} (h : NetMove s t n s' st st') (hu : u ≠ t) :
    callback (n.loc u).pc = callback (s.net.loc u).pc ∧ s'.pc u = s.pc u := by
  rw [h.moved.others u hu]
  exact ⟨rfl, h.observed.others u hu⟩

omit [DecidableEq τ] in
lemma NetMove.names {s' : State τ} (h : NetMove s t n s' st st')
    (hx : callback (s.net.loc u).pc = some (x, k) ∨ callback (n.loc u).pc = some (x, k))
    (hS : ∀ k, SlotStaged (slot s.net k) (st k)) :
    (n.mem.sess k).sessionID = (s.net.mem.sess k).sessionID ∧
      (n.mem.hist k).ever = (s.net.mem.hist k).ever := by
  rcases h.moved.names k with hn | ⟨h1, h2, h3⟩
  · exact hn
  · rcases hx with hx | hx
    · exact absurd h1 (stage_of_callback (hS k) hx)
    · exact absurd (h.moved.away h1 h2 h3) (stage_of_callback (h.staged k) hx)

lemma netMove_placed {s' : State τ} (h : NetMove s t n s' st st') (hS : Sound H s st) (u : τ) :
    Placed s' u := by
  have hnet := h.observed.net
  have hP := hS.placed u
  have hid : ∀ x k, callback (s.net.loc u).pc = some (x, k) ∨ callback (n.loc u).pc = some (x, k) →
      idAt s' k = idAt s k := by
    intro x k hx
    unfold idAt
    rw [hnet]
    exact (h.names hx hS.staged).1
  -- the point of the code has not changed, nor has the callback
  have hkeep : callback (n.loc u).pc = callback (s.net.loc u).pc → s'.pc u = s.pc u → Placed s' u := by
    intro hc hp
    unfold Placed at hP ⊢
    rw [hnet, hc, hp, h.observed.characterMap, h.observed.sid]
    rcases hcb : callback (s.net.loc u).pc with _ | ⟨x, k⟩
    · simpa only [hcb] using hP
    · have hk := hid x k (.inl hcb)
      cases x <;> simpa only [hcb, hk] using hP
  by_cases hut : u = t
  · subst hut
    rcases hcb : callback (s.net.loc u).pc with _ | y <;> rcases hcb' : callback (n.loc u).pc with _ | z
    · exact hkeep (hcb'.trans hcb.symm) (h.observed.stay (by rw [hcb, hcb']))
    · obtain ⟨x, k⟩ := z
      have hp := h.observed.enter hcb x k hcb'
      have hk := hid x k (.inr hcb')
      unfold Placed
      rw [hnet, hcb', hp]
      cases x
      · exact .inl (by rw [hk]; rfl)
      · exact .inl (by rw [hk]; rfl)
      · exact .inl (by rw [hk]; rfl)
    · unfold Placed
      rw [hnet, hcb']
      exact h.observed.exit (by rw [hcb]; exact Option.some_ne_none y) hcb'
    · obtain rfl := h.same y z hcb hcb'
      refine hkeep (hcb'.trans hcb.symm) (h.observed.stay ?_)
      rw [hcb, hcb']
  · obtain ⟨hc, hp⟩ := h.pc_other hut
    exact hkeep hc hp

lemma netMove_inserts {s' : State τ} (h : NetMove s t n s' st st') (hS : Sound H s st) (p : ℕ) (u : τ) :
    CbPc.inserts p (s'.pc u) = CbPc.inserts p (s.pc u) := by
  by_cases hut : u = t
  · subst hut
    rcases hcb : callback (s.net.loc u).pc with _ | y <;> rcases hcb' : callback (n.loc u).pc with _ | z
    · rw [h.observed.stay (by rw [hcb, hcb'])]
    · obtain ⟨x, k⟩ := z
      have hout : s.pc u = .out := by
        have := hS.placed u
        unfold Placed at this
        simpa only [hcb] using this
      rw [h.observed.enter hcb x k hcb', hout]
      cases x <;> rfl
    · have hne : callback (s.net.loc u).pc ≠ none := by rw [hcb]; exact Option.some_ne_none y
      have hret := h.returns hne hcb'
      rw [h.observed.exit hne hcb']
      cases hp : s.pc u <;> rw [hp] at hret <;> first | rfl | exact absurd hret Bool.false_ne_true
    · rw [h.observed.stay (by rw [hcb, hcb']; simp)]
  · rw [(h.pc_other hut).2]

/-- A slot whose callbacks the thread leaves alone. -/
lemma netMove_enrolled_stay {s' : State τ} (h : NetMove s t n s' st st')
    (hk : Role.calls (pcRole k (n.loc t).pc) = Role.calls (pcRole k (s.net.loc t).pc)) :
    Enrolled s' k (st' k) ↔ Enrolled s k (st k) := by
  have hsame : ∀ u z, callback (n.loc u).pc = some (z, k) ↔ callback (s.net.loc u).pc = some (z, k) := by
    intro u z
    by_cases hut : u = t
    · subst hut
      exact ⟨fun hz => callback_of_calls (hk ▸ calls_of_callback hz),
        fun hz => callback_of_calls (hk.trans (calls_of_callback hz))⟩
    · rw [(h.pc_other hut).1]
  have hpc : ∀ u z, callback (s.net.loc u).pc = some (z, k) → s'.pc u = s.pc u := by
    intro u z hz
    by_cases hut : u = t
    · subst hut
      refine h.observed.stay ?_
      rw [hz, (hsame u z).mpr hz]
    · exact (h.pc_other hut).2
  rw [h.moved.stay hk]
  cases st k
  case joining =>
    refine exists_congr fun u => ?_
    rw [h.observed.net, hsame]
    exact and_congr_right fun hz => by rw [hpc u _ hz]
  case leaving =>
    refine exists_congr fun u => ?_
    rw [h.observed.net, hsame]
    exact and_congr_right fun hz => by rw [hpc u _ hz]
  all_goals exact Iff.rfl

/-- A slot of which it enters a callback. -/
lemma netMove_enrolled_enter {s' : State τ} (h : NetMove s t n s' st st')
    (hcb : Role.calls (pcRole k (s.net.loc t).pc) = none)
    (hcb' : Role.calls (pcRole k (n.loc t).pc) = some x) :
    Enrolled s' k (st' k) ↔ Enrolled s k (st k) := by
  have hc' := callback_of_calls hcb'
  have hout : callback (s.net.loc t).pc = none := by
    rcases hc : callback (s.net.loc t).pc with _ | y
    · rfl
    · rw [h.same y _ hc hc'] at hc
      exact absurd (hcb.symm.trans (calls_of_callback hc)) (Option.some_ne_none x).symm
  have hpc := h.observed.enter hout x k hc'
  have hafter := h.moved.after k
  rw [hcb, hcb'] at hafter
  have huniq : ∀ u y, callback (n.loc u).pc = some (y, k) → u = t :=
    fun u y hu => callback_unique (h.staged k) hc' hu
  cases x <;> cases hg : st k <;>
    simp only [hg, Stage.after, Stage.enter, Option.some.injEq, reduceCtorEq] at hafter
  case join.away =>
    rw [← hafter]
    refine ⟨?_, False.elim⟩
    rintro ⟨u, hu, hd⟩
    rw [h.observed.net] at hu
    rw [huniq u _ hu, hpc] at hd
    exact CbPc.noConfusion hd
  case recv.joined =>
    rw [← hafter]
    exact Iff.rfl
  case leave.joined =>
    rw [← hafter]
    refine ⟨fun _ => trivial, fun _ => ⟨t, by rw [h.observed.net]; exact hc', ?_⟩⟩
    rw [hpc]
    exact CbPc.noConfusion

/-- A slot of which it leaves a callback. -/
lemma netMove_enrolled_exit {s' : State τ} (h : NetMove s t n s' st st') (hS : Sound H s st)
    (hcb : Role.calls (pcRole k (s.net.loc t).pc) = some x)
    (hcb' : Role.calls (pcRole k (n.loc t).pc) = none) :
    Enrolled s' k (st' k) ↔ Enrolled s k (st k) := by
  have hc := callback_of_calls hcb
  have hout : callback (n.loc t).pc = none := by
    rcases hc' : callback (n.loc t).pc with _ | y
    · rfl
    · rw [← h.same _ y hc hc'] at hc'
      exact absurd (hcb'.symm.trans (calls_of_callback hc')) (Option.some_ne_none x).symm
  have hdone : x ≠ .recv → s.pc t = .done := fun hx => placed_returns (hS.placed t) hc hx
    (h.returns (by rw [hc]; exact Option.some_ne_none _) hout)
  have hafter := h.moved.after k
  rw [hcb, hcb'] at hafter
  have huniq : ∀ u y, callback (s.net.loc u).pc = some (y, k) → u = t :=
    fun u y hu => callback_unique (hS.staged k) hc hu
  cases x <;> cases hg : st k <;>
    simp only [hg, Stage.after, Stage.exit, Option.some.injEq, reduceCtorEq] at hafter
  case join.joining =>
    rw [← hafter]
    exact ⟨fun _ => ⟨t, hc, hdone Kind.noConfusion⟩, fun _ => trivial⟩
  case recv.receiving =>
    rw [← hafter]
    exact Iff.rfl
  case leave.leaving =>
    rw [← hafter]
    refine ⟨False.elim, ?_⟩
    rintro ⟨u, hu, hd⟩
    rw [huniq u _ hu] at hd
    exact hd (hdone Kind.noConfusion)

/-- Who has an entry keeps it, and nobody gets one. -/
lemma netMove_enrolled {s' : State τ} (h : NetMove s t n s' st st') (hS : Sound H s st) (k : ℕ) :
    Enrolled s' k (st' k) ↔ Enrolled s k (st k) := by
  rcases hcb : Role.calls (pcRole k (s.net.loc t).pc) with _ | x <;>
    rcases hcb' : Role.calls (pcRole k (n.loc t).pc) with _ | y
  · exact netMove_enrolled_stay h (hcb'.trans hcb.symm)
  · exact netMove_enrolled_enter h hcb hcb'
  · exact netMove_enrolled_exit h hS hcb hcb'
  · have hy := h.same _ _ (callback_of_calls hcb) (callback_of_calls hcb')
    refine netMove_enrolled_stay h ?_
    rw [hcb, hcb', (Prod.mk.inj hy).1]

lemma netMove_entries {s' : State τ} (h : NetMove s t n s' st st') (hS : Sound H s st) (id : SessionID) :
    Current n id ∧ Enrolled s' (slotOf id) (st' (slotOf id)) ↔
      Current s.net id ∧ Enrolled s (slotOf id) (st (slotOf id)) := by
  rw [netMove_enrolled h hS]
  by_cases hg : st (slotOf id) = .away
  · simp [hg, Enrolled]
  · rw [h.moved.current (.inl hg) id rfl]

lemma netMove_log {s' : State τ} (h : NetMove s t n s' st st') (hS : Sound H s st)
    (hlog : s'.log = (observe s t n).log)
    (hcur : ∀ x k, callback (s.net.loc t).pc = some (x, k) ∨ callback (n.loc t).pc = some (x, k) →
      (s.net.mem.hist k).ever = true ∧ slotOf (s.net.mem.sess k).sessionID = k) (id : SessionID) :
    follow id s'.log = some (stageOf n st' id) := by
  rw [hlog, follow_observe (fun x k hx => (hcur x k (.inl hx)).2) (fun x k hx => (hcur x k (.inr hx)).2)
    h.same, hS.log, Option.bind_some]
  rcases h.moved.names (slotOf id) with ⟨h1, h2⟩ | ⟨h1, h2, h3⟩
  · have hiff : Current n id ↔ Current s.net id := by
      unfold Current
      rw [h1, h2]
    by_cases hid : (s.net.mem.sess (slotOf id)).sessionID = id
    · rw [if_pos hid]
      by_cases hev : (s.net.mem.hist (slotOf id)).ever = true
      · have hc : Current s.net id := ⟨hev, hid⟩
        rw [stageOf, stageOf, if_pos hc, if_pos (hiff.mpr hc)]
        exact h.moved.after _
      · have hc : ¬Current s.net id := fun hc => hev hc.1
        rw [stageOf, stageOf, if_neg hc, if_neg (mt hiff.mp hc)]
        have hno : ∀ c : Config τ, (∀ x, callback (c.loc t).pc ≠ some (x, slotOf id)) →
            Role.calls (pcRole (slotOf id) (c.loc t).pc) = none := by
          intro c hx
          rcases hr : Role.calls (pcRole (slotOf id) (c.loc t).pc) with _ | x
          · rfl
          · exact absurd (callback_of_calls hr) (hx x)
        rw [hno s.net fun x hx => hev (hcur x _ (.inl hx)).1, hno n fun x hx => hev (hcur x _ (.inr hx)).1]
        rfl
    · rw [if_neg hid, stageOf, stageOf, if_neg fun hc => hid hc.2,
        if_neg fun hc => hid (hiff.mp hc).2]
  · have hst' := h.moved.away h1 h2 h3
    have haway : ∀ c : Config τ, ∀ f : ℕ → Stage, f (slotOf id) = .away → stageOf c f id = .away := by
      intro c f hf
      unfold stageOf
      split
      · exact hf
      · rfl
    rw [haway _ _ h1, haway _ _ hst', h2, h3]
    split <;> rfl

/-- An id that is issued is the one that `OnClientJoin` is called with. -/
lemma netMove_joins {s' : State τ} (h : NetMove s t n s' st st') (hS : Sound H s st)
    (hlog : s'.log = (observe s t n).log)
    (hcur : ∀ x k, callback (s.net.loc t).pc = some (x, k) ∨ callback (n.loc t).pc = some (x, k) →
      (s.net.mem.hist k).ever = true ∧ slotOf (s.net.mem.sess k).sessionID = k) (id : SessionID) :
    joins id s'.log = (view n.mem (slotOf id)).issued.count id := by
  have hkeep : (∀ k, callback (s.net.loc t).pc = none → callback (n.loc t).pc ≠ some (.join, k)) →
      (view n.mem (slotOf id)).issued = (view s.net.mem (slotOf id)).issued := by
    intro hno
    rcases h.moved.issued (slotOf id) with ⟨h1, h2, -⟩ | ⟨hi, -⟩
    · have hc' := callback_of_calls h2
      rcases hc : callback (s.net.loc t).pc with _ | y
      · exact absurd hc' (hno _ hc)
      · rw [h.same y _ hc hc'] at hc
        exact absurd (h1.symm.trans (calls_of_callback hc)) (Option.some_ne_none _).symm
    · exact hi
  rw [hlog]
  unfold observe
  split
  case h_1 x k hc hc' =>
    obtain ⟨-, hk⟩ := hcur x k (.inr hc')
    have hold := hS.joins id
    unfold joins at hold ⊢
    dsimp only
    rw [List.count_append, hold, List.count_singleton]
    have hcalls : Role.calls (pcRole k (s.net.loc t).pc) = none := by rw [calls_pcRole, hc]; rfl
    by_cases hx : x = .join
    · subst hx
      by_cases hid : (s.net.mem.sess k).sessionID = id
      · subst hid
        rw [hk]
        rcases h.moved.issued k with ⟨-, -, hi⟩ | ⟨-, hi⟩
        · rw [hi]
          simp
        · exact absurd (hcalls.symm.trans (hi (calls_of_callback hc'))) (Option.some_ne_none _).symm
      · have hne : ((⟨(s.net.mem.sess k).sessionID, .join, true⟩ : Event) == ⟨id, .join, true⟩) = false := by
          simp [hid]
        rw [hne]
        rcases h.moved.issued (slotOf id) with ⟨-, h2, hi⟩ | ⟨hi, -⟩
        · have hc2 := callback_of_calls h2
          obtain ⟨-, rfl⟩ := Prod.mk.inj (Option.some.inj (hc'.symm.trans hc2))
          rw [hi, List.count_cons_of_ne hid]
          rfl
        · rw [hi]
          rfl
    · have hne : ((⟨(s.net.mem.sess k).sessionID, x, true⟩ : Event) == ⟨id, .join, true⟩) = false := by
        simp [hx]
      rw [hne, hkeep fun j _ hj => hx (Prod.mk.inj (Option.some.inj (hc'.symm.trans hj))).1]
      rfl
  case h_2 x k hc hc' =>
    have hold := hS.joins id
    unfold joins at hold ⊢
    dsimp only
    rw [List.count_append, hold, List.count_singleton, hkeep fun j hj _ => ?_]
    · simp
    · exact absurd (hj.symm.trans hc) (Option.some_ne_none _).symm
  case h_3 hno hno' =>
    rw [hkeep fun j hj => hno _ _ hj]
    exact hS.joins id

lemma sound_net {s' : State τ} (h : NetMove s t n s' st st') (hS : Sound H s st)
    (hlog : s'.log = (observe s t n).log)
    (hcur : ∀ x k, callback (s.net.loc t).pc = some (x, k) ∨ callback (n.loc t).pc = some (x, k) →
      (s.net.mem.hist k).ever = true ∧ slotOf (s.net.mem.sess k).sessionID = k) : Sound H s' st' := by
  have hnet := h.observed.net
  refine ⟨hnet ▸ h.staged, fun id => ?_, fun id => ?_, netMove_placed h hS, ?_, fun id => ?_, ?_,
    fun p => ?_, ?_⟩
  · rw [netMove_log h hS hlog hcur, hnet]
  · rw [netMove_joins h hS hlog hcur, hnet]
  · rw [h.observed.characterMap]
    exact hS.keys
  · rw [h.observed.characterMap, hnet, netMove_entries h hS]
    exact hS.entries id
  · rw [h.observed.characterMap, h.observed.sid]
    exact hS.sid
  · rw [h.observed.held, h.observed.characterMap, hS.held,
      Finset.sum_congr rfl fun u _ => netMove_inserts h hS p u]
  · rw [h.observed.held]
    exact hS.nodup

end LoginServerChat.CallbackRun
