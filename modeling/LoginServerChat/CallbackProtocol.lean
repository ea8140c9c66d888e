import LoginServerChat.CallbackCode

/-!
The callback protocol in every run of `LoginServer` within one `Start`, for any number of workers:
the order of the callbacks of a session, the entries of `characterMap`, and the `Character`s that
`poolManager` has handed out.
-/

namespace LoginServerChat.CallbackProtocol

open NetPacket NetState NetStep SlotStep SlotView SlotRun SlotRefs SlotPhase SlotLive SlotRelease
  SlotJoin SlotSend SendPath SlotRecv OwnCalls Contents CallbackStage StaleIds Callbacks CallbackRun
  CallbackCode Runs

variable {τ : Type*} [DecidableEq τ] [Fintype τ] {b : Boot} {a : τ} {w : τ → Bool} {sid : ℕ → SessionID}
  {s s' : State τ} {t : τ} {ch : Choice} {k : ℕ} {n : Config τ} {st : ℕ → Stage} {x : Kind} {H : List ℕ}

omit [DecidableEq τ] [Fintype τ] in
lemma handled_of_callback (h : callback (s.net.loc t).pc = some (.recv, k)) :
    handled s.net.mem (s.net.loc t) = some (idAt s k) := by
  unfold callback at h
  split at h
  case h_2 i p hp =>
    obtain ⟨-, rfl⟩ := Prod.mk.inj (Option.some.inj h)
    unfold handled
    rw [hp]
    rfl
  all_goals cases h

omit [DecidableEq τ] in
/-- The `Character` in hand carries the id of the session that is handled. -/
lemma admits_owns (hS : Sound H s st) (h : admits s t ch = true) :
    ownCall s.net.mem (s.net.loc t) ch := by
  have hcall : ∀ id id' p, s.pc t = .handle id' p → id = s.sid p →
      handled s.net.mem (s.net.loc t) = some id := by
    intro id id' p hp hid
    obtain ⟨k, hc, rfl, hm⟩ := placed_found (hS.placed t) (.inr hp)
    rw [hid, hS.sid _ hm]
    exact handled_of_callback hc
  unfold admits at h
  split at h
  case h_2 =>
    split at h
    case h_1 hp => exact hcall _ _ _ hp (of_decide_eq_true h)
    case h_2 => exact absurd h Bool.false_ne_true
  case h_3 =>
    split at h
    case h_1 hp => exact hcall _ _ _ hp (of_decide_eq_true h)
    case h_2 hp => exact absurd hp (placed_missing (hS.placed t))
    case h_3 => exact absurd h Bool.false_ne_true
  case h_1 => trivial
  case h_4 _ hs hd =>
    cases ch
    case sendPacket => exact absurd rfl (hs _ _)
    case disconnect => exact absurd rfl (hd _)
    all_goals trivial

/-- A step of a thread, and what becomes of the stages. -/
lemma sound_run (hr : Reach step owns (boot b a w) s.net) (hS : Sound H s st)
    (ha : admits s t ch = true) (h : step s.net (.run t ch) = some n) :
    ∃ st', Sound H (observe s t n) st' := by
  have hr₁ := (reach_owns hr).1
  have hr₂ := (reach_owns (Reach.step (a := .run t ch) hr (admits_owns hS ha) h)).1
  obtain ⟨st', hmoved, hstaged⟩ := run_moved hr₁ h hS.staged
  have hl : ∀ y, callback (s.net.loc t).pc = some y →
      (n.loc t).pc = (s.net.loc t).pc ∨ ch = .ret ∧ callback (n.loc t).pc = none := by
    rintro ⟨y, i⟩ hy
    simp only [step, Option.map_eq_some_iff] at h
    obtain ⟨⟨m', l'⟩, h, rfl⟩ := h
    dsimp only
    rw [Function.update_self]
    exact lstep_callback hy h
  have hN : NetMove s t n (observe s t n) st st' := by
    refine ⟨hmoved, hstaged, observe_observed s t n, fun y z hy hz => ?_, fun hy hz => ?_⟩
    · rcases hl y hy with hpc | ⟨-, hpc⟩
      · rw [hpc, hy] at hz
        exact Option.some.inj hz
      · exact absurd (hpc.symm.trans hz) (Option.some_ne_none _).symm
    · obtain ⟨y, hy⟩ := Option.ne_none_iff_exists'.mp hy
      rcases hl y hy with hpc | ⟨rfl, -⟩
      · rw [hpc, hy] at hz
        exact absurd hz (Option.some_ne_none _)
      · exact ha
  refine ⟨st', sound_net hN hS rfl fun x k hx => ?_⟩
  rcases hx with hx | hx
  · exact callback_current hr₁ hx
  · obtain ⟨h1, h2⟩ := hN.names (.inr hx) hS.staged
    have := callback_current hr₂ hx
    rw [h1, h2] at this
    exact this

omit [DecidableEq τ] in
/-- What happens between the threads leaves them in their callbacks. -/
lemma sound_quiet (hS : Sound H s st) (hpc : ∀ u, (n.loc u).pc = (s.net.loc u).pc)
    (hsess : n.mem.sess = s.net.mem.sess) (hhist : n.mem.hist = s.net.mem.hist)
    (hissued : n.mem.issued = s.net.mem.issued) : Sound H { s with net := n } st := by
  have hcur : ∀ id, Current n id ↔ Current s.net id := by
    intro id
    unfold Current
    rw [hsess, hhist]
  have henr : ∀ k g, Enrolled { s with net := n } k g ↔ Enrolled s k g := by
    intro k g
    cases g <;> simp only [Enrolled, hpc]
  refine ⟨fun k => ?_, fun id => ?_, fun id => ?_, fun u => ?_, hS.keys, fun id => ?_, hS.sid, hS.held,
    hS.nodup⟩
  · have hk := hS.staged k
    have hrole : ∀ u, ((slot n k).L u).role = ((slot s.net k).L u).role :=
      fun u => congrArg (pcRole k) (hpc u)
    have hV : (slot n k).V.h = (slot s.net k).V.h := congrFun hhist k
    refine ⟨fun x => ?_, ?_, ?_⟩
    · have hx := hk.calls x
      simp only [LV.calls, hrole] at hx ⊢
      exact hx
    · have hx := hk.away
      simp only [LV.pushes, hrole, hV] at hx ⊢
      exact hx
    · rw [hV]
      exact hk.rel
  · have hst : stageOf n st id = stageOf s.net st id := by
      unfold stageOf
      exact if_congr (hcur id) rfl rfl
    exact (hS.log id).trans (congrArg some hst.symm)
  · rw [hS.joins]
    unfold view
    dsimp only
    rw [hissued]
  · have hP := hS.placed u
    unfold Placed idAt at hP ⊢
    simp only [hpc, hsess]
    exact hP
  · rw [henr, hcur]
    exact hS.entries id

lemma start_sound (hH : H.Nodup) : Sound H (start (boot b a w) [] sid H) fun _ => .away := by
  refine ⟨fun k => ?_, fun id => ?_, fun id => rfl, fun u => ?_, List.nodup_nil, fun id => ?_, nofun,
    fun p => ?_, hH⟩
  · have hF := fresh_boot b a w k
    change Staged (slot (boot b a w) k).V (fun x => ∑ t, LV.calls x ((slot (boot b a w) k).L t))
      (∑ t, LV.pushes ((slot (boot b a w) k).L t)) .away
    have h1 : ∀ x, ∑ t, LV.calls x ((slot (boot b a w) k).L t) = 0 :=
      fun x => Finset.sum_eq_zero fun t _ => by rw [hF.idle t]; rfl
    refine ⟨fun x => by rw [h1]; rfl, ⟨fun _ => .inl rfl, fun _ => rfl⟩, nofun⟩
  · unfold stageOf
    split <;> rfl
  · have hF : callback ((boot b a w).loc u).pc = none := by
      unfold boot
      dsimp only
      split
      · rfl
      · split <;> rfl
    unfold Placed
    simp only [start, hF]
  · simp [start, Enrolled]
  · simp [start, CbPc.inserts]

/-- What every run keeps. -/
theorem reach_sound (hH : H.Nodup)
    (h : Reach cstep (fun _ _ => True) (start (boot b a w) [] sid H) s) :
    Reach step owns (boot b a w) s.net ∧ ∃ st, Sound H s st := by
  induction h with
  | init => exact ⟨.init, _, start_sound hH⟩
  | @step s s' x _ _ hs ih =>
    obtain ⟨hr, st, hS⟩ := ih
    cases x with
    | net x =>
      cases x with
      | run t ch =>
        simp only [cstep, Option.ite_none_right_eq_some, Option.map_eq_some_iff] at hs
        obtain ⟨ha, n, hn, rfl⟩ := hs
        have hnet : (observe s t n).net = n := (observe_observed s t n).net
        refine ⟨?_, sound_run hr hS ha hn⟩
        rw [hnet]
        exact Reach.step (a := .run t ch) hr (admits_owns hS ha) hn
      | complete io m d =>
        simp only [cstep, Option.map_eq_some_iff] at hs
        obtain ⟨n, hn, rfl⟩ := hs
        refine ⟨Reach.step (a := .complete io m d) hr trivial hn, st, ?_⟩
        simp only [step] at hn
        split at hn <;> simp only [Option.some.injEq, reduceCtorEq] at hn
        subst hn
        exact sound_quiet hS (fun _ => rfl) rfl rfl rfl
      | give t u p =>
        simp only [cstep, Option.map_eq_some_iff] at hs
        obtain ⟨n, hn, rfl⟩ := hs
        refine ⟨Reach.step (a := .give t u p) hr trivial hn, st, ?_⟩
        simp only [step] at hn
        split at hn <;> simp only [Option.some.injEq, reduceCtorEq] at hn
        subst hn
        refine sound_quiet hS (fun v => ?_) rfl rfl rfl
        by_cases hvu : v = u
        · subst hvu
          simp
        · by_cases hvt : v = t
          · subst hvt
            simp [hvu]
          · simp [hvu, hvt]
    | code t q =>
      refine ⟨?_, st, sound_code hS (fun _ _ _ => callback_current (reach_owns hr).1) hs⟩
      rw [codeStep_net hs]
      exact hr

/-! ### The protocol -/

def layer (l : List (Act (Fin 4))) : List (Move (Fin 4)) := l.map .net

/-- A client is accepted. -/
def firstAccept : List (Act (Fin 4)) :=
  [.run 0 (.sock (some 0x1A4)), .run 0 .tick, .run 0 (.ans true)] ++ ticks 0 11 ++
    [.run 0 (.ans true), .run 0 .tick]

end LoginServerChat.CallbackProtocol
