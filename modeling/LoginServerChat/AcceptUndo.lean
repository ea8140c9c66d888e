import LoginServerChat.AcceptSocks

/-!
One iteration of `AcceptThread`, from `accept` until the thread is back or has returned and what it has
started is over: whether a call that fails in it leaves the server as it was.
-/

namespace LoginServerChat.AcceptUndo

open NetPacket NetState NetStep SlotStep SlotView SlotRun SlotRefs SlotPhase SlotLive SlotRelease
  SlotJoin SlotSock AcceptBooks FreeStack AcceptSocks Runs

/-! ### The callbacks of a slot -/

/-- The step of a thread is a call of `OnClientJoin` for the slot. -/
def LV.joins (l l' : LV) : ℕ :=
  match l.role, l'.role with
  | .acc (.join _), .acc (.joining _) => 1
  | _, _ => 0

/-- The step of a thread is a call of `OnClientLeave` for the slot. -/
def LV.leaves (l l' : LV) : ℕ :=
  match l.role, l'.role with
  | .rel .leave, .rel .leaving => 1
  | _, _ => 0

/-- The thread is in `ReleaseSession` and is going to call `OnClientLeave`. -/
def LV.toLeave (l : LV) : ℕ :=
  match l.role with
  | .rel .drain | .rel (.drainFree _) | .rel .readCnt | .rel (.freeArr _ _) | .rel .close | .rel .leave => 1
  | _ => 0

/-- The session has been announced and is not being released. -/
def View.announced (V : View) : ℕ := if V.h.phase = .live ∧ V.h.joined = true then 1 else 0

section Slots

variable {k : ℕ} {e : Ev} {V V' : View} {l l' : LV}

lemma announced_of_ne (h : V.h.phase ≠ .live) : View.announced V = 0 := if_neg fun hl => h hl.1

lemma announced_of_not (h : V.h.joined = false) : View.announced V = 0 :=
  if_neg fun hl => Bool.false_ne_true (h.symm.trans hl.2)

lemma joins_same (h : l'.role = l.role) : LV.joins l l' = 0 := by
  unfold LV.joins
  split
  next h1 h2 => exact nomatch h1.symm.trans (h.symm.trans h2)
  next => rfl

lemma leaves_same (h : l'.role = l.role) : LV.leaves l l' = 0 := by
  unfold LV.leaves
  split
  next h1 h2 => exact nomatch h1.symm.trans (h.symm.trans h2)
  next => rfl

/-- What is owed to the contents before and after a step: `OnClientJoin` makes a session one that
`OnClientLeave` is to be called for. -/
def Owed (V V' : View) (l l' : LV) : Prop :=
  View.announced V' + LV.toLeave l' + LV.leaves l l' = View.announced V + LV.toLeave l + LV.joins l l'

lemma owed_same (hV : View.announced V' = View.announced V) (h : l'.role = l.role) : Owed V V' l l' := by
  unfold Owed LV.toLeave
  rw [hV, joins_same h, leaves_same h, h]

lemma sstep_owed (h : SStep k e V l V' l') (hA : SoundAt V l) (hu : 0 < LV.unmet l → V.h.joined = false)
    (hc : V.h.phase = .live → V.s.ioCount = 0 → V.h.joined = true) : Owed V V' l l' := by
  cases h
  case initReleaseFlag =>
    have hj := hu Nat.one_pos
    have h1 : View.announced V = 0 := announced_of_not hj
    exact (congrArg (· + 0 + 0) (announced_of_not (by exact hj))).trans (congrArg (· + 0 + 0) h1.symm)
  case join =>
    have h1 : View.announced V = 0 := announced_of_not (hu Nat.one_pos)
    have h2 : V.h.phase = .live := hA.live Nat.one_pos
    exact (congrArg (· + 0 + 0) (if_pos ⟨h2, rfl⟩)).trans (congrArg (· + 0 + 1) h1.symm)
  case cas h0 hf =>
    have hp := hA.of_flag (.inr trivial) hf
    have h1 : View.announced V = 1 := if_pos ⟨hp, hc hp h0⟩
    exact (congrArg (· + 1 + 0) (announced_of_ne (by nofun))).trans (congrArg (· + 0 + 0) h1.symm)
  case pop hst =>
    have hp := hA.stack (by omega)
    have h1 : View.announced V = 0 := announced_of_ne (by rw [hp]; exact nofun)
    exact (congrArg (· + 0 + 0) (announced_of_ne (by nofun))).trans (congrArg (· + 0 + 0) h1.symm)
  case push =>
    have hp := hA.rel Nat.one_pos
    have h1 : View.announced V = 0 := announced_of_ne (by rw [hp]; exact nofun)
    exact (congrArg (· + 0 + 0) (announced_of_ne (by nofun))).trans (congrArg (· + 0 + 0) h1.symm)
  case relWalk p p' hw =>
    cases p <;> cases p' <;> first
      | exact hw.elim
      | rfl
  case chkID c _ => cases c <;> exact owed_same rfl rfl
  case entryPass j _ _ => cases j <;> rfl
  case entrySkip j _ _ => cases j <;> rfl
  all_goals first
    | rfl
    | exact owed_same rfl rfl

lemma sstep_acc (h : SStep k e V l V' l') (hp : LV.preparing l') : LV.preparing l ∨ 0 < V.stack := by
  obtain ⟨p, hp⟩ := hp
  cases h
  case pop hst => exact .inr (by omega)
  case entryPass j _ _ => cases j <;> exact nomatch hp
  all_goals first
    | exact .inl ⟨_, rfl⟩
    | exact .inl ⟨p, hp⟩
    | exact nomatch hp

/-- The accept thread that has returned is where it was, and has come there from `CreateIoCompletionPort`. -/
lemma sstep_stop (h : SStep k e V l V' l') : (l.role = .acc .stop → l'.role = .acc .stop) ∧
    (l'.role = .acc .stop → l.role = .acc .stop ∨ ∃ s, l.role = .acc (.assoc s)) := by
  cases h
  case assocFail s => exact ⟨fun _ => rfl, fun _ => .inr ⟨s, rfl⟩⟩
  case entryPass j _ _ => cases j <;> exact ⟨nofun, nofun⟩
  all_goals first
    | exact ⟨id, .inl⟩
    | exact ⟨nofun, nofun⟩

end Slots

section Slots

variable {τ : Type*} [DecidableEq τ] [Fintype τ] {k : ℕ} {e : Ev} {S S' : Slot τ}

/-- The calls of `OnClientLeave` that are to come. -/
def pending (S : Slot τ) : ℕ := View.announced S.V + ∑ t, LV.toLeave (S.L t)

lemma sum_update {f : LV → LV → ℕ} (hf : ∀ l, f l l = 0) (L : τ → LV) (t : τ) (l' : LV) :
    ∑ u, f (L u) (Function.update L t l' u) = f (L t) l' := by
  rw [Finset.sum_eq_single t]
  · rw [Function.update_self]
  · intro u _ hu
    rw [Function.update_of_ne hu, hf]
  · exact fun ht => absurd (Finset.mem_univ t) ht

lemma next_owed (h : Next k e S S') (hA : ∀ t, SoundAt S.V (S.L t))
    (hu : ∀ t, 0 < LV.unmet (S.L t) → S.V.h.joined = false)
    (hc : S.V.h.phase = .live → S.V.s.ioCount = 0 → S.V.h.joined = true) :
    pending S' + ∑ t, LV.leaves (S.L t) (S'.L t) = pending S + ∑ t, LV.joins (S.L t) (S'.L t) := by
  cases h with
  | complete =>
    rw [Finset.sum_eq_zero fun t _ => leaves_same rfl, Finset.sum_eq_zero fun t _ => joins_same rfl]
    rfl
  | @thread e V L V' l' t hs =>
    have ho := sstep_owed hs (hA t) (hu t) hc
    obtain ⟨r, h1, h2⟩ := sum_split LV.toLeave L t
    have hl := sum_update (fun l => leaves_same rfl) L t l'
    have hj := sum_update (fun l => joins_same rfl) L t l'
    unfold Owed at ho
    simp only [pending, h1, h2, hl, hj]
    omega

end Slots

/-! ### The iteration -/

/-- The calls in an iteration that can fail. -/
inductive Failure
  | userLimit
  | onConnectionRequest
  | createIoCompletionPort
  | wsaRecv
  deriving DecidableEq

/-- The failure that a step of the accept thread shows. -/
def failure : Pc → Pc → List Failure
  | .acc (.full _), .acc (.refuse _) => [.userLimit]
  | .acc (.request _), .acc (.refuse _) => [.onConnectionRequest]
  | .accOn _ (.assoc _), .accOn _ .stop => [.createIoCompletionPort]
  | .accOn _ (.recv _), .accOn _ .fail => [.wsaRecv]
  | _, _ => []

/-- The calls of `OnClientJoin` and `OnClientLeave` for each slot, and the failures. -/
structure Tally where
  joins : ℕ → ℕ
  leaves : ℕ → ℕ
  failures : List Failure

section Iteration

variable {τ : Type*} [DecidableEq τ] [Fintype τ]

def Tally.step (a : τ) (n : Tally) (c c' : Config τ) : Tally where
  joins k := n.joins k + ∑ t, LV.joins (lview (c.loc t) k) (lview (c'.loc t) k)
  leaves k := n.leaves k + ∑ t, LV.leaves (lview (c.loc t) k) (lview (c'.loc t) k)
  failures := n.failures ++ failure (c.loc a).pc (c'.loc a).pc

/-- The states since `accept` has returned a socket, as long as the accept thread does not accept again and
no session of before is released, and what has been called. -/
inductive During (ok : Config τ → Act τ → Prop) (a : τ) (c₀ : Config τ) (h : Sock) :
    Config τ → Tally → Prop
  | accept {c : Config τ} : (c₀.loc a).pc = .acc .accept → ok c₀ (.run a (.sock (some h))) →
      NetStep.step c₀ (.run a (.sock (some h))) = some c → During ok a c₀ h c ⟨fun _ => 0, fun _ => 0, []⟩
  | act {c c' : Config τ} {n : Tally} {x : Act τ} : During ok a c₀ h c n → ok c x →
      (∀ s, x ≠ .run a (.sock s)) → NetStep.step c x = some c' →
      (∀ k, (c₀.mem.hist k).phase = .live → (c'.mem.hist k).phase = .live) →
      During ok a c₀ h c' (n.step a c c')

/-- The thread is in the body of `ReleaseSession`. -/
def Leaving (pc : Pc) : Prop := ∃ i p x, pc = .rel i p x ∧ p ≠ .cas

/-- Nothing is going on for the slot: no thread is there but an accept thread that has returned, and no
job and no operation. -/
structure AtRest (c : Config τ) (k : ℕ) : Prop where
  idle : ∀ t, lview (c.loc t) k = ⟨.none, none⟩ ∨ lview (c.loc t) k = ⟨.acc .stop, none⟩
  jobs : (view c.mem k).jobs = []
  ios : (view c.mem k).ios = []

/-- The iteration is over: the thread is back at `accept` or has returned, no release is going on, and
nothing is for a slot that was free before and is not now. -/
structure Over (a : τ) (c₀ c : Config τ) : Prop where
  back : (c.loc a).pc = .acc .accept ∨ ∃ i, (c.loc a).pc = .accOn i .stop
  released : ∀ t, ¬Leaving (c.loc t).pc
  rest : ∀ k, (c₀.mem.hist k).phase = .free → (c.mem.hist k).phase ≠ .free → AtRest c k

/-- The iteration has left no trace: the counter, the free indices and the occupied slots are as before,
the client's socket is closed, and for each slot `OnClientLeave` has been called as often as
`OnClientJoin`. -/
structure Undone (c₀ c : Config τ) (h : Sock) (n : Tally) : Prop where
  nowSession : c.mem.nowSession = c₀.mem.nowSession
  free : ∀ k, k ∈ c.mem.freeStack ↔ k ∈ c₀.mem.freeStack
  occupied : ∀ k, (c.mem.hist k).phase = .free ↔ (c₀.mem.hist k).phase = .free
  closed : h ∉ c.mem.socks
  calls : ∀ k, n.joins k = n.leaves k

/-! ### What holds during it -/

variable {b : Boot} {a : τ} {w : τ → Bool} {c c' c₀ : Config τ} {bad : List Ev} {k : ℕ} {h : Sock} {n : Tally}
  {ok : Config τ → Act τ → Prop}

lemma During.reach (hd : During ok a c₀ h c n) (hr : Reach step ok (boot b a w) c₀) :
    Reach step ok (boot b a w) c := by
  induction hd with
  | accept _ hok hs => exact .step hr hok hs
  | act _ hok _ hs _ ih => exact .step ih hok hs

omit [Fintype τ] in
/-- `accept` changes no slot. -/
lemma accept_step (hp : (c.loc a).pc = .acc .accept) (hs : step c (.run a (.sock (some h))) = some c') :
    (c'.loc a).pc = .acc (.full h) ∧ c'.mem = { c.mem with socks := h :: c.mem.socks } ∧
      (∀ t ≠ a, c'.loc t = c.loc t) ∧ ∀ k, slot c' k = slot c k := by
  simp only [step, Option.map_eq_some_iff] at hs
  obtain ⟨⟨m', l'⟩, hl, rfl⟩ := hs
  unfold lstep at hl
  split at hl
  · cases hl
  · split at hl
    · rename_i p _
      cases p <;> cases hl
    · rename_i ha
      rw [hp] at hl
      simp only [acceptStep, Option.ite_none_right_eq_some, Option.some.injEq, Prod.mk.injEq] at hl
      obtain ⟨-, rfl, rfl⟩ := hl
      refine ⟨congrArg Local.pc (Function.update_self a _ c.loc), rfl,
        fun t ht => Function.update_of_ne ht _ _, fun k => ?_⟩
      rw [slot_update, lview_goto ha]
      have hv : (slot c k).L a = ⟨.none, none⟩ := by
        change lview (c.loc a) k = _
        rw [lview_pc ha hp]
        rfl
      rw [show pcRole k (.acc (.full h)) = .none from rfl, ← hv, Function.update_eq_self]
      rfl

omit [DecidableEq τ] [Fintype τ] in
lemma pc_of_outside {l : Local} (ho : Stand.outside (stand l)) :
    (∀ p, l.pc ≠ .acc p) ∧ ∀ i p, l.pc ≠ .accOn i p := by
  refine ⟨fun p hp => ?_, fun i p hp => ?_⟩
  · unfold stand at ho
    rw [hp] at ho
    cases p <;> exact ho.elim nofun nofun
  · unfold stand at ho
    rw [hp] at ho
    rcases p with ⟨_, p⟩ | _ | _ | _ | _ | _ | _ | _ | _
    · cases p <;> exact ho.elim nofun nofun
    all_goals exact ho.elim nofun nofun

/-- Only the accept thread accepts. -/
lemma reach_outside (hr : Reach step ok (boot b a w) c) {t : τ} (ht : t ≠ a) :
    (∀ p, (c.loc t).pc ≠ .acc p) ∧ ∀ i p, (c.loc t).pc ≠ .accOn i p :=
  pc_of_outside ((reach_balanced hr).outside t ht)

lemma role_acc {l : Local} {p : AccOn} (h : (lview l k).role = .acc p) : l.pc = .accOn k p := by
  change pcRole k l.pc = .acc p at h
  rcases hp : l.pc with _ | _ | ⟨i, q⟩ | _ | ⟨i, q⟩ | ⟨i, q, x⟩
  all_goals
    rw [hp] at h
    simp only [pcRole, reduceCtorEq] at h
  case accOn =>
    split_ifs at h with hi
    rw [hi, Role.acc.inj h]
  all_goals split_ifs at h

lemma role_rel {l : Local} {p : RelPc} (h : (lview l k).role = .rel p) : ∃ x, l.pc = .rel k p x := by
  change pcRole k l.pc = .rel p at h
  rcases hp : l.pc with _ | _ | ⟨i, q⟩ | _ | ⟨i, q⟩ | ⟨i, q, x⟩
  all_goals
    rw [hp] at h
    simp only [pcRole, reduceCtorEq] at h
  case rel =>
    split_ifs at h with hi
    exact ⟨x, by rw [hi, Role.rel.inj h]⟩
  all_goals split_ifs at h

lemma preparing_of_inits {l : LV} (h : 0 < LV.inits l) : LV.preparing l := by
  unfold LV.inits at h
  split at h
  case h_6 => exact absurd h (Nat.lt_irrefl 0)
  all_goals exact ⟨_, ‹_›⟩

lemma leaving_of_releases {l : Local} (h : 0 < LV.releases (lview l k)) : Leaving l.pc := by
  unfold LV.releases at h
  split at h
  case h_3 p hne _ hp =>
    obtain ⟨x, hx⟩ := role_rel hp
    exact ⟨k, _, x, hx, hne⟩
  all_goals exact absurd h (Nat.lt_irrefl 0)

omit [DecidableEq τ] in
lemma exists_of_sum {f : τ → ℕ} (h : 0 < ∑ t, f t) : ∃ t, 0 < f t := by
  by_contra hn
  refine absurd h (Nat.not_lt.mpr (Nat.le_of_eq (Finset.sum_eq_zero fun t _ => ?_)))
  exact Nat.eq_zero_of_not_pos fun ht => hn ⟨t, ht⟩

/-- Between two iterations, and with no release in progress, a slot is free or its session is live. -/
lemma settled (hr : Reach step ok (boot b a w) c) (hb : (c.loc a).pc = .acc .accept)
    (hs : ∀ t, ¬Leaving (c.loc t).pc) (k : ℕ) : (c.mem.hist k).phase = .free ∨ (c.mem.hist k).phase = .live := by
  have hP := reach_phased (k := k) hr
  have hi := hP.inits
  have hl := hP.releases
  change _ = if (c.mem.hist k).phase = .init then 1 else 0 at hi
  change _ = if (c.mem.hist k).phase = .rel then 1 else 0 at hl
  cases hph : (c.mem.hist k).phase
  case free => exact .inl rfl
  case live => exact .inr rfl
  case init =>
    rw [hph, if_pos rfl] at hi
    obtain ⟨t, ht⟩ := exists_of_sum (hi.symm ▸ Nat.one_pos)
    obtain ⟨p, hp⟩ := preparing_of_inits ht
    by_cases hta : t = a
    · rw [hta] at hp
      exact nomatch hb.symm.trans (role_acc hp)
    · exact absurd (role_acc hp) ((reach_outside hr hta).2 k p)
  case rel =>
    rw [hph, if_pos rfl] at hl
    obtain ⟨t, ht⟩ := exists_of_sum (hl.symm ▸ Nat.one_pos)
    exact absurd (leaving_of_releases ht) (hs t)

/-- What holds during an iteration. -/
structure Inside (a : τ) (c₀ c : Config τ) (h : Sock) (n : Tally) : Prop where
  old : ∀ k, (c₀.mem.hist k).phase = .live → (c.mem.hist k).phase = .live
  away : ∀ k, (c₀.mem.hist k).phase = .live → ∀ t, ¬LV.preparing ((slot c k).L t)
  quiet : ∀ k, (c₀.mem.hist k).phase = .live → n.joins k = 0 ∧ n.leaves k = 0
  owed : ∀ k, (c₀.mem.hist k).phase = .free → n.joins k = n.leaves k + pending (slot c k)
  socket : h ∈ c.mem.socks → (∃ t, hand (c.loc t).pc = some h) ∨
    ∃ k, (c₀.mem.hist k).phase = .free ∧ ∃ t, Keeps (slot c k).V ((slot c k).L t) h
  port : .createIoCompletionPort ∈ n.failures ↔ ∃ i, (c.loc a).pc = .accOn i .stop

omit [DecidableEq τ] in
lemma pending_free {S : Slot τ} (hP : SlotPhased S) (h : S.V.h.phase = .free) : pending S = 0 := by
  have hz : ∑ t, LV.releases (S.L t) = 0 := by
    rw [hP.releases, h]
    rfl
  rw [pending, announced_of_ne (by rw [h]; exact nofun), Nat.zero_add]
  refine Finset.sum_eq_zero fun t _ => ?_
  have ht := Finset.sum_eq_zero_iff.mp hz t (Finset.mem_univ t)
  unfold LV.toLeave
  unfold LV.releases at ht
  split
  case h_7 => rfl
  all_goals simp_all

lemma not_preparing (hr : Reach step ok (boot b a w) c) (hb : (c.loc a).pc = .acc .accept) (k : ℕ) (t : τ) :
    ¬LV.preparing ((slot c k).L t) := by
  rintro ⟨p, hp⟩
  by_cases hta : t = a
  · rw [hta] at hp
    exact nomatch hb.symm.trans (role_acc hp)
  · exact (reach_outside hr hta).2 k p (role_acc hp)

lemma inside_accept (hr : Reach step ok (boot b a w) c₀) (hb : (c₀.loc a).pc = .acc .accept)
    (hs : step c₀ (.run a (.sock (some h))) = some c) :
    Inside a c₀ c h ⟨fun _ => 0, fun _ => 0, []⟩ := by
  obtain ⟨hpc, -, -, hsl⟩ := accept_step hb hs
  refine ⟨fun k hk => ?_, fun k _ t => ?_, fun _ _ => ⟨rfl, rfl⟩, fun k hk => ?_,
    fun _ => .inl ⟨a, by rw [hpc]; rfl⟩, ?_⟩
  · exact (congrArg (fun S : Slot τ => S.V.h.phase) (hsl k)).trans hk
  · rw [hsl k]
    exact not_preparing hr hb k t
  · rw [hsl k, pending_free (reach_phased hr) hk]
  · rw [hpc]
    exact ⟨nofun, nofun⟩

section Step

variable (hr : Reach step (avoids bad) (boot b a w) c) (hok : .ok ∉ bad) (hskip : .skipRelease ∈ bad)
  {x : Act τ} (hs : step c x = some c')

include hr hs

lemma step_away (hk : (c.mem.hist k).phase = .live) (h : ∀ t, ¬LV.preparing ((slot c k).L t)) (t : τ) :
    ¬LV.preparing ((slot c' k).L t) := by
  have hP := reach_phased (k := k) hr
  change (slot c k).V.h.phase = .live at hk
  rcases step_slot (reach_named hr) hs k with he | ⟨e, -, hn⟩
  · rw [he]
    exact h t
  · generalize slot c k = S at hn h hP hk
    generalize slot c' k = S' at hn
    cases hn with
    | complete => exact h t
    | @thread e V L V' l' u hst =>
      dsimp only
      by_cases htu : t = u
      · rw [htu, Function.update_self]
        intro hp
        rcases sstep_acc hst hp with hp | hst
        · exact h u hp
        · exact nomatch hk.symm.trans (hP.of_stack hst)
      · rw [Function.update_of_ne htu]
        exact h t

include hok hskip in
lemma step_owed : pending (slot c' k) + ∑ t, LV.leaves ((slot c k).L t) ((slot c' k).L t) =
    pending (slot c k) + ∑ t, LV.joins ((slot c k).L t) ((slot c' k).L t) := by
  have hA := reach_sound (k := k) hok hskip hr
  have hu := reach_unmet (k := k) hok hskip hr
  have hj := reach_unannounced (k := k) hok hr
  rcases step_slot (reach_named hr) hs k with he | ⟨e, -, hn⟩
  · rw [he, Finset.sum_eq_zero fun t _ => leaves_same rfl, Finset.sum_eq_zero fun t _ => joins_same rfl]
  · refine next_owed hn hA hu fun hp h0 => ?_
    by_contra hne
    -- a session that has not been announced is with a thread, and one without a reference is not
    obtain ⟨t, ht⟩ := exists_of_sum (hj hp (Bool.eq_false_of_not_eq_true hne))
    have h1 := LV.unmet_le ((slot c k).L t)
    have h2 := LV.accepts_le ((slot c k).L t)
    have h3 := ((hA t).empty h0).2
    exact nomatch hp.symm.trans ((hA t).init (by omega))

omit [Fintype τ] hr in
/-- A step on the sockets is that of one thread. -/
lemma step_socks : (c'.mem.socks = c.mem.socks ∧ ∀ t, (c'.loc t).pc = (c.loc t).pc) ∨
    ∃ t ch, x = .run t ch ∧ SockStep c.mem c'.mem (c.loc t) (c'.loc t) ch ∧ ∀ u ≠ t, c'.loc u = c.loc u := by
  cases x with
  | run t ch =>
    simp only [step, Option.map_eq_some_iff] at hs
    obtain ⟨⟨m', l'⟩, hl, rfl⟩ := hs
    refine .inr ⟨t, ch, rfl, ?_, fun u hu => Function.update_of_ne hu _ _⟩
    rw [show (⟨m', Function.update c.loc t l'⟩ : Config τ).loc t = l' from Function.update_self _ _ _]
    exact lstep_socks hl
  | complete io n d =>
    simp only [step, Option.ite_none_right_eq_some, Option.some.injEq] at hs
    obtain ⟨-, rfl⟩ := hs
    exact .inl ⟨rfl, fun _ => rfl⟩
  | give t u p =>
    simp only [step, Option.ite_none_right_eq_some, Option.some.injEq] at hs
    obtain ⟨-, rfl⟩ := hs
    refine .inl ⟨rfl, fun v => ?_⟩
    by_cases hv : v = u
    · rw [hv]
      simp
    · by_cases hv' : v = t
      · subst hv'
        simp [hv]
      · simp [hv, hv']

omit [Fintype τ] hs in
/-- No socket is open twice. -/
lemma reach_nodup : c.mem.socks.Nodup := by
  refine Reach.inv (I := fun c => c.mem.socks.Nodup) List.nodup_nil (fun c c' x _ hi _ hs => ?_) hr
  rcases step_socks hs with ⟨he, -⟩ | ⟨t, ch, -, hss, -⟩
  · rw [he]
    exact hi
  · cases hss with
    | same he | pop _ _ _ _ _ he =>
      rw [he]
      exact hi
    | accept s _ hn _ _ he =>
      rw [he]
      exact List.nodup_cons.mpr ⟨hn, hi⟩
    | refuse s _ _ he | close _ _ _ _ he =>
      rw [he]
      exact hi.erase _

/-- What a thread has in hand stays there, is closed, or goes to a slot. -/
lemma step_hand {t : τ} (ht : hand (c.loc t).pc = some h)
    (hm : h ∈ c'.mem.socks) : (∃ t, hand (c'.loc t).pc = some h) ∨
    ∃ k, (c.mem.hist k).phase = .free ∧ ∃ t, Keeps (slot c' k).V ((slot c' k).L t) h := by
  rcases step_socks hs with ⟨-, he⟩ | ⟨u, ch, rfl, hss, he⟩
  · exact .inl ⟨t, by rw [he]; exact ht⟩
  · by_cases htu : t = u
    · rw [htu] at ht
      cases hss with
      | same _ hh _ => exact .inl ⟨u, hh.trans ht⟩
      | accept s _ _ hp => exact nomatch ht.symm.trans (congrArg hand hp)
      | refuse s hp _ hsk =>
        obtain rfl : h = s := Option.some.inj (ht.symm.trans (congrArg hand hp))
        rw [hsk] at hm
        exact absurd hm (reach_nodup hr).not_mem_erase
      | pop s i hp hp' hi _ =>
        obtain rfl : h = s := Option.some.inj (ht.symm.trans (congrArg hand hp))
        refine .inr ⟨i, ?_, u, .inl ?_⟩
        · by_contra hne
          have hcount := (reach_stacked hr i).count
          rw [if_neg fun hf => hne hf.1] at hcount
          exact absurd hi (List.count_eq_zero.mp hcount)
        · have hrole : ((slot c' i).L u).role = .acc (.init h .ioCount) := by
            change pcRole i (c'.loc u).pc = _
            rw [hp', pcRole_acc]
          rw [LV.prepares, hrole]
      | close i y hp => exact nomatch ht.symm.trans (congrArg hand hp)
    · exact .inl ⟨t, by rw [he t htu]; exact ht⟩

include hok hskip in
/-- What is open for a slot stays so, or is closed. -/
lemma step_keeps {t : τ} (ht : Keeps (slot c k).V ((slot c k).L t) h) (hm : h ∈ c'.mem.socks) :
    ∃ t, Keeps (slot c' k).V ((slot c' k).L t) h := by
  obtain ⟨hst, hrel⟩ := reach_relSock (k := k) hok hskip hr
  have hA := reach_sound (k := k) hok hskip hr
  rcases step_slot (reach_named hr) hs k with he | ⟨e, -, hn⟩
  · exact ⟨t, by rw [he]; exact ht⟩
  · rcases next_keeps hn hA hst ⟨t, ht⟩ with hk | ⟨⟨u, hu, hu'⟩, hh⟩
    · exact hk
    · -- the socket of the slot is closed
      exfalso
      obtain ⟨y, hy⟩ := role_rel hu
      obtain ⟨y', hy'⟩ := role_rel hu'
      have hne : (c'.loc u).pc ≠ (c.loc u).pc := by
        rw [hy, hy']
        exact nofun
      rcases step_socks hs with ⟨-, he⟩ | ⟨v, ch, rfl, hss, he⟩
      · exact hne (he u)
      · have huv : u = v := by
          by_contra huv
          exact hne (by rw [he u huv])
        rw [huv] at hy hy' hne
        cases hss with
        | same _ _ hc => exact hne (hc k y hy)
        | accept s _ _ hp => exact nomatch hy.symm.trans hp
        | refuse s hp => exact nomatch hy.symm.trans hp
        | pop s i hp => exact nomatch hy.symm.trans hp
        | close i y' hp _ hsk =>
          obtain ⟨rfl, -⟩ : i = k ∧ y' = y := by
            injection hp.symm.trans hy with h1 _ h2
            exact ⟨h1, h2⟩
          have hph : (slot c i).V.h.phase = .rel := (hA u).rel (closing_releases (by rw [LV.closing, hu]; trivial))
          rw [hsk, show (c.mem.sess i).relSocket = h from (hrel (.inr hph)).trans hh] at hm
          exact (reach_nodup hr).not_mem_erase hm

/-- Without another `accept` no socket is opened. -/
lemma step_closed (hx : ∀ s, x ≠ .run a (.sock s)) (hm : h ∈ c'.mem.socks) : h ∈ c.mem.socks := by
  rcases step_socks hs with ⟨he, -⟩ | ⟨t, ch, rfl, hss, -⟩
  · exact he ▸ hm
  · cases hss with
    | same he => exact he ▸ hm
    | pop _ _ _ _ _ he => exact he ▸ hm
    | refuse s _ _ he => exact List.mem_of_mem_erase (he ▸ hm)
    | close _ _ _ _ he => exact List.mem_of_mem_erase (he ▸ hm)
    | accept s hc _ hp =>
      by_cases hta : t = a
      · exact absurd (by rw [hta, hc]) (hx (some s))
      · exact absurd hp ((reach_outside hr hta).1 .accept)

omit [Fintype τ] in
/-- The accept thread comes to its return from a `CreateIoCompletionPort` that has failed, and stays there. -/
lemma step_stop (k : ℕ) (t : τ) : ((c.loc t).pc = .accOn k .stop → (c'.loc t).pc = .accOn k .stop) ∧
    ((c'.loc t).pc = .accOn k .stop →
      (c.loc t).pc = .accOn k .stop ∨ ∃ s, (c.loc t).pc = .accOn k (.assoc s)) := by
  have hrole : ∀ {c : Config τ} {p : AccOn}, (c.loc t).pc = .accOn k p ↔ ((slot c k).L t).role = .acc p := by
    intro c p
    refine ⟨fun h => ?_, role_acc⟩
    change pcRole k (c.loc t).pc = _
    rw [h, pcRole_acc]
  simp only [hrole]
  rcases step_slot (reach_named hr) hs k with he | ⟨e, -, hn⟩
  · rw [he]
    exact ⟨id, .inl⟩
  · generalize slot c k = S at hn
    generalize slot c' k = S' at hn
    cases hn with
    | complete => exact ⟨id, .inl⟩
    | @thread e V L V' l' u hst =>
      dsimp only
      by_cases htu : t = u
      · rw [htu, Function.update_self]
        exact sstep_stop hst
      · rw [Function.update_of_ne htu]
        exact ⟨id, .inl⟩

omit hr hs in
lemma failure_port {p p' : Pc} : .createIoCompletionPort ∈ failure p p' ↔
    (∃ i s, p = .accOn i (.assoc s)) ∧ ∃ i, p' = .accOn i .stop := by
  unfold failure
  split
  case h_5 _ _ _ _ h _ =>
    refine ⟨fun hm => absurd hm List.not_mem_nil, ?_⟩
    rintro ⟨⟨i, s, hp⟩, j, hp'⟩
    exact absurd hp' (h i s j hp)
  all_goals simp

omit [Fintype τ] in
lemma step_port :
    (.createIoCompletionPort ∈ failure (c.loc a).pc (c'.loc a).pc ∨ ∃ i, (c.loc a).pc = .accOn i .stop) ↔
    ∃ i, (c'.loc a).pc = .accOn i .stop := by
  rw [failure_port]
  constructor
  · rintro (⟨-, h⟩ | ⟨i, h⟩)
    · exact h
    · exact ⟨i, (step_stop hr hs i a).1 h⟩
  · rintro ⟨i, h⟩
    rcases (step_stop hr hs i a).2 h with h' | ⟨s, h'⟩
    · exact .inr ⟨i, h'⟩
    · exact .inl ⟨⟨i, s, h'⟩, i, h⟩

omit hs in
/-- For a session of before nothing is called. -/
lemma step_quiet (hk : (c.mem.hist k).phase = .live) (h : ∀ t, ¬LV.preparing ((slot c k).L t)) :
    ∑ t, LV.joins ((slot c k).L t) ((slot c' k).L t) = 0 ∧
      ∑ t, LV.leaves ((slot c k).L t) ((slot c' k).L t) = 0 := by
  have hrel : ∑ t, LV.releases ((slot c k).L t) = 0 := by
    rw [(reach_phased (k := k) hr).releases]
    exact if_neg (show (c.mem.hist k).phase ≠ .rel by rw [hk]; exact Phase.noConfusion)
  refine ⟨Finset.sum_eq_zero fun t _ => ?_, Finset.sum_eq_zero fun t _ => ?_⟩
  · unfold LV.joins
    split
    next hp _ => exact absurd ⟨_, hp⟩ (h t)
    next => rfl
  · have ht := Finset.sum_eq_zero_iff.mp hrel t (Finset.mem_univ t)
    unfold LV.leaves
    split
    next hp _ =>
      rw [LV.releases, hp] at ht
      exact absurd ht Nat.one_ne_zero
    next => rfl

lemma step_inside (hok : .ok ∉ bad) (hskip : .skipRelease ∈ bad)
    (hset : ∀ k, (c₀.mem.hist k).phase = .free ∨ (c₀.mem.hist k).phase = .live)
    (hold : ∀ k, (c₀.mem.hist k).phase = .live → (c'.mem.hist k).phase = .live)
    (hx : ∀ s, x ≠ .run a (.sock s)) (hi : Inside a c₀ c h n) : Inside a c₀ c' h (n.step a c c') := by
  refine ⟨hold, fun k hk => step_away hr hs (hi.old k hk) (hi.away k hk), fun k hk => ?_, fun k hk => ?_,
    fun hm => ?_, ?_⟩
  · obtain ⟨h1, h2⟩ := hi.quiet k hk
    obtain ⟨h3, h4⟩ : ∑ t, LV.joins ((slot c k).L t) ((slot c' k).L t) = 0 ∧
        ∑ t, LV.leaves ((slot c k).L t) ((slot c' k).L t) = 0 := step_quiet hr (hi.old k hk) (hi.away k hk)
    exact ⟨congrArg₂ (· + ·) h1 h3, congrArg₂ (· + ·) h2 h4⟩
  · have h1 := hi.owed k hk
    have h2 := step_owed (k := k) hr hok hskip hs
    change n.joins k + ∑ t, LV.joins ((slot c k).L t) ((slot c' k).L t) =
      n.leaves k + ∑ t, LV.leaves ((slot c k).L t) ((slot c' k).L t) + pending (slot c' k)
    omega
  · have hfree : ∀ k, (c.mem.hist k).phase ≠ .live → (c₀.mem.hist k).phase = .free :=
      fun k hne => (hset k).resolve_right fun hl => hne (hi.old k hl)
    rcases hi.socket (step_closed hr hs hx hm) with ⟨t, ht⟩ | ⟨k, hk, t, ht⟩
    · rcases step_hand hr hs ht hm with hh | ⟨k, hk, hkeep⟩
      · exact .inl hh
      · exact .inr ⟨k, hfree k (by rw [hk]; exact nofun), hkeep⟩
    · exact .inr ⟨k, hk, step_keeps hr hok hskip hs ht hm⟩
  · change .createIoCompletionPort ∈ n.failures ++ failure (c.loc a).pc (c'.loc a).pc ↔ _
    rw [List.mem_append, hi.port, or_comm]
    exact step_port hr hs

end Step

/-! ### What is left of it -/

lemma During.inside (hok : .ok ∉ bad) (hskip : .skipRelease ∈ bad)
    (hr : Reach step (avoids bad) (boot b a w) c₀) (hb : ∀ t, ¬Leaving (c₀.loc t).pc)
    (hd : During (avoids bad) a c₀ h c n) :
    (c₀.loc a).pc = .acc .accept ∧ Inside a c₀ c h n := by
  induction hd with
  | accept hp _ hs => exact ⟨hp, inside_accept hr hp hs⟩
  | act hd _ hx hs hold ih =>
    exact ⟨ih.1, step_inside (hd.reach hr) hs hok hskip (settled hr ih.1 hb) hold hx ih.2⟩

/-- A slot with nothing going on, whose accept thread is back at `accept`, is free. -/
lemma free_of_rest (hok : .ok ∉ bad) (hskip : .skipRelease ∈ bad) (hlost : .lostRelease ∈ bad)
    (hr : Reach step (avoids bad) (boot b a w) c) (hb : (c.loc a).pc = .acc .accept) (h : AtRest c k) :
    (c.mem.hist k).phase = .free := by
  have hP := reach_phased (k := k) hr
  have hidle : ∀ t, (slot c k).L t = ⟨.none, none⟩ := by
    intro t
    refine (h.idle t).resolve_right fun hstop => ?_
    exact not_preparing hr hb k t ⟨.stop, congrArg LV.role hstop⟩
  have hi := hP.inits
  have hl := hP.releases
  rw [Finset.sum_eq_zero fun t _ => by rw [hidle]; rfl] at hi hl
  change 0 = if (c.mem.hist k).phase = .init then 1 else 0 at hi
  change 0 = if (c.mem.hist k).phase = .rel then 1 else 0 at hl
  cases hph : (c.mem.hist k).phase
  case free => rfl
  case init => rw [hph] at hi; exact nomatch hi
  case rel => rw [hph] at hl; exact nomatch hl
  case live =>
    -- the session has no reference, and somebody would be about to release it
    have hjobs : (slot c k).V.jobs = [] := h.jobs
    have hios : (slot c k).V.ios = [] := h.ios
    have h0 : (slot c k).V.s.ioCount = 0 := by
      rw [reach_counted (k := k) hok hskip hr, refs, View.refs, hjobs, hios,
        Finset.sum_eq_zero fun t _ => by rw [hidle]; rfl]
      rfl
    have hasks := reach_asks hok hskip hlost hr hph h0
    rw [asks, hjobs, Finset.sum_eq_zero fun t _ => by rw [hidle]; rfl] at hasks
    exact absurd hasks (Nat.lt_irrefl 0)

/-- The free stack and `_nowSession` follow from which slots are free. -/
lemma accounts_same (hr : Reach step ok (boot b a w) c₀) (hr' : Reach step ok (boot b a w) c)
    (hfree : ∀ k, (c.mem.hist k).phase = .free ↔ (c₀.mem.hist k).phase = .free)
    (ho : ∑ t, Stand.owes (stands c t) = ∑ t, Stand.owes (stands c₀ t)) :
    (∀ k, k ∈ c.mem.freeStack ↔ k ∈ c₀.mem.freeStack) ∧ c.mem.nowSession = c₀.mem.nowSession := by
  have hmem : ∀ k, k ∈ c.mem.freeStack ↔ k ∈ c₀.mem.freeStack := by
    intro k
    rw [← List.count_pos_iff, ← List.count_pos_iff, (reach_stacked hr k).count, (reach_stacked hr' k).count]
    simp only [hfree k]
  have hlen : c.mem.freeStack.length = c₀.mem.freeStack.length :=
    ((List.perm_ext_iff_of_nodup (stack_nodup hr') (stack_nodup hr)).mpr hmem).length_eq
  have h1 := (reach_balanced hr).owes
  have h2 := (reach_balanced hr').owes
  simp only [books] at h1 h2
  exact ⟨hmem, by omega⟩

omit [DecidableEq τ] [Fintype τ] in
/-- A slot that is pushed and not yet taken out of the count is in a release. -/
lemma leaving_of_returned {l : Local} {y : Bool} (h : stand l = .returned y) : Leaving l.pc := by
  unfold stand at h
  split at h
  case h_6 i s p hp =>
    cases p <;> exact nomatch h
  case h_11 i z hp => exact ⟨i, .decNow, z, hp, nofun⟩
  case h_12 z _ hp =>
    cases z <;> exact nomatch h
  all_goals exact nomatch h

lemma owes_zero (hr : Reach step ok (boot b a w) c) (hb : (c.loc a).pc = .acc .accept)
    (hs : ∀ t, ¬Leaving (c.loc t).pc) : ∑ t, Stand.owes (stands c t) = 0 := by
  refine Finset.sum_eq_zero fun t _ => ?_
  by_cases hta : t = a
  · rw [hta, stands, stand, hb]
    rfl
  · rcases (reach_balanced hr).outside t hta with ho | ho
    · rw [ho]
      rfl
    · exact absurd (leaving_of_returned ho) (hs t)

omit [DecidableEq τ] [Fintype τ] in
lemma acc_of_hand {pc : Pc} {s : Sock} (h : hand pc = some s) : ∃ p, pc = .acc p ∧ p ≠ .accept := by
  unfold hand at h
  split at h
  case h_7 => exact nomatch h
  all_goals exact ⟨_, rfl, nofun⟩

omit [DecidableEq τ] [Fintype τ] in
lemma preparing_of_prepares {l : LV} {s : Sock} (h : LV.prepares l s) : LV.preparing l := by
  unfold LV.prepares at h
  split at h
  case h_6 => exact h.elim
  all_goals exact ⟨_, ‹_›⟩

/-- A free slot has no socket. -/
lemma not_keeps (hok : .ok ∉ bad) (hskip : .skipRelease ∈ bad)
    (hr : Reach step (avoids bad) (boot b a w) c) (hb : (c.loc a).pc = .acc .accept)
    (hk : (c.mem.hist k).phase = .free) (t : τ) : ¬Keeps (slot c k).V ((slot c k).L t) h := by
  rintro (hp | ⟨-, hl | hc⟩)
  · exact not_preparing hr hb k t (preparing_of_prepares hp)
  · exact nomatch hk.symm.trans hl
  · exact nomatch hk.symm.trans ((reach_sound hok hskip hr t).rel (closing_releases hc))

/-- **An iteration that fails leaves no trace, unless it is `CreateIoCompletionPort` that fails.** In every run in
which `RELEASE` jobs can be posted and no worker takes one for a slot whose `socket` is
`INVALID_SOCKET`, and whatever of the iteration fails. -/
theorem accept_undone_iff (hr : Reach step (avoids [.skipRelease, .lostRelease]) (boot b a w) c₀)
    (hb : ∀ t, ¬Leaving (c₀.loc t).pc) (hd : During (avoids [.skipRelease, .lostRelease]) a c₀ h c n)
    (ho : Over a c₀ c) : Undone c₀ c h n ↔ .createIoCompletionPort ∉ n.failures := by
  obtain ⟨hp, hi⟩ := hd.inside (by decide) (by decide) hr hb
  have hset := settled hr hp hb
  have hr' := hd.reach hr
  rw [hi.port]
  constructor
  · rintro hu ⟨i, hstop⟩
    -- the slot of the thread that has returned was free, and its session is live
    have hrole : ((slot c i).L a).role = .acc .stop := by
      change pcRole i (c.loc a).pc = _
      rw [hstop, pcRole_acc]
    have hlive : (c.mem.hist i).phase = .live := by
      refine (reach_sound (k := i) (by decide) (by decide) hr' a).live ?_
      rw [LV.valid, hrole]
      exact Nat.lt_of_lt_of_le Nat.one_pos (Nat.le_add_right 1 _)
    have hfree := (hset i).resolve_right fun hl => hi.away i hl a ⟨_, hrole⟩
    exact Phase.noConfusion (hlive.symm.trans ((hu.occupied i).mpr hfree))
  · intro hn
    have hback := ho.back.resolve_right hn
    have hfree : ∀ k, (c.mem.hist k).phase = .free ↔ (c₀.mem.hist k).phase = .free := by
      refine fun k => ⟨fun hk => ?_, fun hk => ?_⟩
      · exact (hset k).resolve_right fun hl => Phase.noConfusion (hk.symm.trans (hi.old k hl))
      by_contra hne
      exact hne (free_of_rest (by decide) (by decide) (by decide) hr' hback (ho.rest k hk hne))
    obtain ⟨hstack, hnow⟩ := accounts_same hr hr' hfree
      ((owes_zero hr' hback ho.released).trans (owes_zero hr hp hb).symm)
    refine ⟨hnow, hstack, hfree, fun hm => ?_, fun k => ?_⟩
    · rcases hi.socket hm with ⟨t, ht⟩ | ⟨k, hk, t, ht⟩
      · obtain ⟨p, hpc, hne⟩ := acc_of_hand ht
        by_cases hta : t = a
        · rw [hta, hback] at hpc
          exact hne (Pc.acc.inj hpc).symm
        · exact (reach_outside hr' hta).1 p hpc
      · exact not_keeps (by decide) (by decide) hr' hback ((hfree k).mpr hk) t ht
    · rcases hset k with hk | hk
      · rw [hi.owed k hk, pending_free (reach_phased hr') ((hfree k).mpr hk), Nat.add_zero]
      · obtain ⟨h1, h2⟩ := hi.quiet k hk
        rw [h1, h2]

end Iteration

/-! ### Iterations on one slot -/

section Runs

def isAccept (a : Fin 4) : Act (Fin 4) → Bool
  | .run t (.sock _) => t == a
  | _ => false

/-- A run with its tally. -/
def tallied (ok : Config (Fin 4) → Act (Fin 4) → Bool) (a : Fin 4) :
    Config (Fin 4) → Tally → List (Act (Fin 4)) → Option (Config (Fin 4) × Tally)
  | c, n, [] => some (c, n)
  | c, n, x :: l =>
    if ok c x && !isAccept a x then (step c x).bind fun c' => tallied ok a c' (n.step a c c') l else none

variable {ok : Config (Fin 4) → Act (Fin 4) → Prop} {okb : Config (Fin 4) → Act (Fin 4) → Bool} {a : Fin 4}
  {c₀ c : Config (Fin 4)} {h : Sock} {n : Tally}

lemma during_of_tallied (hok : ∀ c x, okb c x = true → ok c x) (hq : ∀ k, (c₀.mem.hist k).phase ≠ .live)
    (l : List (Act (Fin 4))) (hd : During ok a c₀ h c n) {r : Config (Fin 4) × Tally}
    (hr : tallied okb a c n l = some r) : During ok a c₀ h r.1 r.2 := by
  induction l generalizing c n with
  | nil =>
    rw [← Option.some.inj hr]
    exact hd
  | cons x l ih =>
    rw [tallied, Option.ite_none_right_eq_some, Bool.and_eq_true, Bool.not_eq_true', Option.bind_eq_some_iff] at hr
    obtain ⟨⟨h1, h2⟩, c', hs, hr⟩ := hr
    refine ih (.act hd (hok c x h1) (fun s hx => ?_) hs fun k hk => absurd hk (hq k)) hr
    rw [hx, isAccept, beq_self_eq_true] at h2
    exact nomatch h2

/-- An iteration of the server for one client that can be evaluated. -/
lemma during_of_run (hok : ∀ c x, okb c x = true → ok c x) (h0 : ok crew (.run 0 (.sock (some h))))
    (l : List (Act (Fin 4))) {p : Config (Fin 4) × Tally → Bool}
    (hr : ((step crew (.run 0 (.sock (some h)))).bind fun c =>
      tallied okb 0 c ⟨fun _ => 0, fun _ => 0, []⟩ l).map p = some true) :
    ∃ r, During ok 0 crew h r.1 r.2 ∧ p r = true := by
  obtain ⟨r, hr, hpr⟩ := Option.map_eq_some_iff.mp hr
  obtain ⟨c, hs, hr⟩ := Option.bind_eq_some_iff.mp hr
  exact ⟨r, during_of_tallied hok (by nofun) l (.accept rfl h0 hs) hr, hpr⟩

lemma during_avoids (B : List Ev) (h : Sock) (l : List (Act (Fin 4))) {p : Config (Fin 4) × Tally → Bool}
    (h0 : avoids B crew (.run 0 (.sock (some h))))
    (hr : ((step crew (.run 0 (.sock (some h)))).bind fun c =>
      tallied (fun c x => decide (avoids B c x)) 0 c ⟨fun _ => 0, fun _ => 0, []⟩ l).map p = some true) :
    ∃ r, During (avoids B) 0 crew h r.1 r.2 ∧ p r = true :=
  during_of_run (fun _ _ => of_decide_eq_true) h0 l hr

lemma during_free (h : Sock) (l : List (Act (Fin 4))) {p : Config (Fin 4) × Tally → Bool}
    (hr : ((step crew (.run 0 (.sock (some h)))).bind fun c =>
      tallied (fun _ _ => true) 0 c ⟨fun _ => 0, fun _ => 0, []⟩ l).map p = some true) :
    ∃ r, During (fun _ _ => True) 0 crew h r.1 r.2 ∧ p r = true :=
  during_of_run (fun _ _ _ => trivial) trivial l hr

/-- A thread at one of the points where it is when an iteration is over. -/
def doneAt (l : Local) : Bool :=
  match l.pc, l.api with
  | .ext, .idle | .gqcs, .idle | .acc .accept, .idle | .accOn _ .stop, .idle => true
  | _, _ => false

lemma not_leaving {l : Local} (h : doneAt l = true) : ¬Leaving l.pc := by
  rintro ⟨i, p, x, hp, -⟩
  rw [doneAt, hp] at h
  exact nomatch h

lemma lview_doneAt {l : Local} (h : doneAt l = true) (k : ℕ) :
    lview l k = ⟨.none, none⟩ ∨ lview l k = ⟨.acc .stop, none⟩ := by
  unfold doneAt at h
  split at h
  case h_5 => exact nomatch h
  case h_4 i hp ha =>
    rw [lview_pc ha hp]
    unfold pcRole
    dsimp only
    split_ifs
    · exact .inr rfl
    · exact .inl rfl
  all_goals exact .inl (lview_pc ‹_› ‹_›)

/-- On a server for one client the iteration is over when all threads are done and nothing is queued or
posted. -/
lemma over_crew (hd : During ok 0 crew h c n) (hdone : ∀ t, doneAt (c.loc t) = true)
    (hback : (match (c.loc 0).pc with
      | .acc .accept | .accOn _ .stop => true
      | _ => false) = true)
    (hj : (view c.mem 0).jobs = []) (hios : (view c.mem 0).ios = []) : Over 0 crew c := by
  refine ⟨?_, fun t => not_leaving (hdone t), fun k _ hk => ?_⟩
  · split at hback
    next hp => exact .inl hp
    next i hp => exact .inr ⟨i, hp⟩
    next => exact nomatch hback
  · have hk0 : k = 0 := Nat.lt_one_iff.mp ((reach_stacked (hd.reach .init) k).small hk)
    rw [hk0]
    exact ⟨fun t => lview_doneAt (hdone t) 0, hj, hios⟩

lemma crew_still (t : Fin 4) : ¬Leaving (crew.loc t).pc := by
  refine not_leaving ?_
  revert t
  decide

/-- All that is asked of the last state. -/
def ended (c : Config (Fin 4)) : Bool :=
  decide (∀ t, doneAt (c.loc t) = true) && (match (c.loc 0).pc with
    | .acc .accept | .accOn _ .stop => true
    | _ => false) && decide ((view c.mem 0).jobs = [] ∧ (view c.mem 0).ios = [])

lemma over_of_ended (hd : During ok 0 crew h c n) (he : ended c = true) : Over 0 crew c := by
  rw [ended, Bool.and_eq_true, Bool.and_eq_true, decide_eq_true_eq, decide_eq_true_eq] at he
  exact over_crew hd he.1.1 he.1.2 he.2.1 he.2.2

/-- The client gets a slot. -/
def slotted : List (Act (Fin 4)) := [.run 0 .tick, .run 0 (.ans true)] ++ ticks 0 11

/-- The first receive fails, and the accept thread releases the session. -/
def recvFails : List (Act (Fin 4)) :=
  slotted ++ [.run 0 (.ans true), .run 0 .tick, .run 0 .ret, .run 0 (.io .error)] ++ ticks 0 7 ++
    [.run 0 .ret] ++ ticks 0 2

theorem accept_undone_recv : ∃ c n, During (avoids [.skipRelease, .lostRelease]) 0 crew 0x1A4 c n ∧
    Over 0 crew c ∧ n.failures = [.wsaRecv] ∧ n.joins 0 = 1 ∧ Undone crew c 0x1A4 n := by
  obtain ⟨⟨c, n⟩, hd, hp⟩ := during_avoids [.skipRelease, .lostRelease] 0x1A4 recvFails
    (p := fun r => ended r.1 && decide (r.2.failures = [.wsaRecv] ∧ r.2.joins 0 = 1)) (by decide) (by decide +kernel)
  rw [Bool.and_eq_true, decide_eq_true_eq] at hp
  obtain ⟨he, hf, hj⟩ := hp
  have ho := over_of_ended hd he
  exact ⟨c, n, hd, ho, hf, hj, (accept_undone_iff .init crew_still hd ho).mpr (by rw [hf]; decide)⟩

/-- `CreateIoCompletionPort` fails, and the thread returns. -/
theorem port_leaks : ¬∀ c n, During (fun _ _ => True) 0 crew 0x1A4 c n → Over 0 crew c → n.failures ≠ [] →
    Undone crew c 0x1A4 n := by
  intro hall
  obtain ⟨⟨c, n⟩, hd, hp⟩ := during_free 0x1A4 (slotted ++ [.run 0 (.ans false)])
    (p := fun r => ended r.1 && decide (r.2.failures = [.createIoCompletionPort] ∧ r.1.mem.nowSession = 1))
    (by decide +kernel)
  rw [Bool.and_eq_true, decide_eq_true_eq] at hp
  obtain ⟨he, hf, hnow⟩ := hp
  have hu := hall c n hd (over_of_ended hd he) (by rw [hf]; exact List.cons_ne_nil _ _)
  exact absurd (hnow.symm.trans hu.nowSession) (by decide)

end Runs

end LoginServerChat.AcceptUndo
