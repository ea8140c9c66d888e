import LoginServerChat.Contents

/-!
The callbacks of a slot. `OnClientJoin` comes first, calls of `OnRecv` follow one another, and
`OnClientLeave` is last; then the slot may be taken by another session. A thread is in at most
one callback of a slot, and no two threads are in callbacks of the same slot.
-/

namespace LoginServerChat.CallbackStage

open NetPacket NetState NetStep SlotStep SlotView SlotRun SlotRefs SlotPhase SlotLive SlotRelease
  SlotJoin SlotSend SendPath SlotRecv Contents Runs

/-! ### The order of the callbacks -/

/-- Where a session is in the order of its callbacks. -/
inductive Stage | away | joining | joined | receiving | leaving
  deriving DecidableEq

/-- The callback that is running. -/
def Stage.running : Stage → Option Kind
  | .joining => some .join
  | .receiving => some .recv
  | .leaving => some .leave
  | _ => none

def Stage.enter : Stage → Kind → Option Stage
  | .away, .join => some .joining
  | .joined, .recv => some .receiving
  | .joined, .leave => some .leaving
  | _, _ => none

def Stage.exit : Stage → Kind → Option Stage
  | .joining, .join => some .joined
  | .receiving, .recv => some .joined
  | .leaving, .leave => some .away
  | _, _ => none

/-- The stage after a thread has gone from one point to another; the points are known by the
callbacks they are in. -/
def Stage.after (s : Stage) : Option Kind → Option Kind → Option Stage
  | none, some x => s.enter x
  | some x, none => s.exit x
  | _, _ => some s

/-- The callback that a thread is in on a slot. -/
def Role.calls : Role → Option Kind
  | .acc (.joining _) => some .join
  | .work (.recv (.onRecv _)) => some .recv
  | .rel .leaving => some .leave
  | _ => none

lemma calls_pcRole (k : ℕ) (pc : Pc) :
    Role.calls (pcRole k pc) = (callback pc).bind fun x => if x.2 = k then some x.1 else none := by
  unfold callback
  split
  case h_1 i _ | h_2 i _ | h_3 i _ =>
    simp only [pcRole, Option.bind_some]
    split <;> rfl
  case h_4 h1 h2 h3 =>
    simp only [Option.bind_none]
    unfold pcRole
    split
    case h_1 i p =>
      split
      · cases p <;> first | rfl | exact absurd rfl (h1 i _)
      · rfl
    case h_2 i p =>
      split
      · rcases p with _ | _ | _ | _ | _ | _ | p | _ | _ <;> try rfl
        cases p <;> first | rfl | exact absurd rfl (h2 i _)
      · rfl
    case h_3 i p x =>
      split
      · cases p <;> first | rfl | exact absurd rfl (h3 i x)
      · rfl
    case h_4 => rfl

/-- The thread runs callback `x` of the slot. -/
def LV.calls (x : Kind) (l : LV) : ℕ := if Role.calls l.role = some x then 1 else 0

/-- The thread is in `ReleaseSession` past `OnClientLeave`. -/
def LV.pushes (l : LV) : ℕ :=
  match l.role with
  | .rel .push => 1
  | _ => 0

/-- The stage of a slot in which `n x` threads run callback `x`. -/
structure Staged (V : View) (n : Kind → ℕ) (pushes : ℕ) (s : Stage) : Prop where
  calls : ∀ x, n x = if s.running = some x then 1 else 0
  away : s = .away ↔ V.h.joined = false ∨ V.h.phase = .free ∨ 0 < pushes
  rel : V.h.phase = .rel → V.h.joined = true

/-- What is known of the other threads: `m` and `q` are their share. -/
structure Others (V : View) (l : LV) (m : Kind → ℕ) (q : ℕ) : Prop where
  live : V.h.phase = .live → q = 0 ∧ m .leave = 0
  dead : V.h.phase ≠ .live → m .join = 0 ∧ m .recv = 0
  recv : 0 < LV.recvs l → m .join = 0 ∧ m .recv = 0
  rel : 0 < LV.releases l → q = 0 ∧ m .leave = 0

variable {k : ℕ} {e : Ev} {V V' : View} {l l' : LV} {m : Kind → ℕ} {q : ℕ} {s : Stage}

lemma running_none (h : s ≠ .away) (h0 : ∀ x, s.running ≠ some x) : s = .joined := by
  cases s <;> first | rfl | exact absurd rfl h | exact absurd rfl (h0 _)

lemma staged_running {x : Kind} (h : Staged V (fun x => m x + LV.calls x l) q s)
    (hl : Role.calls l.role = some x) : s.running = some x := by
  have := h.calls x
  simp only [LV.calls, hl, if_true] at this
  by_contra hx
  rw [if_neg hx] at this
  omega

/-- A callback that a thread enters. -/
lemma staged_enter {x : Kind} {s' : Stage} (h : Staged V (fun x => m x + LV.calls x l) q s)
    (hs : s.running = none) (hs' : s'.running = some x) (hl : Role.calls l'.role = some x) (y : Kind) :
    m y + LV.calls y l' = if s'.running = some y then 1 else 0 := by
  have h0 := h.calls y
  simp only [hs, reduceCtorEq, if_false] at h0
  simp only [LV.calls, hl, hs']
  omega

/-- A callback that it leaves. -/
lemma staged_exit {x : Kind} {s' : Stage} (h : Staged V (fun x => m x + LV.calls x l) q s)
    (hs : s.running = some x) (hs' : s'.running = none) (hl : Role.calls l.role = some x)
    (hl' : Role.calls l'.role = none) (y : Kind) :
    m y + LV.calls y l' = if s'.running = some y then 1 else 0 := by
  have h0 := h.calls y
  simp only [LV.calls, hl, hs] at h0
  simp only [LV.calls, hl', hs', reduceCtorEq, if_false]
  omega

/-- The points of the receive loop that a thread goes between. -/
lemma staged_recv {p : RecvPc} (hl : l.role = .work (.recv p))
    (hc : Role.calls l'.role = none ∨ Role.calls l'.role = some .recv) (hq : LV.pushes l' = 0)
    (hV : V'.h = V.h) (hA : JoinedAt V l) (ho : Others V l m q)
    (hs : Staged V (fun x => m x + LV.calls x l) (q + LV.pushes l) s) :
    ∃ s', s.after (Role.calls l.role) (Role.calls l'.role) = some s' ∧
      Staged V' (fun x => m x + LV.calls x l') (q + LV.pushes l') s' := by
  have hmet : 0 < LV.met l := by
    rw [LV.met, hl]
    exact Nat.add_pos_left Nat.one_pos _
  have hlive := hA.live (hmet.trans_le (LV.met_le l))
  have hjoined := hA.met hmet
  obtain ⟨hq0, hm⟩ := ho.live hlive
  have hl0 : LV.pushes l = 0 := by rw [LV.pushes, hl]
  have haway : s ≠ .away := by
    intro h
    rcases hs.away.mp h with h | h | h
    · exact absurd (h.symm.trans hjoined) Bool.false_ne_true
    · exact Phase.noConfusion (h.symm.trans hlive)
    · omega
  -- the slot is neither away before nor after
  have hfar : ∀ {s' : Stage}, s' ≠ .away →
      (s' = .away ↔ V'.h.joined = false ∨ V'.h.phase = .free ∨ 0 < q + LV.pushes l') := by
    intro s' hs'
    simp [hs', hV, hjoined, hlive, hq0, hq]
  have hrel : V'.h.phase = .rel → V'.h.joined = true := by
    rw [hV]
    exact hs.rel
  rcases hcl : Role.calls l.role with _ | x
  · have hrun : s.running = none := by
      rcases hx : s.running with _ | x
      · rfl
      · have h1 := hs.calls x
        simp only [hx, if_true, LV.calls, hcl, reduceCtorEq, if_false] at h1
        obtain ⟨h2, h3⟩ := ho.recv (by rw [LV.recvs, hl]; exact Nat.one_pos)
        cases x <;> omega
    obtain rfl := running_none haway fun x hx => by simp [hrun] at hx
    rcases hc with hc | hc
    · refine ⟨.joined, by rw [hc]; rfl, fun x => ?_, hfar haway, hrel⟩
      have h1 := hs.calls x
      simp only [LV.calls, hcl, hc] at h1 ⊢
      exact h1
    · refine ⟨.receiving, by rw [hc]; rfl, ?_, hfar Stage.noConfusion, hrel⟩
      exact staged_enter hs hrun rfl hc
  · obtain rfl : x = .recv := by
      rw [hl] at hcl
      cases p <;> simp [Role.calls] at hcl
      exact hcl.symm
    have hrun := staged_running hs hcl
    obtain rfl : s = .receiving := by cases s <;> simp [Stage.running] at hrun ⊢
    rcases hc with hc | hc
    · exact ⟨.joined, by rw [hc]; rfl, staged_exit hs hrun rfl hcl hc, hfar Stage.noConfusion, hrel⟩
    · refine ⟨.receiving, by rw [hc]; rfl, fun x => ?_, hfar Stage.noConfusion, hrel⟩
      have h1 := hs.calls x
      simp only [LV.calls, hcl, hc] at h1 ⊢
      exact h1

lemma calls_recv (p : RecvPc) :
    Role.calls (.work (.recv p)) = none ∨ Role.calls (.work (.recv p)) = some .recv := by
  cases p <;> first | exact .inl rfl | exact .inr rfl

/-- **A step in the order of the callbacks.** -/
lemma sstep_staged (h : SStep k e V l V' l') (hA : JoinedAt V l) (ho : Others V l m q)
    (hann : V.h.phase = .live → V.s.ioCount = 0 → V.h.joined = true)
    (hs : Staged V (fun x => m x + LV.calls x l) (q + LV.pushes l) s) :
    ∃ s', s.after (Role.calls l.role) (Role.calls l'.role) = some s' ∧
      Staged V' (fun x => m x + LV.calls x l') (q + LV.pushes l') s' := by
  have hstay : ∀ {V'}, (V'.h.joined = V.h.joined) → (V'.h.phase = V.h.phase) →
      Staged V' (fun x => m x + LV.calls x l) (q + LV.pushes l) s := by
    intro V' h1 h2
    exact ⟨hs.calls, by rw [h1, h2]; exact hs.away, by rw [h1, h2]; exact hs.rel⟩
  cases h
  case pop hst =>
    have hph := hA.stack (by omega)
    obtain rfl := hs.away.mpr (.inr (.inl hph))
    exact ⟨.away, rfl, hs.calls, ⟨fun _ => .inl rfl, fun _ => rfl⟩, nofun⟩
  case initReleaseFlag =>
    have hph := hA.init Nat.one_pos
    refine ⟨s, rfl, hs.calls, ?_, nofun⟩
    have := hs.away
    simp only [hph, reduceCtorEq, false_or] at this ⊢
    exact this
  case join =>
    have hlive := hA.live (Nat.add_pos_left Nat.one_pos _)
    obtain rfl := hs.away.mpr (.inl (hA.unmet Nat.one_pos))
    obtain ⟨rfl, -⟩ := ho.live hlive
    refine ⟨.joining, rfl, staged_enter hs rfl rfl rfl, ?_, fun _ => rfl⟩
    simp [hlive, LV.pushes]
  case joined =>
    have hrun := staged_running hs rfl
    obtain rfl : s = .joining := by cases s <;> simp [Stage.running] at hrun ⊢
    exact ⟨.joined, rfl, staged_exit hs rfl rfl rfl rfl,
      ⟨nofun, fun h => Stage.noConfusion (hs.away.mpr h)⟩, hs.rel⟩
  case cas h0 hf =>
    have hlive := hA.of_flag (.inr trivial) hf
    refine ⟨s, rfl, hs.calls, ?_, fun _ => hann hlive h0⟩
    have := hs.away
    simp only [hlive, reduceCtorEq, false_or] at this ⊢
    exact this
  case push =>
    obtain rfl := hs.away.mpr (.inr (.inr (Nat.succ_pos q)))
    exact ⟨.away, rfl, hs.calls, ⟨fun _ => .inr (.inl rfl), fun _ => rfl⟩, nofun⟩
  case relWalk p p' hp =>
    cases p <;> cases p' <;> try exact hp.elim
    case close.leave => exact ⟨s, rfl, hs.calls, hs.away, hs.rel⟩
    case leave.leaving =>
      have hph := hA.rel Nat.one_pos
      obtain ⟨rfl, hm⟩ := ho.rel Nat.one_pos
      obtain ⟨h1, h2⟩ := ho.dead (by rw [hph]; exact nofun)
      have haway : s ≠ .away := by
        intro h
        rcases hs.away.mp h with h | h | h
        · exact absurd (h.symm.trans (hs.rel hph)) Bool.false_ne_true
        · exact Phase.noConfusion (h.symm.trans hph)
        · exact absurd h (Nat.lt_irrefl 0)
      have hrun : ∀ x, s.running ≠ some x := by
        intro x hx
        have h0 := hs.calls x
        simp only [hx, if_true, LV.calls, Role.calls, reduceCtorEq, if_false] at h0
        cases x <;> omega
      obtain rfl := running_none haway hrun
      refine ⟨.leaving, rfl, staged_enter hs rfl rfl rfl, ?_, hs.rel⟩
      simp [hph, hs.rel hph, LV.pushes]
    case leaving.push =>
      have hrun := staged_running hs rfl
      obtain rfl : s = .leaving := by cases s <;> simp [Stage.running] at hrun ⊢
      refine ⟨.away, rfl, staged_exit hs rfl rfl rfl rfl, ?_, hs.rel⟩
      simp [LV.pushes]
  case moveRear => exact staged_recv (V := V) rfl (.inl rfl) rfl rfl hA ho hs
  case parse p p' _ _ => exact staged_recv rfl (calls_recv p') rfl rfl hA ho hs
  case dequeue p p' _ _ _ => exact staged_recv (V := V) rfl (calls_recv p') rfl rfl hA ho hs
  case disconnect => exact staged_recv rfl (.inl rfl) rfl rfl hA ho hs
  case parsed p _ => exact staged_recv rfl (.inl rfl) rfl rfl hA ho hs
  case chkID c _ => cases c <;> exact ⟨s, by unfold Stage.after; split <;> simp_all, hstay rfl rfl⟩
  case entryPass j _ _ => cases j <;> exact ⟨s, rfl, hstay rfl rfl⟩
  case entrySkip j _ _ => cases j <;> exact ⟨s, rfl, hstay rfl rfl⟩
  all_goals first
    | exact ⟨s, rfl, hstay rfl rfl⟩
    | exact ⟨s, by unfold Stage.after; split <;> simp_all, hstay rfl rfl⟩

/-! ### The slots of a run -/

lemma LV.calls_leave_le (l : LV) : LV.calls .leave l + LV.pushes l ≤ LV.releases l := by
  obtain ⟨r, x⟩ := l
  rcases r with _ | p | p | p
  · exact Nat.le_refl 0
  · cases p <;> exact Nat.le_refl 0
  · rcases p with _ | _ | _ | _ | _ | _ | p | _ | _ <;> try exact Nat.le_refl 0
    cases p <;> exact Nat.le_refl 0
  · cases p <;> first | exact Nat.le_refl _ | exact Nat.zero_le _

lemma LV.calls_recv_le (l : LV) :
    LV.calls .join l + LV.calls .recv l ≤ LV.recvs l ∧
      LV.calls .join l + LV.calls .recv l ≤ LV.valid l := by
  obtain ⟨r, x⟩ := l
  rcases r with _ | p | p | p
  · exact ⟨Nat.zero_le _, Nat.zero_le _⟩
  · cases p <;> first
      | exact ⟨Nat.le_refl _, Nat.le_add_right _ _⟩
      | exact ⟨Nat.zero_le _, Nat.zero_le _⟩
  · rcases p with _ | _ | _ | _ | _ | _ | p | _ | _ <;> try exact ⟨Nat.zero_le _, Nat.zero_le _⟩
    cases p <;> first
      | exact ⟨Nat.le_refl _, Nat.le_add_right _ _⟩
      | exact ⟨Nat.zero_le _, Nat.zero_le _⟩
  · cases p <;> exact ⟨Nat.zero_le _, Nat.zero_le _⟩

variable {τ : Type*} [DecidableEq τ] [Fintype τ]

def SlotStaged (S : Slot τ) (s : Stage) : Prop :=
  Staged S.V (fun x => ∑ t, LV.calls x (S.L t)) (∑ t, LV.pushes (S.L t)) s

/-- What the results about a slot say of the threads besides `t`. -/
lemma others_of {L : τ → LV} {t : τ} {m : Kind → ℕ} {q : ℕ}
    (hm : ∀ x b, ∑ u, LV.calls x (Function.update L t b u) = m x + LV.calls x b)
    (hq : ∀ b, ∑ u, LV.pushes (Function.update L t b u) = q + LV.pushes b)
    (hS : ∀ u, SoundAt V (L u)) (hP : SlotPhased ⟨V, L⟩) (hR : recvs ⟨V, L⟩ ≤ View.busy V) :
    Others V (L t) m q := by
  have hidle : ∀ x, m x = ∑ u, LV.calls x (Function.update L t ⟨.none, none⟩ u) :=
    fun x => (hm x ⟨.none, none⟩).symm
  have hpush : q = ∑ u, LV.pushes (Function.update L t ⟨.none, none⟩ u) := (hq ⟨.none, none⟩).symm
  obtain ⟨r, hr, hr'⟩ := sum_split LV.releases L t
  obtain ⟨v, hv, hv'⟩ := sum_split LV.recvs L t
  have hle : m .leave + q ≤ r := by
    rw [hidle, hpush, ← Finset.sum_add_distrib]
    exact (Finset.sum_le_sum fun u _ => LV.calls_leave_le _).trans (hr' ⟨.none, none⟩).le
  have hle' : m .join + m .recv ≤ v := by
    rw [hidle, hidle, ← Finset.sum_add_distrib]
    exact (Finset.sum_le_sum fun u _ => (LV.calls_recv_le _).1).trans (hv' ⟨.none, none⟩).le
  have hrel := hP.releases
  dsimp only at hrel
  rw [hr] at hrel
  have hbusy : View.busy V ≤ 1 := by unfold View.busy; split <;> omega
  simp only [recvs, hv] at hR
  refine ⟨fun hp => ?_, fun hp => ?_, fun hl => by omega, fun hl => ?_⟩
  · simp only [hp, reduceCtorEq, if_false] at hrel
    omega
  · have h0 : ∀ u, LV.calls .join (Function.update L t ⟨.none, none⟩ u) +
        LV.calls .recv (Function.update L t ⟨.none, none⟩ u) = 0 := by
      intro u
      by_cases hut : u = t
      · subst hut
        rw [Function.update_self]
        rfl
      · rw [Function.update_of_ne hut]
        by_contra hne
        exact hp ((hS u).live (by have := (LV.calls_recv_le (L u)).2; omega))
    have := Finset.sum_eq_zero (s := Finset.univ) fun u _ => h0 u
    rw [Finset.sum_add_distrib, ← hidle, ← hidle] at this
    omega
  · split at hrel <;> omega

variable {b : Boot} {a : τ} {w : τ → Bool} {c c' : Config τ} {bad : List Ev}

/-- **A step of a thread in the order of the callbacks of every slot.** -/
theorem run_staged {t : τ} {ch : Choice} {st : ℕ → Stage} (hok : .ok ∉ bad)
    (hb : .skipRelease ∈ bad) (hl : .lateEnter ∈ bad) (hr : Reach step (avoids bad) (boot b a w) c)
    (h : step c (.run t ch) = some c') (hst : ∀ k, SlotStaged (slot c k) (st k)) (k : ℕ) :
    ∃ s', (st k).after (Role.calls (pcRole k (c.loc t).pc)) (Role.calls (pcRole k (c'.loc t).pc)) =
      some s' ∧ SlotStaged (slot c' k) s' := by
  have hG := reach_good (k := k) hok hb hl hr
  have hP := reach_phased (k := k) hr
  have hR := reach_recvs (k := k) hok hb hr
  have hs := hst k
  simp only [step, Option.map_eq_some_iff] at h
  obtain ⟨⟨m', l'⟩, h, rfl⟩ := h
  simp only [Function.update_self]
  rw [slot_update]
  choose n hn hn' using fun x => sum_split (LV.calls x) (slot c k).L t
  obtain ⟨q, hq, hq'⟩ := sum_split LV.pushes (slot c k).L t
  have ho := others_of hn' hq' (fun u => (hG.at' u).toSoundAt) hP hR
  simp only [SlotStaged, hn, hq] at hs
  simp only [SlotStaged, hn', hq']
  rcases lstep_seen ((reach_named hr).known t) h k with ⟨e, -, hS⟩ | ⟨hl, hv⟩
  · exact sstep_staged hS (hG.at' t) ho hG.announced hs
  · rw [hl]
    have hrole : pcRole k l'.pc = pcRole k (c.loc t).pc := congrArg LV.role hl
    refine ⟨st k, ?_, ?_⟩
    · rw [hrole]
      unfold Stage.after
      split <;> simp_all
    · rcases hv with hv | ⟨s, hv⟩
      · rw [hv]
        exact hs
      · rw [hv]
        exact ⟨hs.calls, hs.away, hs.rel⟩

end LoginServerChat.CallbackStage
