import LoginServerChat.CallbackStage
import LoginServerChat.StaleIds

/-!
The callback protocol of `LoginServer`. A session has an entry in `characterMap` from its
`OnClientJoin` to its `OnClientLeave`, and `OnRecv` works on the `Character` of that entry. The
map lock is not held meanwhile: what keeps the `Character` is that no `OnClientLeave` of the
session runs beside its `OnRecv`.
-/

namespace LoginServerChat.Callbacks

open NetPacket NetState NetStep SlotStep SlotView SlotRun SlotRefs SlotPhase SlotLive SlotRelease
  SlotJoin SlotSend SendPath SlotRecv OwnCalls Contents CallbackStage StaleIds Runs

/-! ### The map -/

variable {M : List (SessionID × ℕ)} {id id' : SessionID} {p q : ℕ}

lemma key_mem (h : (id, p) ∈ M) : id ∈ M.map Prod.fst := List.mem_map.mpr ⟨_, h, rfl⟩

lemma lookup_iff (h : (M.map Prod.fst).Nodup) : M.lookup id = some p ↔ (id, p) ∈ M := by
  induction M with
  | nil => simp
  | cons x M ih =>
    obtain ⟨y, r⟩ := x
    rw [List.map_cons, List.nodup_cons] at h
    rw [List.lookup_cons, List.mem_cons]
    by_cases hy : id = y
    · subst hy
      have hout : (id, p) ∉ M := fun hm => h.1 (key_mem hm)
      simp [hout, eq_comm]
    · have hb : (id == y) = false := beq_eq_false_iff_ne.mpr hy
      simp [hb, hy, ih h.2]

lemma lookup_isNone (h : (M.map Prod.fst).Nodup) :
    (M.lookup id).isNone = true ↔ ∀ p, (id, p) ∉ M := by
  rw [Option.isNone_iff_eq_none, Option.eq_none_iff_forall_not_mem]
  exact forall_congr' fun p => not_congr (lookup_iff h)

lemma mem_eraseMap : (id', p) ∈ eraseMap M id ↔ (id', p) ∈ M ∧ id' ≠ id := by
  simp [eraseMap]

lemma eraseMap_nodup (h : (M.map Prod.fst).Nodup) : ((eraseMap M id).map Prod.fst).Nodup :=
  h.sublist (List.filter_sublist.map _)

/-- Erasing a key takes its entry away and no other. -/
lemma countP_eraseMap (h : (M.map Prod.fst).Nodup) (hm : (id, p) ∈ M) :
    M.countP (·.2 = q) = (eraseMap M id).countP (·.2 = q) + if p = q then 1 else 0 := by
  induction M with
  | nil => exact absurd hm List.not_mem_nil
  | cons x M ih =>
    obtain ⟨y, r⟩ := x
    rw [List.map_cons, List.nodup_cons] at h
    rcases List.mem_cons.mp hm with hm | hm
    · obtain ⟨rfl, rfl⟩ := Prod.mk.inj hm
      have hout : M.filter (fun x => decide (x.1 ≠ id)) = M := by
        refine List.filter_eq_self.mpr fun x hx => decide_eq_true fun hxi => h.1 ?_
        exact List.mem_map.mpr ⟨x, hx, hxi⟩
      rw [List.countP_cons, eraseMap, List.filter_cons_of_neg (by simp), hout]
      simp
    · have hy : y ≠ id := fun hy => h.1 (hy ▸ key_mem hm)
      rw [List.countP_cons, eraseMap, List.filter_cons_of_pos (by simpa using hy), List.countP_cons,
        ih h.2 hm, eraseMap]
      omega

/-! ### The log -/

/-- The stage that the callbacks with an id have come to; there is none if they are out of
order. -/
def follow (id : SessionID) (log : List Event) : Option Stage :=
  (log.filter fun e => e.id = id).foldlM
    (fun s e => if e.start then s.enter e.kind else s.exit e.kind) .away

lemma follow_snoc (log : List Event) (e : Event) : follow id (log ++ [e]) =
    if e.id = id then (follow id log).bind fun s => if e.start then s.enter e.kind else s.exit e.kind
    else follow id log := by
  unfold follow
  by_cases he : e.id = id
  · simp [List.filter_append, he]
  · simp [List.filter_append, he]

/-- How often `OnClientJoin` has been called with an id. -/
def joins (id : SessionID) (log : List Event) : ℕ := log.count ⟨id, .join, true⟩

variable {τ : Type*} [DecidableEq τ] {m m' : Mem} {l l' : Local} {ch : Choice} {i : ℕ} {x : Kind}

/-- The code of a callback that has not returned. -/
lemma contents_of_ne_ret (h : ch ≠ .ret) :
    (∀ s, accOnStep m l i (.joining s) ch = contentsStep m l ch) ∧
      (∀ p, recvStep m l i (.onRecv p) ch = contentsStep m l ch) ∧
      ∀ y, relStep m l i y .leaving ch = contentsStep m l ch := by
  cases ch <;> first
    | exact absurd rfl h
    | simp [accOnStep, recvStep, relStep]

/-- A thread in a callback stays at its point until the callback returns. -/
lemma lstep_callback (hx : callback l.pc = some (x, i)) (h : lstep m l ch = some (m', l')) :
    l'.pc = l.pc ∨ ch = .ret ∧ callback l'.pc = none := by
  unfold lstep at h
  split at h
  case h_1 =>
    split at h
    · obtain ⟨rfl, rfl⟩ := Prod.mk.inj (Option.some.inj h)
      exact .inl rfl
    · exact absurd h.symm (Option.some_ne_none _)
  case h_2 =>
    split at h
    case h_1 => exact .inl (AcceptBooks.apiStep_books h).2
    case h_2 =>
      unfold callback at hx
      split at hx
      case h_1 j s hp | h_2 j q hp | h_3 j y hp =>
        simp only [hp, workStep] at h
        by_cases hc : ch = .ret
        · subst hc
          simp only [accOnStep, recvStep, relStep, Option.some.injEq, Prod.mk.injEq] at h
          exact .inr ⟨rfl, by rw [← h.2]; rfl⟩
        · have hcode := contents_of_ne_ret (m := m) (l := l) (i := j) hc
          simp only [hcode] at h
          exact .inl (AcceptBooks.contentsStep_books h).2
      case h_4 => exact absurd hx.symm (Option.some_ne_none _)

/-! ### The session layer moves -/

/-- Only a store of the accept thread changes the id of a slot or makes it live for the first
time. -/
lemma sstep_names {k : ℕ} {e : Ev} {V V' : View} {y y' : LV} (h : SStep k e V y V' y') :
    V'.s.sessionID = V.s.sessionID ∧ V'.h.ever = V.h.ever ∨
      0 < LV.inits y ∧ Role.calls y.role = none ∧ Role.calls y'.role = none := by
  cases h
  case initSessionID => exact .inr ⟨Nat.one_pos, rfl, rfl⟩
  case initReleaseFlag => exact .inr ⟨Nat.one_pos, rfl, rfl⟩
  case entrySkip j _ _ => cases j <;> exact .inl ⟨rfl, rfl⟩
  all_goals exact .inl ⟨rfl, rfl⟩

/-- An id is issued by the call of `OnClientJoin`. -/
lemma sstep_issued {k : ℕ} {e : Ev} {V V' : View} {y y' : LV} (h : SStep k e V y V' y') :
    Role.calls y.role = none ∧ Role.calls y'.role = some .join ∧
        V'.issued = V.s.sessionID :: V.issued ∨
      V'.issued = V.issued ∧ (Role.calls y'.role = some .join → Role.calls y.role = some .join) := by
  cases h
  case join => exact .inl ⟨rfl, rfl, rfl⟩
  case parse p p' _ _ => exact .inr ⟨rfl, by cases p' <;> simp [Role.calls]⟩
  case dequeue p p' _ _ _ => exact .inr ⟨rfl, by cases p' <;> simp [Role.calls]⟩
  case relWalk p p' hp => exact .inr ⟨rfl, by cases p' <;> simp [Role.calls]⟩
  case chkID c _ => cases c <;> exact .inr ⟨rfl, id⟩
  case entryPass j _ _ => cases j <;> exact .inr ⟨rfl, by simp [Role.calls, jobRole]⟩
  case entrySkip j _ _ => cases j <;> exact .inr ⟨rfl, by simp [Role.calls]⟩
  all_goals first
    | exact .inr ⟨rfl, id⟩
    | exact .inr ⟨rfl, by simp [Role.calls]⟩

/-- The id is that of the last session of its slot. -/
def Current (c : Config τ) (id : SessionID) : Prop :=
  (c.mem.hist (slotOf id)).ever = true ∧ (c.mem.sess (slotOf id)).sessionID = id

instance {c : Config τ} {id : SessionID} : Decidable (Current c id) :=
  inferInstanceAs (Decidable (_ ∧ _))

/-- The stage of an id when its slot is at `st`. -/
def stageOf (c : Config τ) (st : ℕ → Stage) (id : SessionID) : Stage :=
  if Current c id then st (slotOf id) else .away

/-- What a step of thread `t` does to the slots. -/
structure Moved (c c' : Config τ) (t : τ) (st st' : ℕ → Stage) : Prop where
  others : ∀ u ≠ t, c'.loc u = c.loc u
  after : ∀ k, (st k).after (Role.calls (pcRole k (c.loc t).pc)) (Role.calls (pcRole k (c'.loc t).pc)) =
    some (st' k)
  names : ∀ k, (c'.mem.sess k).sessionID = (c.mem.sess k).sessionID ∧
      (c'.mem.hist k).ever = (c.mem.hist k).ever ∨
    st k = .away ∧ Role.calls (pcRole k (c.loc t).pc) = none ∧
      Role.calls (pcRole k (c'.loc t).pc) = none
  issued : ∀ k, Role.calls (pcRole k (c.loc t).pc) = none ∧
      Role.calls (pcRole k (c'.loc t).pc) = some .join ∧
      (view c'.mem k).issued = (c.mem.sess k).sessionID :: (view c.mem k).issued ∨
    (view c'.mem k).issued = (view c.mem k).issued ∧
      (Role.calls (pcRole k (c'.loc t).pc) = some .join → Role.calls (pcRole k (c.loc t).pc) = some .join)

variable [Fintype τ] {b : Boot} {a : τ} {w : τ → Bool} {c c' : Config τ} {st st' : ℕ → Stage} {t : τ}

lemma run_moved (hr : Reach step (avoids foreign) (boot b a w) c)
    (h : step c (.run t ch) = some c') (hst : ∀ k, SlotStaged (slot c k) (st k)) :
    ∃ st', Moved c c' t st st' ∧ ∀ k, SlotStaged (slot c' k) (st' k) := by
  choose st' hafter hst' using run_staged (by decide) (by decide) (by decide) hr h hst
  refine ⟨st', ⟨?_, hafter, fun k => ?_, fun k => ?_⟩, hst'⟩
  · simp only [step, Option.map_eq_some_iff] at h
    obtain ⟨⟨m', l'⟩, h, rfl⟩ := h
    exact fun u hu => Function.update_of_ne hu _ _
  · have hA := reach_joinedAt (k := k) (by decide) (by decide) (by decide) hr t
    simp only [step, Option.map_eq_some_iff] at h
    obtain ⟨⟨m', l'⟩, h, rfl⟩ := h
    rcases lstep_seen ((reach_named hr).known t) h k with ⟨e, -, hS⟩ | ⟨-, hv⟩
    · rcases sstep_names hS with hn | ⟨hi, h1, h2⟩
      · exact .inl hn
      · refine .inr ⟨?_, h1, by dsimp only; rw [Function.update_self]; exact h2⟩
        have hj := hA.unmet (hi.trans_le (LV.inits_le _))
        exact (hst k).away.mpr (.inl hj)
    · left
      rcases hv with hv | ⟨s, hv⟩
      · exact ⟨congrArg (fun V => V.s.sessionID) hv, congrArg (fun V => V.h.ever) hv⟩
      · exact ⟨congrArg (fun V => V.s.sessionID) hv, congrArg (fun V => V.h.ever) hv⟩
  · simp only [step, Option.map_eq_some_iff] at h
    obtain ⟨⟨m', l'⟩, h, rfl⟩ := h
    dsimp only
    rw [Function.update_self]
    rcases lstep_seen ((reach_named hr).known t) h k with ⟨e, -, hS⟩ | ⟨hl, hv⟩
    · exact sstep_issued hS
    · have hrole : pcRole k l'.pc = pcRole k (c.loc t).pc := congrArg LV.role hl
      refine .inr ⟨?_, by rw [hrole]; exact id⟩
      rcases hv with hv | ⟨s, hv⟩ <;> rw [hv]

omit [DecidableEq τ] [Fintype τ] in
lemma Moved.away (h : Moved c c' t st st') {k : ℕ} (hk : st k = .away)
    (h1 : Role.calls (pcRole k (c.loc t).pc) = none)
    (h2 : Role.calls (pcRole k (c'.loc t).pc) = none) : st' k = .away := by
  have := h.after k
  rw [h1, h2, hk] at this
  exact (Option.some.inj this).symm

omit [DecidableEq τ] [Fintype τ] in
/-- Slots that the thread runs no callback of stay where they are. -/
lemma Moved.stay (h : Moved c c' t st st') {k : ℕ}
    (hk : Role.calls (pcRole k (c'.loc t).pc) = Role.calls (pcRole k (c.loc t).pc)) :
    st' k = st k := by
  have := h.after k
  rw [hk] at this
  unfold Stage.after at this
  split at this
  · simp_all
  · simp_all
  · exact (Option.some.inj this).symm

omit [DecidableEq τ] [Fintype τ] in
lemma Moved.current (h : Moved c c' t st st') {k : ℕ} (hk : st k ≠ .away ∨ st' k ≠ .away)
    (id : SessionID) (hid : slotOf id = k) : Current c' id ↔ Current c id := by
  subst hid
  rcases h.names (slotOf id) with ⟨h1, h2⟩ | ⟨h1, h2, h3⟩
  · unfold Current
    rw [h1, h2]
  · rcases hk with hk | hk
    · exact absurd h1 hk
    · exact absurd (h.away h1 h2 h3) hk

omit [Fintype τ] in
/-- A slot whose callback a thread runs has been live and carries its number. -/
lemma callback_current (hr : Reach step (avoids foreign) (boot b a w) c) {k : ℕ}
    (hx : callback (c.loc t).pc = some (x, k)) :
    (c.mem.hist k).ever = true ∧ slotOf (c.mem.sess k).sessionID = k := by
  have hN := reach_named hr k
  have hpast : LV.past ((slot c k).L t) := by
    refine .inr ?_
    change Role.past (pcRole k (c.loc t).pc)
    unfold callback at hx
    split at hx
    case h_1 i s hp | h_2 i q hp | h_3 i y hp =>
      obtain ⟨-, rfl⟩ := Prod.mk.inj (Option.some.inj hx)
      rw [hp]
      simp [pcRole, Role.past]
    case h_4 => exact absurd hx.symm (Option.some_ne_none _)
  have hev := (hN.2 t).ever hpast
  exact ⟨hev, hN.1.id hev⟩

omit [Fintype τ] in
/-- What the log says of an id after a step of a thread. -/
lemma follow_observe {s : State τ} {n : Config τ}
    (h1 : ∀ x k, callback (s.net.loc t).pc = some (x, k) → slotOf (s.net.mem.sess k).sessionID = k)
    (h2 : ∀ x k, callback (n.loc t).pc = some (x, k) → slotOf (s.net.mem.sess k).sessionID = k)
    (h3 : ∀ y z, callback (s.net.loc t).pc = some y → callback (n.loc t).pc = some z → y = z)
    (id : SessionID) : follow id (observe s t n).log = (follow id s.log).bind fun y =>
      if (s.net.mem.sess (slotOf id)).sessionID = id then
        y.after (Role.calls (pcRole (slotOf id) (s.net.loc t).pc))
          (Role.calls (pcRole (slotOf id) (n.loc t).pc))
      else some y := by
  have hid : ∀ k, slotOf (s.net.mem.sess k).sessionID = k →
      ((s.net.mem.sess k).sessionID = id ↔ k = slotOf id ∧ (s.net.mem.sess (slotOf id)).sessionID = id) := by
    intro k hk
    constructor
    · rintro rfl
      exact ⟨hk.symm, by rw [hk]⟩
    · rintro ⟨rfl, h⟩
      exact h
  have hsame : ∀ y : Option Stage, (y.bind fun z => if (s.net.mem.sess (slotOf id)).sessionID = id then
      some z else some z) = y := by
    intro y
    cases y <;> simp
  simp only [calls_pcRole]
  unfold observe
  split
  case h_1 x k hc hc' =>
    simp only [hc, hc', Option.bind_none, Option.bind_some, follow_snoc, if_true]
    by_cases hk : k = slotOf id
    · subst hk
      by_cases hcur : (s.net.mem.sess (slotOf id)).sessionID = id
      · rw [if_pos hcur, if_pos rfl]
        simp only [if_pos hcur, Stage.after]
      · rw [if_neg hcur]
        simp only [if_neg hcur]
        cases follow id s.log <;> rfl
    · rw [if_neg (mt (hid _ (h2 _ _ hc')).mp fun h => hk h.1), if_neg hk]
      exact (hsame _).symm
  case h_2 x k hc hc' =>
    simp only [hc, hc', Option.bind_none, Option.bind_some, follow_snoc]
    by_cases hk : k = slotOf id
    · subst hk
      by_cases hcur : (s.net.mem.sess (slotOf id)).sessionID = id
      · rw [if_pos hcur, if_pos rfl]
        simp only [if_pos hcur, Stage.after]
        rfl
      · rw [if_neg hcur]
        simp only [if_neg hcur]
        cases follow id s.log <;> rfl
    · rw [if_neg (mt (hid _ (h1 _ _ hc)).mp fun h => hk h.1), if_neg hk]
      exact (hsame _).symm
  case h_3 hno hno' =>
    rcases hc : callback (s.net.loc t).pc with _ | y <;> rcases hc' : callback (n.loc t).pc with _ | z
    · simp [Stage.after]
    · exact absurd hc' (hno _ _ hc)
    · exact absurd hc' (hno' _ _ hc)
    · obtain rfl := h3 y z hc hc'
      simp only [Option.bind_some]
      split <;> simp [Stage.after]

end LoginServerChat.Callbacks
