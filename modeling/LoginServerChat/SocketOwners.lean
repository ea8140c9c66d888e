import LoginServerChat.AcceptUndo

/-!
The client sockets and who is to close them. A socket goes from the accept thread to a slot, and is
closed by the one that has it; so no session's socket is closed by another, and none is left open.
-/

namespace LoginServerChat.SocketOwners

open NetPacket NetState NetStep SlotStep SlotView SlotRun SlotRefs SlotPhase SlotLive SlotSock
  AcceptBooks FreeStack AcceptSocks AcceptUndo Runs

section Slots

variable {k : ℕ} {e : Ev} {V V' : View} {l l' : LV} {s : Sock}

/-- The thread has just taken the slot for the client on a socket. -/
def Pops (l l' : LV) (s : Sock) : Prop := l.role = .none ∧ l'.role = .acc (.init s .ioCount)

/-- A slot gets a socket only with the client. -/
lemma sstep_keeps_back (h : SStep k e V l V' l') (hA : SoundAt V l) (hl : Stored V l) (hs : Keeps V' l' s) :
    Keeps V l s ∨ Pops l l' s := by
  have hinit : 0 < LV.inits l → V.h.phase ≠ .live := fun hi hp => (nomatch hp.symm.trans (hA.init hi))
  cases h
  case initSocket =>
    left
    rcases hs with hs | ⟨-, hp | hc⟩
    · exact .inl hs
    · exact absurd hp (hinit Nat.one_pos)
    · exact hc.elim
  case initReleaseFlag =>
    left
    rcases hs with hs | ⟨hh, -⟩
    · exact hs.elim
    · exact .inl (hl.1.symm.trans hh)
  case cas h0 hf =>
    rcases hs with hs | ⟨hh, -⟩
    · exact hs.elim
    · exact .inl (.inr ⟨hh, .inl (hA.of_flag (.inr trivial) hf)⟩)
  case pop s' n st hst =>
    rcases hs with hs | ⟨-, hp | hc⟩
    · obtain rfl : s' = s := hs
      exact .inr ⟨rfl, rfl⟩
    · exact nomatch hp
    · exact hc.elim
  case push =>
    rcases hs with hs | ⟨-, hp | hc⟩
    · exact hs.elim
    · exact nomatch hp
    · exact hc.elim
  case relWalk p p' hw =>
    left
    cases p <;> cases p' <;> first
      | exact hw.elim
      | exact hs
      | skip
    rcases hs with hs | ⟨hh, hp | hc⟩
    · exact hs.elim
    · exact .inr ⟨hh, .inl hp⟩
    · exact hc.elim
  case chkID c _ => cases c <;> exact .inl hs
  case entryPass j _ _ => cases j <;> exact .inl hs
  case entrySkip j _ _ => cases j <;> exact .inl hs
  all_goals exact .inl hs

end Slots

section Points

variable {m m' : Mem} {l l' : Local} {i : ℕ} {ch : Choice} {s : Sock}

lemma relStep_pc {p : RelPc} {x : Bool} (hp : l.pc = .rel i p x) (h : relStep m l i x p ch = some (m', l')) :
    ∀ j q, l'.pc ≠ .accOn j q := by
  rcases relStep_ioCount hp h with ⟨-, (hq | ⟨q, y, hq⟩) | hq⟩ <;> rw [hq]
  · exact nofun
  · exact nofun
  · cases x <;> exact nofun

lemma acceptStep_pop {p : AccPc} (hpc : l.pc = .acc p) (h : acceptStep m l p ch = some (m', l'))
    (hp : l'.pc = .accOn i (.init s .ioCount)) : l.pc = .acc (.pop s) ∨ l'.pc = l.pc := by
  revert h
  fun_cases acceptStep m l p ch
  case case8 => exact fun h => .inr (contentsStep_books h).2
  all_goals
    intro h
    simp only [Option.some.injEq, Prod.mk.injEq, reduceCtorEq] at h
  all_goals
    obtain ⟨rfl, rfl⟩ := h
  case case12 => exact .inr rfl
  case case13 h j st hst _ =>
    have hs : h = s := by
      injection hp with _ h2
      injection h2
    rw [← hs]
    exact .inl hpc
  all_goals cases hp

lemma accOnStep_pop {j : ℕ} {p : AccOn} (h : accOnStep m l j p ch = some (m', l'))
    (hp : l'.pc = .accOn i (.init s .ioCount)) : l'.pc = l.pc := by
  revert h
  fun_cases accOnStep m l j p ch
  case case6 => exact fun h => (contentsStep_books h).2
  all_goals
    intro h
    simp only [Option.some.injEq, Prod.mk.injEq, reduceCtorEq] at h
  case case1 s p =>
    cases p
    all_goals
      obtain ⟨rfl, rfl⟩ := Prod.mk.inj h
      cases hp
  all_goals
    obtain ⟨rfl, rfl⟩ := h
    cases hp

/-- The accept thread is where it takes the slot only by taking it. -/
lemma lstep_pop (h : lstep m l ch = some (m', l')) (hp : l'.pc = .accOn i (.init s .ioCount)) :
    l.pc = .acc (.pop s) ∨ l'.pc = l.pc := by
  unfold lstep at h
  split at h
  case h_1 =>
    split at h
    · obtain ⟨rfl, rfl⟩ := Prod.mk.inj (Option.some.inj h)
      exact .inr rfl
    · cases h
  case h_2 =>
    split at h
    case h_1 => exact .inr (apiStep_books h).2
    case h_2 =>
      split at h
      case h_1 => exact .inr (contentsStep_books h).2
      case h_2 hpc => exact acceptStep_pop hpc h hp
      case h_3 => exact .inr (accOnStep_pop h hp)
      case h_4 =>
        split at h
        · obtain ⟨rfl, rfl⟩ := Prod.mk.inj (Option.some.inj h)
          cases hp
        · cases h
      case h_5 hpc =>
        have hs := (workStep_books hpc h).2
        rw [stand, hp] at hs
        cases hs
      case h_6 hpc => exact absurd hp (relStep_pc hpc h _ _)

end Points

section Reach

variable {τ : Type*} [DecidableEq τ] [Fintype τ] {b : Boot} {a : τ} {w : τ → Bool} {c c' : Config τ}
  {ok : Config τ → Act τ → Prop} {bad : List Ev} {k : ℕ} {e : Ev} {S S' : Slot τ} {h : Sock} {x : Act τ}

/-- Who is to close a socket: a thread that has it in hand, or the release of a slot. -/
def Owns (c : Config τ) (h : Sock) : τ ⊕ ℕ → Prop
  | .inl t => hand (c.loc t).pc = some h
  | .inr k => ∃ t, Keeps (slot c k).V ((slot c k).L t) h

omit [Fintype τ] in
lemma next_keeps_back (hn : Next k e S S') (hA : ∀ t, SoundAt S.V (S.L t)) (hl : ∀ t, Stored S.V (S.L t))
    (hs : ∃ t, Keeps S'.V (S'.L t) h) :
    (∃ t, Keeps S.V (S.L t) h) ∨ ∃ t, Pops (S.L t) (S'.L t) h := by
  obtain ⟨u, hu⟩ := hs
  cases hn with
  | complete => exact .inl ⟨u, hu⟩
  | @thread e V L V' l' t hst =>
    have hmove : Keeps V' l' h → (∃ v, Keeps V (L v) h) ∨ ∃ v, Pops (L v) (Function.update L t l' v) h := by
      intro ht
      rcases sstep_keeps_back hst (hA t) (hl t) ht with hk | hp
      · exact .inl ⟨t, hk⟩
      · exact .inr ⟨t, by rw [Function.update_self]; exact hp⟩
    dsimp only at hu
    by_cases hut : u = t
    · rw [hut, Function.update_self] at hu
      exact hmove hu
    rw [Function.update_of_ne hut] at hu
    rcases hu with hu | ⟨hh, hp | hc⟩
    · exact .inl ⟨u, .inl hu⟩
    · exact hmove (.inr ⟨hh, .inl hp⟩)
    · refine .inl ⟨u, .inr ⟨?_, .inr hc⟩⟩
      rcases sstep_handle hst with hh' | hi
      · exact hh'.symm.trans hh
      · exact nomatch ((hA t).init hi).symm.trans ((hA u).rel (closing_releases hc))

/-- How an owner has come to a socket in a step. -/
inductive Gets (c c' : Config τ) (x : Act τ) (h : Sock) : τ ⊕ ℕ → Prop
  | had {o : τ ⊕ ℕ} (ho : Owns c h o) : Gets c c' x h o
  | accept (t : τ) (hx : x = .run t (.sock (some h))) (hn : h ∉ c.mem.socks) (hm : h ∈ c'.mem.socks) :
      Gets c c' x h (.inl t)
  | pop (t : τ) (i : ℕ) (hp : (c.loc t).pc = .acc (.pop h)) (hp' : (c'.loc t).pc = .accOn i (.init h .ioCount)) :
      Gets c c' x h (.inr i)

omit [Fintype τ] in
lemma gets_hand (hs : step c x = some c') {t : τ} (ho : Owns c' h (.inl t)) : Gets c c' x h (.inl t) := by
  rcases step_socks hs with ⟨-, he⟩ | ⟨u, ch, rfl, hss, he⟩
  · exact .had ((congrArg hand (he t)).symm.trans ho)
  by_cases htu : t = u
  · subst htu
    cases hss with
    | same _ hh _ => exact .had (hh.symm.trans ho)
    | accept s hc hn _ hp' hsk =>
      obtain rfl : s = h := Option.some.inj ((congrArg hand hp').symm.trans ho)
      exact .accept t (by rw [hc]) hn (by rw [hsk]; exact List.mem_cons_self)
    | refuse s _ hp' => cases (congrArg hand hp').symm.trans ho
    | pop s i _ hp' => cases (congrArg hand hp').symm.trans ho
    | close i y _ hp' => cases (congrArg hand hp').symm.trans ho
  · refine .had ?_
    change hand (c.loc t).pc = some h
    rw [← he t htu]
    exact ho

variable (hok : .ok ∉ bad) (hskip : .skipRelease ∈ bad)

include hok hskip in
lemma gets_slot (hr : Reach step (avoids bad) (boot b a w) c) (hs : step c x = some c')
    (ho : Owns c' h (.inr k)) : Gets c c' x h (.inr k) := by
  rcases step_slot (reach_named hr) hs k with he | ⟨e, -, hn⟩
  · refine .had ?_
    change ∃ t, Keeps (slot c k).V ((slot c k).L t) h
    rw [← he]
    exact ho
  rcases next_keeps_back hn (reach_sound hok hskip hr) (reach_relSock hok hskip hr).1 ho with hk | ⟨t, hp, hp'⟩
  · exact .had hk
  have hpc' : (c'.loc t).pc = .accOn k (.init h .ioCount) := role_acc hp'
  have hne : (c'.loc t).pc ≠ (c.loc t).pc := by
    intro he
    change pcRole k (c.loc t).pc = .none at hp
    rw [← he, hpc', pcRole_acc] at hp
    cases hp
  refine .pop t k ?_ hpc'
  cases x with
  | run u ch =>
    simp only [step, Option.map_eq_some_iff] at hs
    obtain ⟨⟨m', l'⟩, hl, rfl⟩ := hs
    by_cases htu : t = u
    · subst htu
      dsimp only at hpc' hne
      rw [Function.update_self] at hpc' hne
      exact (lstep_pop hl hpc').resolve_right hne
    · exact absurd (congrArg Local.pc (Function.update_of_ne htu l' c.loc)) hne
  | complete io n d =>
    simp only [step, Option.ite_none_right_eq_some, Option.some.injEq] at hs
    obtain ⟨-, rfl⟩ := hs
    exact absurd rfl hne
  | give u v p =>
    rcases step_socks hs with ⟨-, he⟩ | ⟨_, _, hx, -⟩
    · exact absurd (he t) hne
    · cases hx

/-- Each open socket has an owner, and no two. -/
structure Owned (c : Config τ) : Prop where
  iff : ∀ h, h ∈ c.mem.socks ↔ ∃ o, Owns c h o
  one : ∀ h o o', Owns c h o → Owns c h o' → o = o'

omit hok hskip in
/-- After `closesocket` the slot has nothing to close. -/
lemma closed_slot (hr : Reach step ok (boot b a w) c) {t : τ} {y : Bool} (hp : (c.loc t).pc = .rel k .leave y) :
    ¬Owns c h (.inr k) := by
  have hP := reach_phased (k := k) hr
  have ht : LV.releases ((slot c k).L t) = 1 := by
    change LV.releases ⟨pcRole k (c.loc t).pc, _⟩ = 1
    rw [hp, pcRole_rel]
    rfl
  have hphase : (slot c k).V.h.phase = .rel := hP.of_releases (Nat.lt_of_lt_of_le (by omega) (le_sum _ t))
  have hone := hP.releases
  have hnone := hP.inits
  rw [if_pos hphase] at hone
  rw [if_neg (by rw [hphase]; exact Phase.noConfusion)] at hnone
  rintro ⟨u, hu | ⟨-, hl | hc⟩⟩
  · have hi : LV.inits ((slot c k).L u) = 0 := Nat.le_zero.mp (hnone ▸ le_sum (fun u => LV.inits ((slot c k).L u)) u)
    rw [LV.prepares] at hu
    rw [LV.inits] at hi
    split at hu <;> simp_all
  · rw [hphase] at hl
    cases hl
  · by_cases hut : u = t
    · subst hut
      change LV.closing ⟨pcRole k (c.loc u).pc, _⟩ at hc
      rw [hp, pcRole_rel] at hc
      exact hc
    · have := eq_zero_of_sum_le (f := fun u => LV.releases ((slot c k).L u)) (t := t) (by rw [hone, ht]) hut
      exact absurd (closing_releases hc) (by omega)

omit [Fintype τ] hok hskip in
/-- A socket that the step does not close stays open. -/
lemma still_open (hr : Reach step (avoids bad) (boot b a w) c) (hs : step c x = some c') (hm : h ∈ c.mem.socks)
    (hrefuse : ∀ t, (c.loc t).pc = .acc (.refuse h) → (c'.loc t).pc ≠ .acc .accept)
    (hclose : ∀ t i y, (c.loc t).pc = .rel i .close y → (c'.loc t).pc = .rel i .leave y →
      (c.mem.sess i).relSocket ≠ h) : h ∈ c'.mem.socks := by
  rcases step_socks hs with ⟨he, -⟩ | ⟨t, ch, -, hss, -⟩
  · rwa [he]
  cases hss with
  | same he => rwa [he]
  | accept s _ _ _ _ he =>
    rw [he]
    exact List.mem_cons_of_mem s hm
  | refuse s hp hp' he =>
    rw [he, (reach_nodup hr).mem_erase_iff]
    refine ⟨?_, hm⟩
    rintro rfl
    exact hrefuse t hp hp'
  | pop _ _ _ _ _ he => rwa [he]
  | close i y hp hp' he =>
    rw [he, (reach_nodup hr).mem_erase_iff]
    exact ⟨(hclose t i y hp hp').symm, hm⟩

omit [DecidableEq τ] [Fintype τ] hok hskip in
lemma owns_of_close {t : τ} {i : ℕ} {y : Bool} (hp : (c.loc t).pc = .rel i .close y) :
    Owns c (c.mem.hist i).handle (.inr i) := by
  refine ⟨t, .inr ⟨rfl, .inr ?_⟩⟩
  change LV.closing ⟨pcRole i (c.loc t).pc, _⟩
  rw [hp, pcRole_rel]
  trivial

include hok hskip in
lemma relSock_of_close (hr : Reach step (avoids bad) (boot b a w) c) {t : τ} {i : ℕ} {y : Bool}
    (hp : (c.loc t).pc = .rel i .close y) : (c.mem.sess i).relSocket = (c.mem.hist i).handle := by
  refine (reach_relSock (k := i) hok hskip hr).2 (.inr ?_)
  refine (reach_sound (k := i) hok hskip hr t).rel ?_
  change 0 < LV.releases ⟨pcRole i (c.loc t).pc, _⟩
  rw [hp, pcRole_rel]
  exact Nat.one_pos

include hok hskip in
/-- What has an owner after a step is open. -/
lemma open_of_gets (hr : Reach step (avoids bad) (boot b a w) c) (hr' : Reach step (avoids bad) (boot b a w) c')
    (hs : step c x = some c') (hO : Owned c) {o : τ ⊕ ℕ} (hg : Gets c c' x h o) (ho : Owns c' h o) :
    h ∈ c'.mem.socks := by
  cases hg with
  | had hold =>
    refine still_open hr hs ((hO.iff h).mpr ⟨o, hold⟩) (fun t hp hp' => ?_) fun t i y hp hp' he => ?_
    · obtain rfl := hO.one h o (.inl t) hold (congrArg hand hp)
      cases (congrArg hand hp').symm.trans ho
    · rw [relSock_of_close hok hskip hr hp] at he
      subst he
      obtain rfl := hO.one _ o (.inr i) hold (owns_of_close hp)
      exact closed_slot hr' hp' ho
  | accept t _ _ hm => exact hm
  | pop t i hp hp' =>
    have hold : Owns c h (.inl t) := congrArg hand hp
    refine still_open hr hs ((hO.iff h).mpr ⟨_, hold⟩) (fun u hq hq' => ?_) fun u j y hq hq' he => ?_
    · obtain rfl : t = u := Sum.inl.inj (hO.one h _ _ hold (congrArg hand hq))
      cases hp'.symm.trans hq'
    · rw [relSock_of_close hok hskip hr hq] at he
      subst he
      cases hO.one _ _ (.inr j) hold (owns_of_close hq)

omit [DecidableEq τ] [Fintype τ] hok hskip in
lemma owned_boot [DecidableEq τ] : Owned (boot b a w) := by
  have hno : ∀ h o, ¬Owns (boot b a w) h o := by
    rintro h (t | k) ho
    · change hand (if t = a then _ else if w t = true then _ else _) = some h at ho
      split_ifs at ho <;> cases ho
    · obtain ⟨t, ho⟩ := ho
      have hf := fresh_boot b a w k
      rw [hf.idle t, Keeps, hf.h] at ho
      rcases ho with ho | ⟨-, ho | ho⟩
      · exact ho
      · cases ho
      · exact ho
  exact ⟨fun h => ⟨fun hm => absurd hm List.not_mem_nil, fun ⟨o, ho⟩ => (hno h o ho).elim⟩,
    fun h o _ ho => (hno h o ho).elim⟩

include hok hskip in
lemma owned_step (hr : Reach step (avoids bad) (boot b a w) c) (hx : avoids bad c x) (hs : step c x = some c')
    (hO : Owned c) : Owned c' := by
  have hr' : Reach step (avoids bad) (boot b a w) c' := .step hr hx hs
  have hgets : ∀ {h o}, Owns c' h o → Gets c c' x h o := fun {h o} ho => by
    cases o with
    | inl t => exact gets_hand hs ho
    | inr k => exact gets_slot hok hskip hr hs ho
  refine ⟨fun h => ⟨fun hm => ?_, fun ⟨o, ho⟩ => ?_⟩, fun h o o' ho ho' => ?_⟩
  · -- an open socket still has its owner, or was accepted by the step
    by_cases hold : h ∈ c.mem.socks
    · obtain ⟨t | k, ho⟩ := (hO.iff h).mp hold
      · rcases step_hand hr hs ho hm with ⟨u, hu⟩ | ⟨k, -, hk⟩
        · exact ⟨.inl u, hu⟩
        · exact ⟨.inr k, hk⟩
      · obtain ⟨t, ho⟩ := ho
        exact ⟨.inr k, step_keeps hr hok hskip hs ho hm⟩
    · rcases step_socks hs with ⟨he, -⟩ | ⟨t, ch, -, hss, -⟩
      · exact absurd (he ▸ hm) hold
      · cases hss with
        | same he => exact absurd (he ▸ hm) hold
        | accept s _ _ _ hp' he =>
          rw [he] at hm
          rw [(List.mem_cons.mp hm).resolve_right hold]
          exact ⟨.inl t, congrArg hand hp'⟩
        | refuse s _ _ he => exact absurd (List.mem_of_mem_erase (he ▸ hm)) hold
        | pop _ _ _ _ _ he => exact absurd (he ▸ hm) hold
        | close i y _ _ he => exact absurd (List.mem_of_mem_erase (he ▸ hm)) hold
  · exact open_of_gets hok hskip hr hr' hs hO (hgets ho) ho
  · have hno : ∀ t i, (c.loc t).pc = .acc (.pop h) → (c'.loc t).pc = .accOn i (.init h .ioCount) →
        ¬Owns c' h (.inl t) := by
      intro t i _ hp' ho
      cases (congrArg hand hp').symm.trans ho
    cases hgets ho with
    | had hold =>
      cases hgets ho' with
      | had hold' => exact hO.one h o o' hold hold'
      | accept t _ hn _ => exact absurd ((hO.iff h).mpr ⟨o, hold⟩) hn
      | pop t i hp hp' =>
        obtain rfl := hO.one h o (.inl t) hold (congrArg hand hp)
        exact absurd ho (hno t i hp hp')
    | accept t hxt hn _ =>
      cases hgets ho' with
      | had hold' => exact absurd ((hO.iff h).mpr ⟨o', hold'⟩) hn
      | accept u hxu _ _ =>
        rw [hxt] at hxu
        injection hxu with htu
        rw [htu]
      | pop u i hp _ => exact absurd ((hO.iff h).mpr ⟨.inl u, congrArg hand hp⟩) hn
    | pop t i hp hp' =>
      have hold : Owns c h (.inl t) := congrArg hand hp
      cases hgets ho' with
      | had hold' =>
        obtain rfl := hO.one h o' (.inl t) hold' hold
        exact absurd ho' (hno t i hp hp')
      | accept u _ hn _ => exact absurd ((hO.iff h).mpr ⟨_, hold⟩) hn
      | pop u j hq hq' =>
        obtain rfl : t = u := Sum.inl.inj (hO.one h _ _ hold (congrArg hand hq))
        rw [hp'] at hq'
        injection hq' with hij
        rw [hij]

/-- In every run without a skipped `RELEASE` job. -/
lemma reach_owned (hok : .ok ∉ bad) (hskip : .skipRelease ∈ bad) (hr : Reach step (avoids bad) (boot b a w) c) :
    Owned c := by
  refine Reach.inv (I := Owned) owned_boot (fun c c' x hc hO hx hs => ?_) hr
  exact owned_step hok hskip hc hx hs hO

/-- The client sockets. None is open twice; each that is open has one owner, and what is owned is
open: so the socket of a session stays open until its own release, sessions on different slots have
different sockets, and `closesocket` closes the socket that the session was accepted with. -/
structure SocksOwned (c : Config τ) : Prop where
  nodup : c.mem.socks.Nodup
  owned : ∀ h, h ∈ c.mem.socks ↔ ∃ o, Owns c h o
  one : ∀ h o o', Owns c h o → Owns c h o' → o = o'
  live : ∀ k, (c.mem.hist k).phase = .live → (c.mem.hist k).handle ∈ c.mem.socks
  differ : ∀ i j, i ≠ j → (c.mem.hist i).phase = .live → (c.mem.hist j).phase = .live →
    (c.mem.hist i).handle ≠ (c.mem.hist j).handle
  closes : ∀ t k y, (c.loc t).pc = .rel k .close y →
    (c.mem.sess k).relSocket = (c.mem.hist k).handle ∧ (c.mem.hist k).handle ∈ c.mem.socks

omit [DecidableEq τ] [Fintype τ] hok hskip in
lemma owns_of_live (t : τ) (hp : (c.mem.hist k).phase = .live) : Owns c (c.mem.hist k).handle (.inr k) :=
  ⟨t, .inr ⟨rfl, .inl hp⟩⟩

include hok hskip in
lemma reach_socksOwned (hr : Reach step (avoids bad) (boot b a w) c) : SocksOwned c := by
  have hO := reach_owned hok hskip hr
  refine ⟨reach_nodup hr, hO.iff, hO.one, fun k hp => (hO.iff _).mpr ⟨_, owns_of_live a hp⟩,
    fun i j hij hi hj he => ?_, fun t k y hp => ?_⟩
  · have hone := hO.one _ (.inr i) (.inr j) (owns_of_live a hi) (he ▸ owns_of_live a hj)
    exact hij (Sum.inr.inj hone)
  · exact ⟨relSock_of_close hok hskip hr hp, (hO.iff _).mpr ⟨_, owns_of_close hp⟩⟩

/-- **Sockets have one owner.** In every run in which no worker takes a `RELEASE` job for a slot whose
`socket` is `INVALID_SOCKET`. -/
theorem socks_owned (hr : Reach step (avoids [.skipRelease]) (boot b a w) c) : SocksOwned c :=
  reach_socksOwned (by decide) (by decide) hr

end Reach

/-- A worker is about to close the socket of a client that was disconnected, and nobody else has it. -/
def atClose (c : Config (Fin 4)) : Bool :=
  match (c.loc 1).pc with
  | .rel 0 .close false => decide (c.mem.socks = [0x1A4])
  | _ => false

lemma pc_of_atClose {c : Config (Fin 4)} (h : atClose c = true) :
    (c.loc 1).pc = .rel 0 .close false ∧ c.mem.socks = [0x1A4] := by
  unfold atClose at h
  split at h
  case h_1 hp => exact ⟨hp, of_decide_eq_true h⟩
  case h_2 => cases h

theorem socks_owned_close : ∃ c, Reach step (avoids [.skipRelease]) crew c ∧
    (c.loc 1).pc = .rel 0 .close false ∧ c.mem.socks = [0x1A4] ∧ SocksOwned c := by
  obtain ⟨c, hr, hp⟩ := reach_avoids (B := [.skipRelease]) (b := crew) (disconnected 0x1A4 ++ ticks 1 6) (p := atClose)
    (by decide +kernel)
  obtain ⟨h1, h2⟩ := pc_of_atClose hp
  exact ⟨c, hr, h1, h2, socks_owned hr⟩

end LoginServerChat.SocketOwners
