import LoginServerChat.CallbackRun

/-!
The steps of the callbacks' own code: the `insert` of `OnClientJoin` finds no entry, and
`FindCharacter` and `OnClientLeave` find the one of their session.
-/

namespace LoginServerChat.CallbackCode

open NetPacket NetState NetStep SlotStep SlotView SlotRun SlotRefs SlotPhase SlotLive SlotRelease
  SlotJoin SlotSend SendPath SlotRecv OwnCalls Contents CallbackStage StaleIds Callbacks CallbackRun
  Runs

variable {τ : Type*} {s s' : State τ} {t u : τ} {x : Kind} {k : ℕ} {g : Stage} {id : SessionID}
  {p q : ℕ} {z : CbPc} {st : ℕ → Stage} {H : List ℕ} [DecidableEq τ] [Fintype τ]


omit [Fintype τ] in
/-- A thread on another slot, or in `OnRecv`, has no say in who is enrolled. -/
lemma enrolled_goto (hnet : s'.net = s.net) (hpc : ∀ u ≠ t, s'.pc u = s.pc u)
    (ht : (s'.pc t = .done ↔ s.pc t = .done) ∨ callback (s.net.loc t).pc = some (.recv, k) ∨
      ∃ y j, callback (s.net.loc t).pc = some (y, j) ∧ j ≠ k) :
    Enrolled s' k g ↔ Enrolled s k g := by
  have hsame : ∀ u y, y ≠ .recv → callback (s.net.loc u).pc = some (y, k) →
      (s'.pc u = .done ↔ s.pc u = .done) := by
    intro u y hy hu
    by_cases hut : u = t
    · subst hut
      rcases ht with ht | ht | ⟨y', j, ht, hj⟩
      · exact ht
      · exact absurd (Prod.mk.inj (Option.some.inj (hu.symm.trans ht))).1 hy
      · exact absurd (Prod.mk.inj (Option.some.inj (ht.symm.trans hu))).2 hj
    · rw [hpc u hut]
  cases g
  case joining =>
    refine exists_congr fun u => ?_
    rw [hnet]
    exact and_congr_right fun hu => hsame u _ Kind.noConfusion hu
  case leaving =>
    refine exists_congr fun u => ?_
    rw [hnet]
    exact and_congr_right fun hu => not_congr (hsame u _ Kind.noConfusion hu)
  all_goals exact Iff.rfl

omit [DecidableEq τ] in
/-- A `Character` in the map or on its way into it is not in the pool. -/
lemma held_of_mem (hS : Sound H s st)
    (h : (∃ id, (id, p) ∈ s.characterMap) ∨ ∃ u id, s.pc u = .insert id p) : p ∈ s.held := by
  rw [← List.count_pos_iff, hS.held]
  rcases h with ⟨id, h⟩ | ⟨u, id, h⟩
  · have h1 : 0 < s.characterMap.countP (·.2 = p) := List.countP_pos_iff.mpr ⟨_, h, by simp⟩
    omega
  · have h1 := le_sum (fun v => CbPc.inserts p (s.pc v)) u
    have h2 : CbPc.inserts p (s.pc u) = 1 := by rw [h]; exact if_pos rfl
    omega

omit [DecidableEq τ] in
lemma entry_of_enrolled (hS : Sound H s st) (hk : (s.net.mem.hist k).ever = true)
    (hid : slotOf (idAt s k) = k) (he : Enrolled s k (st k)) : ∃ p, (idAt s k, p) ∈ s.characterMap := by
  have hmem := (hS.entries (idAt s k)).mpr (by rw [hid]; exact ⟨⟨by rw [hid]; exact hk, by rw [hid]; rfl⟩, he⟩)
  obtain ⟨⟨y, p⟩, hp, rfl⟩ := List.mem_map.mp hmem
  exact ⟨p, hp⟩

/-- What a step of the code of thread `t` leaves the session layer with: it goes to `z`. -/
structure Coded (s : State τ) (t : τ) (z : CbPc) (s' : State τ) : Prop where
  net : s'.net = s.net
  log : s'.log = s.log
  pc : s'.pc = Function.update s.pc t z

omit [Fintype τ] in
lemma Coded.pc_other (h : Coded s t z s') (hu : u ≠ t) : s'.pc u = s.pc u := by
  rw [h.pc, Function.update_of_ne hu]

omit [Fintype τ] in
lemma Coded.pc_self (h : Coded s t z s') : s'.pc t = z := by
  rw [h.pc, Function.update_self]

omit [Fintype τ] in
lemma Coded.idAt (h : Coded s t z s') (k : ℕ) : idAt s' k = idAt s k := by
  unfold CallbackRun.idAt
  rw [h.net]

lemma Coded.follow (h : Coded s t z s') (hS : Sound H s st) (id : SessionID) :
    Callbacks.follow id s'.log = some (stageOf s'.net st id) := by
  rw [h.log, h.net]
  exact hS.log id

lemma Coded.joins (h : Coded s t z s') (hS : Sound H s st) (id : SessionID) :
    Callbacks.joins id s'.log = (view s'.net.mem (slotOf id)).issued.count id := by
  rw [h.log, h.net]
  exact hS.joins id

lemma Coded.inserts (h : Coded s t z s') (p : ℕ) :
    ∃ r, ∑ u, CbPc.inserts p (s.pc u) = r + CbPc.inserts p (s.pc t) ∧
      ∑ u, CbPc.inserts p (s'.pc u) = r + CbPc.inserts p z := by
  obtain ⟨r, h1, h2⟩ := sum_split (CbPc.inserts p) s.pc t
  rw [h.pc]
  exact ⟨r, h1, h2 z⟩

omit [Fintype τ] in
/-- The other threads keep their places if their entries and their `Character`s stay. -/
lemma Coded.placed_other (h : Coded s t z s') (hu : u ≠ t) (hP : Placed s u)
    (hmap : ∀ k p, callback (s.net.loc u).pc = some (.recv, k) → (CallbackRun.idAt s k, p) ∈ s.characterMap →
      (CallbackRun.idAt s k, p) ∈ s'.characterMap)
    (hsid : ∀ id p, s.pc u = .insert id p → s'.sid p = s.sid p) : Placed s' u := by
  unfold Placed at hP ⊢
  rw [h.net, h.pc_other hu]
  simp only [h.idAt]
  split
  case h_1 hj => simpa only [hj] using hP
  case h_2 k hj =>
    simp only [hj] at hP
    refine hP.imp id (Or.imp (fun ⟨p, hp, hps⟩ => ⟨p, hp, ?_⟩) id)
    rw [hsid _ p hp]
    exact hps
  case h_3 k hj =>
    simp only [hj] at hP
    exact hP.imp id fun ⟨p, hp, hps⟩ => ⟨p, hp, hmap k p hj hps⟩
  case h_4 k hj => simpa only [hj] using hP

omit [Fintype τ] in
/-- It changes nothing for the entries of the slots that it has no callback of. -/
lemma Coded.enrolled_other (h : Coded s t z s') (hc : callback (s.net.loc t).pc = some (x, k))
    {j : ℕ} (hj : j ≠ k) : Enrolled s' j g ↔ Enrolled s j g :=
  enrolled_goto h.net (fun _ hu => h.pc_other hu) (.inr (.inr ⟨x, k, hc, hj.symm⟩))

/-- A step of the code of `OnRecv`, to a point where it may be. -/
lemma sound_recv (hS : Sound H s st) (h : Coded s t z s') (hM : s'.characterMap = s.characterMap)
    (hsid : s'.sid = s.sid) (hheld : s'.held = s.held)
    (hc : callback (s.net.loc t).pc = some (.recv, k))
    (hz : ∃ p, (z = .deref (idAt s k) p ∨ z = .handle (idAt s k) p) ∧ (idAt s k, p) ∈ s.characterMap) :
    Sound H s' st := by
  have hP := hS.placed t
  unfold Placed at hP
  simp only [hc] at hP
  refine ⟨h.net ▸ hS.staged, h.follow hS, h.joins hS, fun u => ?_, hM ▸ hS.keys, fun id => ?_, ?_,
    fun p => ?_, hheld ▸ hS.nodup⟩
  · by_cases hut : u = t
    · subst hut
      unfold Placed
      simp only [h.net, hc, h.pc_self, h.idAt, hM]
      exact .inr hz
    · exact h.placed_other hut (hS.placed u) (fun _ _ _ hp => hM ▸ hp) fun _ _ _ => by rw [hsid]
  · rw [hM, h.net, hS.entries]
    refine and_congr_right fun _ => Iff.symm ?_
    by_cases hk : slotOf id = k
    · exact enrolled_goto h.net (fun _ hu => h.pc_other hu) (.inr (.inl (by rw [hk]; exact hc)))
    · exact h.enrolled_other hc hk
  · rw [hM, hsid]
    exact hS.sid
  · obtain ⟨r, h1, h2⟩ := h.inserts p
    have h3 : CbPc.inserts p (s.pc t) = 0 := by
      rcases hP with hP | ⟨_, hP | hP, -⟩ <;> rw [hP] <;> rfl
    have h4 : CbPc.inserts p z = 0 := by
      obtain ⟨_, rfl | rfl, -⟩ := hz <;> rfl
    rw [h2, h4, ← h3, ← h1, hheld, hM]
    exact hS.held p

/-- `Character::Alloc` in `OnClientJoin`. -/
lemma sound_alloc (hS : Sound H s st) (h : Coded s t (.insert id q) s') (ha : s.pc t = .alloc id)
    (hq : q ∉ s.held) (hM : s'.characterMap = s.characterMap)
    (hsid : s'.sid = Function.update s.sid q id) (hheld : s'.held = q :: s.held) : Sound H s' st := by
  obtain ⟨k, hc, rfl⟩ := placed_alloc (hS.placed t) ha
  have hkeep : ∀ p, p ∈ s.held → s'.sid p = s.sid p := by
    intro p hp
    rw [hsid]
    exact Function.update_of_ne (fun hpq => hq (by rw [← hpq]; exact hp)) _ _
  refine ⟨h.net ▸ hS.staged, h.follow hS, h.joins hS, fun u => ?_, hM ▸ hS.keys, fun id => ?_,
    fun x hx => ?_, fun p => ?_, ?_⟩
  · by_cases hut : u = t
    · subst hut
      unfold Placed
      simp only [h.net, hc, h.pc_self, h.idAt, hsid]
      exact .inr (.inl ⟨q, rfl, Function.update_self _ _ _⟩)
    · exact h.placed_other hut (hS.placed u) (fun _ _ _ hp => hM ▸ hp)
        fun _ p hp => hkeep p (held_of_mem hS (.inr ⟨u, _, hp⟩))
  · rw [hM, h.net, hS.entries]
    refine and_congr_right fun _ => Iff.symm ?_
    refine enrolled_goto (t := t) h.net (fun _ hu => h.pc_other hu) (.inl ?_)
    rw [h.pc_self, ha]
    simp
  · rw [hM] at hx
    rw [hkeep x.2 (held_of_mem hS (.inl ⟨x.1, hx⟩))]
    exact hS.sid x hx
  · obtain ⟨r, h1, h2⟩ := h.inserts p
    have h3 : CbPc.inserts p (s.pc t) = 0 := by rw [ha]; rfl
    have hp := hS.held p
    rw [h2, hheld, hM, List.count_cons]
    simp only [CbPc.inserts, beq_iff_eq]
    omega
  · rw [hheld]
    exact List.nodup_cons.mpr ⟨hq, hS.nodup⟩

omit [DecidableEq τ] in
lemma joining_of_callback (hS : Sound H s st) (hc : callback (s.net.loc t).pc = some (.join, k)) :
    st k = .joining := by
  have := running_of_callback (hS.staged k) hc
  cases hg : st k <;> simp [hg, Stage.running] at this ⊢

/-- The `insert` of `OnClientJoin` finds no entry. -/
lemma insert_new (hS : Sound H s st)
    (hcur : ∀ x k, callback (s.net.loc t).pc = some (x, k) →
      (s.net.mem.hist k).ever = true ∧ slotOf (idAt s k) = k)
    (ha : s.pc t = .insert id p) : s.characterMap.lookup id = none := by
  obtain ⟨k, hc, rfl, -⟩ := placed_insert (hS.placed t) ha
  obtain ⟨-, hk⟩ := hcur _ k hc
  -- the thread itself has not come to the end of `OnClientJoin`, and no other is in it
  have hno : idAt s k ∉ s.characterMap.map Prod.fst := by
    intro hm
    obtain ⟨-, he⟩ := (hS.entries _).mp hm
    rw [hk, joining_of_callback hS hc] at he
    obtain ⟨u, hu, hd⟩ := he
    rw [callback_unique (hS.staged k) hc hu, ha] at hd
    exact CbPc.noConfusion hd
  rw [← Option.isNone_iff_eq_none]
  exact (lookup_isNone hS.keys).mpr fun r hr => hno (key_mem hr)

/-- `characterMap.insert` in `OnClientJoin`. -/
lemma sound_insert (hS : Sound H s st)
    (hcur : ∀ x k, callback (s.net.loc t).pc = some (x, k) →
      (s.net.mem.hist k).ever = true ∧ slotOf (idAt s k) = k)
    (h : Coded s t .done s') (ha : s.pc t = .insert id p)
    (hM : s'.characterMap = insertMap s.characterMap id p)
    (hsid : s'.sid = s.sid) (hheld : s'.held = s.held) : Sound H s' st := by
  have hnone := insert_new hS hcur ha
  obtain ⟨k, hc, rfl, hp⟩ := placed_insert (hS.placed t) ha
  obtain ⟨hev, hk⟩ := hcur _ k hc
  have hst := joining_of_callback hS hc
  have hcurrent : Current s.net (idAt s k) := ⟨by rw [hk]; exact hev, by rw [hk]; rfl⟩
  have hno : idAt s k ∉ s.characterMap.map Prod.fst := by
    intro hm
    obtain ⟨⟨y, r⟩, hr, rfl⟩ := List.mem_map.mp hm
    exact absurd (hnone.symm.trans ((lookup_iff hS.keys).mpr hr)) (Option.some_ne_none r).symm
  have hcons : s'.characterMap = (idAt s k, p) :: s.characterMap := by
    rw [hM, insertMap, if_pos (by rw [hnone]; rfl)]
  refine ⟨h.net ▸ hS.staged, h.follow hS, h.joins hS, fun u => ?_, ?_, fun id => ?_, ?_, fun r => ?_,
    hheld ▸ hS.nodup⟩
  · by_cases hut : u = t
    · subst hut
      unfold Placed
      simp only [h.net, hc, h.pc_self]
      exact .inr (.inr trivial)
    · refine h.placed_other hut (hS.placed u) (fun _ _ _ hr => ?_) fun _ _ _ => by rw [hsid]
      rw [hcons]
      exact List.mem_cons_of_mem _ hr
  · rw [hcons, List.map_cons, List.nodup_cons]
    exact ⟨hno, hS.keys⟩
  · rw [hcons, List.map_cons, List.mem_cons, hS.entries, h.net]
    by_cases hj : slotOf id = k
    · by_cases hid : id = idAt s k
      · subst hid
        rw [hk, hst]
        refine ⟨fun _ => ⟨hcurrent, t, by rw [h.net]; exact hc, h.pc_self⟩, fun _ => .inl rfl⟩
      · have hnc : ¬Current s.net id := by
          rintro ⟨-, hid'⟩
          rw [hj] at hid'
          exact hid hid'.symm
        simp [hid, hnc]
    · have hid : id ≠ idAt s k := by
        rintro rfl
        exact hj hk
      rw [h.enrolled_other hc hj]
      simp [hid]
  · rw [hcons, hsid]
    intro x hx
    rcases List.mem_cons.mp hx with rfl | hx
    · exact hp
    · exact hS.sid x hx
  · obtain ⟨m, h1, h2⟩ := h.inserts r
    have h3 : CbPc.inserts r (s.pc t) = if p = r then 1 else 0 := by rw [ha]; rfl
    have h4 : CbPc.inserts r .done = 0 := rfl
    have hr := hS.held r
    rw [h2, hheld, hcons, List.countP_cons]
    simp only [decide_eq_true_eq]
    omega

/-- `OnClientLeave` finds the entry, takes it out and gives the `Character` back. -/
lemma sound_erase (hS : Sound H s st)
    (hcur : ∀ u x k, callback (s.net.loc u).pc = some (x, k) →
      (s.net.mem.hist k).ever = true ∧ slotOf (idAt s k) = k)
    (h : Coded s t .done s') (ha : s.pc t = .erase id) (hp : (id, p) ∈ s.characterMap)
    (hM : s'.characterMap = eraseMap s.characterMap id)
    (hsid : s'.sid = s.sid) (hheld : s'.held = s.held.erase p) : Sound H s' st := by
  obtain ⟨k, hc, rfl⟩ := placed_erase (hS.placed t) ha
  obtain ⟨hev, hk⟩ := hcur t _ k hc
  have hst : st k = .leaving := by
    have := running_of_callback (hS.staged k) hc
    cases hg : st k <;> simp [hg, Stage.running] at this ⊢
  refine ⟨h.net ▸ hS.staged, h.follow hS, h.joins hS, fun u => ?_, ?_, fun id => ?_, ?_, fun r => ?_, ?_⟩
  · by_cases hut : u = t
    · subst hut
      unfold Placed
      simp only [h.net, hc, h.pc_self]
      exact .inr trivial
    · refine h.placed_other hut (hS.placed u) (fun j r hj hr => ?_) fun _ _ _ => by rw [hsid]
      -- nobody is in `OnRecv` on the slot that this thread leaves
      rw [hM, mem_eraseMap]
      refine ⟨hr, fun hid => hut ?_⟩
      have hjk : j = k := by rw [← (hcur u _ j hj).2, hid, hk]
      subst hjk
      exact callback_unique (hS.staged j) hc hj
  · rw [hM]
    exact eraseMap_nodup hS.keys
  · have hkeys : id ∈ s'.characterMap.map Prod.fst ↔ id ∈ s.characterMap.map Prod.fst ∧ id ≠ idAt s k := by
      rw [hM]
      simp only [List.mem_map, Prod.exists, mem_eraseMap, exists_and_right, exists_eq_right]
    rw [hkeys, hS.entries, h.net]
    by_cases hj : slotOf id = k
    · have hleft : ¬Enrolled s' k .leaving := by
        rintro ⟨u, hu, hd⟩
        rw [h.net] at hu
        rw [callback_unique (hS.staged k) hc hu, h.pc_self] at hd
        exact hd rfl
      rw [hj, hst]
      constructor
      · rintro ⟨⟨⟨_, hid⟩, _⟩, hne⟩
        refine absurd ?_ hne
        rw [← hid, hj]
        rfl
      · rintro ⟨_, he⟩
        exact absurd he hleft
    · have hid : id ≠ idAt s k := by
        rintro rfl
        exact hj hk
      rw [h.enrolled_other hc hj]
      simp [hid]
  · rw [hM, hsid]
    intro x hx
    exact hS.sid x (List.mem_of_mem_filter hx)
  · obtain ⟨m, h1, h2⟩ := h.inserts r
    have h3 : CbPc.inserts r (s.pc t) = 0 := by rw [ha]; rfl
    have h4 : CbPc.inserts r .done = 0 := rfl
    have hr := hS.held r
    have hcount := countP_eraseMap (q := r) hS.keys hp
    rw [h2, hheld, hM, List.count_erase]
    simp only [beq_iff_eq]
    by_cases hpr : p = r
    · rw [if_pos hpr] at hcount ⊢
      omega
    · rw [if_neg hpr] at hcount ⊢
      omega
  · rw [hheld]
    exact hS.nodup.erase p

omit [DecidableEq τ] in
/-- `FindCharacter` finds the entry of a session that the thread is in a callback of. -/
lemma entry_found (hS : Sound H s st)
    (hcur : ∀ u x k, callback (s.net.loc u).pc = some (x, k) →
      (s.net.mem.hist k).ever = true ∧ slotOf (idAt s k) = k)
    (hc : callback (s.net.loc t).pc = some (x, k)) (hx : x ≠ .join)
    (hd : x = .leave → s.pc t ≠ .done) : ∃ p, s.characterMap.lookup (idAt s k) = some p := by
  obtain ⟨hev, hk⟩ := hcur t x k hc
  have hrun := running_of_callback (hS.staged k) hc
  have he : Enrolled s k (st k) := by
    cases x
    case join => exact absurd rfl hx
    case recv =>
      obtain hg : st k = .receiving := by cases hg : st k <;> simp [hg, Stage.running] at hrun ⊢
      rw [hg]
      trivial
    case leave =>
      obtain hg : st k = .leaving := by cases hg : st k <;> simp [hg, Stage.running] at hrun ⊢
      rw [hg]
      exact ⟨t, hc, hd rfl⟩
  obtain ⟨p, hp⟩ := entry_of_enrolled hS hev hk he
  exact ⟨p, (lookup_iff hS.keys).mpr hp⟩

omit [Fintype τ] in
lemma codeStep_net (h : codeStep s t q = some s') : s'.net = s.net := by
  revert h
  fun_cases codeStep s t q <;> simp only [Option.some.injEq, reduceCtorEq, false_implies]
  all_goals
    rintro rfl
    rfl

/-- **A step of the code of a callback.** -/
lemma sound_code (hS : Sound H s st)
    (hcur : ∀ u x k, callback (s.net.loc u).pc = some (x, k) →
      (s.net.mem.hist k).ever = true ∧ slotOf (idAt s k) = k)
    (h : codeStep s t q = some s') : Sound H s' st := by
  unfold codeStep at h
  split at h
  · exact absurd h.symm (Option.some_ne_none _)
  have hgoto : ∀ (s₁ : State τ) z, s₁.net = s.net → s₁.log = s.log → s₁.pc = s.pc →
      Coded s t z (goto s₁ t z) := by
    intro s₁ z h1 h2 h3
    exact ⟨h1, h2, by rw [← h3]; rfl⟩
  split at h
  case h_1 id ha =>
    split at h
    · exact absurd h.symm (Option.some_ne_none _)
    case isFalse hq =>
      obtain rfl := Option.some.inj h
      exact sound_alloc hS (hgoto _ _ rfl rfl rfl) ha hq rfl rfl rfl
  case h_2 id p ha =>
    obtain rfl := Option.some.inj h
    have hC := hgoto { s with characterMap := insertMap s.characterMap id p } .done rfl rfl rfl
    exact sound_insert hS (hcur t) hC ha rfl rfl rfl
  case h_3 id ha =>
    obtain ⟨k, hc, rfl⟩ := placed_find (hS.placed t) ha
    obtain ⟨p, hp⟩ := entry_found hS hcur hc Kind.noConfusion fun h => Kind.noConfusion h
    rw [hp] at h
    obtain rfl := Option.some.inj h
    exact sound_recv hS (hgoto _ _ rfl rfl rfl) rfl rfl rfl hc
      ⟨p, .inl rfl, (lookup_iff hS.keys).mp hp⟩
  case h_4 id p ha =>
    obtain ⟨k, hc, rfl, hp⟩ := placed_found (hS.placed t) (.inl ha)
    obtain rfl := Option.some.inj h
    exact sound_recv hS (hgoto _ _ rfl rfl rfl) rfl rfl rfl hc ⟨p, .inr rfl, hp⟩
  case h_5 id ha =>
    obtain ⟨k, hc, rfl⟩ := placed_erase (hS.placed t) ha
    obtain ⟨p, hp⟩ := entry_found hS hcur hc Kind.noConfusion fun _ => by rw [ha]; exact CbPc.noConfusion
    rw [hp] at h
    obtain rfl := Option.some.inj h
    exact sound_erase hS hcur (hgoto _ _ rfl rfl rfl) ha ((lookup_iff hS.keys).mp hp) rfl rfl rfl
  all_goals exact absurd h.symm (Option.some_ne_none _)

end LoginServerChat.CallbackCode
