import LoginServerChat.PacketStep

/-!
Packets and their owners. The count of a packet is the number of its owners, it is in the pool
exactly while nobody owns it, and a session that is released has dropped each of its packets once.
-/

namespace LoginServerChat.PacketRefs

open NetPacket NetState NetStep SlotStep SlotView SlotRun SlotRefs SlotPhase SlotLive SlotRelease
  SlotJoin SlotSock SlotSend SendPath SlotReuse PacketStep Runs

/-! ### Threads keep what they need -/

variable {m m' : Mem} {l l' : Local} {i p : ℕ} {ch : Choice}

lemma holding_idle (ha : l.api = .idle) (hp : Pc.needs l.pc = none) : Holding l := by
  refine ⟨fun i id q p h => ?_, fun p h => ?_⟩
  · rw [ha] at h
    exact Api.noConfusion h
  · rw [hp] at h
    exact absurd h (Option.some_ne_none p).symm

/-- What contents code has to spare can go. -/
lemma holding_erase {q : ℕ} (hl : Holding l) (ha : l.api = .idle) (hc : Local.callback l = true)
    (hq : q ∈ Local.spare l) : Holding { l with holds := l.holds.erase q } := by
  refine ⟨fun i id x p h => ?_, fun p h => ?_⟩
  · exact Api.noConfusion (ha.symm.trans h)
  · have hp := hl.pc p h
    by_cases hpq : p = q
    · subst hpq
      unfold Local.callback at hc
      unfold Local.spare at hq
      dsimp only at h
      split at hc
      case h_4 i p' hpc =>
        rw [hpc] at hq h
        cases h
        exact hq
      case h_6 => exact absurd hc Bool.false_ne_true
      all_goals
        rename_i hpc
        rw [hpc] at h
        exact absurd h (Option.some_ne_none p).symm
    · exact (List.mem_erase_of_ne hpq).mpr hp

lemma holding_cons {q : ℕ} (hl : Holding l) : Holding { l with holds := q :: l.holds } :=
  ⟨fun i id x p h hn => List.mem_cons_of_mem _ (hl.api i id x p h hn),
    fun p h => List.mem_cons_of_mem _ (hl.pc p h)⟩

lemma holding_freePacket {q : ℕ} (hl : Holding l) : Holding (freePacket m l q).2 := by
  simp only [NetStep.freePacket]
  split
  · exact ⟨hl.api, hl.pc⟩
  · exact hl

lemma contentsStep_holding (hl : Holding l) (ha : l.api = .idle) (hc : Local.callback l = true)
    (h : contentsStep m l ch = some (m', l')) : Holding l' := by
  revert h
  fun_cases contentsStep m l ch <;>
    try simp only [Option.some.injEq, Prod.mk.injEq, reduceCtorEq, false_implies, and_imp]
  case case1 q =>
    simp only [allocPacket]
    split <;> simp only [Option.some.injEq, Prod.mk.injEq, reduceCtorEq, false_implies, and_imp]
    rintro rfl rfl
    exact holding_cons hl
  case case2 q hq =>
    intro h
    have := holding_freePacket (m := m) (q := q) (holding_erase hl ha hc hq)
    rwa [h] at this
  case case4 =>
    rintro rfl rfl
    exact hl
  case case6 id q hq =>
    rintro rfl rfl
    refine ⟨fun i id' x p h hn => ?_, hl.pc⟩
    cases h
    cases hn
    exact hq.2
  case case8 =>
    rintro rfl rfl
    refine ⟨fun i id' x p h hn => ?_, hl.pc⟩
    cases h
    exact absurd hn (Option.some_ne_none p).symm

lemma apiStep_holding {id : SessionID} {q : ApiPc} (hl : Holding l) (ha : l.api = .on i id q)
    (h : apiStep m l i id q ch = some (m', l')) : Holding l' := by
  have hcall : ∀ a, (∀ j id' x p, a = .on j id' x → ApiPc.needs x = some p → ApiPc.needs q = some p) →
      Holding (Local.call l a) :=
    fun a hn => ⟨fun j id' x p h hx => hl.api i id q p ha (hn j id' x p h hx), hl.pc⟩
  revert h
  fun_cases apiStep m l i id q ch <;>
    simp only [Option.some.injEq, Prod.mk.injEq, reduceCtorEq, false_implies, and_imp]
  case case1 k | case3 k _ =>
    rintro rfl rfl
    refine hcall _ fun j id' x p h hn => ?_
    cases h
    cases k <;> exact hn
  all_goals
    rintro rfl rfl
    refine hcall _ fun j id' x p h hn => ?_
    cases h <;> first
      | exact hn
      | exact absurd hn (Option.some_ne_none p).symm

lemma sendStep_holding {q : SendPc} (ha : l.api = .idle)
    (h : sendStep m l i q ch = some (m', l')) : Holding l' := by
  revert h
  fun_cases sendStep m l i q ch <;>
    simp only [Option.some.injEq, Prod.mk.injEq, reduceCtorEq, false_implies, and_imp]
  all_goals
    rintro rfl rfl
    exact holding_idle ha rfl

lemma postStep_holding {q : PostPc} (ha : l.api = .idle)
    (h : postStep m l i q ch = some (m', l')) : Holding l' := by
  revert h
  fun_cases postStep m l i q ch <;>
    simp only [Option.some.injEq, Prod.mk.injEq, reduceCtorEq, false_implies, and_imp]
  all_goals
    rintro rfl rfl
    exact holding_idle ha rfl

lemma recvStep_holding {q : RecvPc} (hl : Holding l) (ha : l.api = .idle)
    (hp : l.pc = .work i (.recv q)) (h : recvStep m l i q ch = some (m', l')) : Holding l' := by
  -- the packet stays the one that was allocated
  have hnext : ∀ (w : WorkPc) (q : ℕ), Pc.needs l.pc = some q →
      Pc.needs (.work i w) = some q → Holding (Local.goto l (.work i w)) := by
    refine fun w q h1 h2 => ⟨fun _ _ _ _ h => Api.noConfusion (ha.symm.trans h), fun p h => ?_⟩
    rw [show p = q from Option.some.inj (h.symm.trans h2)]
    exact hl.pc q h1
  revert h
  fun_cases recvStep m l i q ch <;>
    try simp only [Option.some.injEq, Prod.mk.injEq, reduceCtorEq, false_implies, and_imp]
  case case9 =>
    simp only [allocPacket]
    split <;> simp only [Option.some.injEq, Prod.mk.injEq, reduceCtorEq, false_implies, and_imp]
    rintro rfl rfl
    refine ⟨fun _ _ _ _ h => Api.noConfusion (ha.symm.trans h), fun p h => ?_⟩
    cases h
    exact List.mem_cons_self
  case case16 => exact contentsStep_holding hl ha (by rw [Local.callback, hp])
  case case17 | case18 =>
    intro h
    obtain ⟨-, rfl⟩ := Prod.mk.inj h
    split <;> exact holding_idle ha rfl
  case case19 =>
    rintro rfl rfl
    refine ⟨fun _ _ _ p h hn => ?_, fun p h => absurd h (Option.some_ne_none p).symm⟩
    cases h
    exact absurd hn (Option.some_ne_none p).symm
  all_goals
    rintro rfl rfl
    first
      | exact holding_idle ha rfl
      | exact hnext _ _ (by rw [hp]; rfl) rfl

lemma workStep_holding {q : WorkPc} (hl : Holding l) (ha : l.api = .idle)
    (hp : l.pc = .work i q) (h : workStep m l i q ch = some (m', l')) : Holding l' := by
  revert h
  fun_cases workStep m l i q ch <;>
    try simp only [Option.some.injEq, Prod.mk.injEq, reduceCtorEq, false_implies, and_imp]
  case case1 j _ =>
    rintro rfl rfl
    exact holding_idle ha (by cases j <;> rfl)
  case case5 =>
    intro h
    obtain ⟨-, rfl⟩ := Prod.mk.inj h
    split <;> exact holding_idle ha rfl
  case case8 => exact sendStep_holding ha
  case case9 => exact recvStep_holding hl ha hp
  case case10 => exact postStep_holding ha
  all_goals
    rintro rfl rfl
    exact holding_idle ha rfl

lemma relStep_holding {q : RelPc} {x : Bool} (hl : Holding l) (ha : l.api = .idle)
    (hp : l.pc = .rel i q x) (h : relStep m l i x q ch = some (m', l')) : Holding l' := by
  revert h
  fun_cases relStep m l i x q ch <;>
    try simp only [Option.some.injEq, Prod.mk.injEq, reduceCtorEq, false_implies, and_imp]
  case case2 | case14 =>
    rintro rfl rfl
    exact holding_idle ha (by cases x <;> rfl)
  case case5 | case7 =>
    intro h
    obtain ⟨-, rfl⟩ := Prod.mk.inj h
    split <;> exact holding_idle ha rfl
  case case12 => exact contentsStep_holding hl ha (by rw [Local.callback, hp])
  all_goals
    rintro rfl rfl
    exact holding_idle ha rfl

lemma accOnStep_holding {q : AccOn} (hl : Holding l) (ha : l.api = .idle)
    (hp : l.pc = .accOn i q) (h : accOnStep m l i q ch = some (m', l')) : Holding l' := by
  revert h
  fun_cases accOnStep m l i q ch <;>
    try simp only [Option.some.injEq, Prod.mk.injEq, reduceCtorEq, false_implies, and_imp]
  case case1 q =>
    intro h
    obtain ⟨-, rfl⟩ := Prod.mk.inj h
    cases q <;> exact holding_idle ha rfl
  case case6 => exact contentsStep_holding hl ha (by rw [Local.callback, hp])
  all_goals
    rintro rfl rfl
    exact holding_idle ha rfl

lemma acceptStep_holding {q : AccPc} (hl : Holding l) (ha : l.api = .idle)
    (hp : l.pc = .acc q) (h : acceptStep m l q ch = some (m', l')) : Holding l' := by
  revert h
  fun_cases acceptStep m l q ch <;>
    try simp only [Option.some.injEq, Prod.mk.injEq, reduceCtorEq, false_implies, and_imp]
  case case8 => exact contentsStep_holding hl ha (by rw [Local.callback, hp])
  case case12 =>
    rintro rfl rfl
    exact hl
  all_goals
    rintro rfl rfl
    exact holding_idle ha rfl

lemma lstep_holding (hl : Holding l) (h : lstep m l ch = some (m', l')) : Holding l' := by
  unfold lstep at h
  split at h
  case h_1 =>
    split at h <;> simp only [Option.some.injEq, Prod.mk.injEq, reduceCtorEq] at h
    obtain ⟨-, rfl⟩ := h
    exact ⟨hl.api, hl.pc⟩
  case h_2 =>
    split at h
    case h_1 ha => exact apiStep_holding hl ha h
    case h_2 ha =>
      split at h
      case h_1 hp => exact contentsStep_holding hl ha (by rw [Local.callback, hp]) h
      case h_2 hp => exact acceptStep_holding hl ha hp h
      case h_3 hp => exact accOnStep_holding hl ha hp h
      case h_4 hp =>
        split at h <;> simp only [Option.some.injEq, Prod.mk.injEq, reduceCtorEq] at h
        obtain ⟨-, rfl⟩ := h
        exact holding_idle ha rfl
      case h_5 hp => exact workStep_holding hl ha hp h
      case h_6 hp => exact relStep_holding hl ha hp h

/-! ### The count of a packet -/

/-- As `Clear` and the constructor leave a packet. -/
def Cleared (q : Packet) : Prop :=
  q.writePos = headerSize ∧ q.readPos = headerSize ∧ q.isEncode = false

/-- The count of a packet that has `n` references in all, is `w` times in the pool and `d` times
on its way there. -/
structure Kept (q : Packet) (w n d : ℕ) : Prop where
  count : q.refCount = n
  pool : w + d = if n = 0 then 1 else 0
  clear : 0 < w → Cleared q

/-- The last owner of a packet is the one that drops it. -/
lemma lastDrop_eq {q : Packet} {k : ℕ} (h : q.refCount = k + 1) :
    lastDrop q = if k = 0 then 1 else 0 := by
  by_cases hk : k = 0
  · rw [lastDrop, if_pos (by omega), if_pos hk]
  · rw [lastDrop, if_neg (by omega), if_neg hk]

section

variable {q q' : Packet} {w n d : ℕ}

/-- A packet with references is not in the pool, nor on its way there. -/
lemma Kept.out (hk : Kept q w n d) (hn : 0 < n) : w = 0 ∧ d = 0 := by
  have := hk.pool
  rw [if_neg (by omega)] at this
  omega

lemma Kept.edit (hk : Kept q w n d) (hn : 0 < n) (hq : q'.refCount = q.refCount) : Kept q' w n d :=
  ⟨hq.trans hk.count, hk.pool, fun h => absurd (hk.out hn).1 h.ne'⟩

/-- One reference more, when the packet has some. -/
lemma Kept.addRef (hk : Kept q w n d) (hn : 0 < n) : Kept q.addRefCount w (n + 1) d := by
  obtain ⟨rfl, rfl⟩ := hk.out hn
  refine ⟨?_, rfl, fun h => absurd h (Nat.lt_irrefl 0)⟩
  rw [Packet.addRefCount, hk.count]
  rfl

/-- One reference less. -/
lemma Kept.decRef (hk : Kept q w (n + 1) d) : Kept q.decRefCount w n (d + lastDrop q) := by
  obtain ⟨rfl, rfl⟩ := hk.out (Nat.succ_pos n)
  refine ⟨?_, ?_, fun h => absurd h (Nat.lt_irrefl 0)⟩
  · rw [Packet.decRefCount, hk.count]
    push_cast
    exact Int.add_sub_cancel _ _
  · rw [lastDrop_eq hk.count, Nat.zero_add, Nat.zero_add]

/-- The first reference to a packet of the pool. -/
lemma Kept.take (hk : Kept q (w + 1) n d) : Kept q.addRefCount w (n + 1) d := by
  have h0 : n = 0 := by
    by_contra h0
    exact Nat.succ_ne_zero w (hk.out (Nat.pos_of_ne_zero h0)).1
  have hp := hk.pool
  rw [if_pos h0] at hp
  refine ⟨?_, ?_, fun h => ?_⟩
  · rw [Packet.addRefCount, hk.count]
    rfl
  · rw [if_neg (Nat.succ_ne_zero n)]
    omega
  · omega

end

/-- A step keeps count; `n` and `d` are of the other threads and slots. -/
lemma pstep_kept {x x' : PView} {s s' n d : ℕ} (h : PStep x s x' s')
    (hk : Kept x.q x.pool (n + x.hold + s) (d + x.drop)) :
    Kept x'.q x'.pool (n + x'.hold + s') (d + x'.drop) := by
  cases h
  case idle => exact hk
  case edit q hq hh => exact hk.edit (by omega) hq
  case alloc j hp =>
    have hn : n + (x.hold + 1) + s = n + x.hold + s + 1 := by omega
    rw [hp] at hk
    dsimp only
    rw [hn]
    exact hk.take
  case addRef hh =>
    have hn : n + (x.hold + 1) + s = n + x.hold + s + 1 := by omega
    dsimp only
    rw [hn]
    exact hk.addRef (by omega)
  case queue j hh =>
    have hn : n + x.hold + s = n + j + (s + 1) := by omega
    rw [hn] at hk
    exact hk
  case unqueue =>
    have hn : n + x.hold + (s' + 1) = n + (x.hold + 1) + s' := by omega
    rw [hn] at hk
    exact hk
  case free j hh hd =>
    have hn : n + x.hold + s = n + j + s + 1 := by omega
    rw [hn, hd] at hk
    exact hk.decRef
  case slotFree hd =>
    rw [hd] at hk
    exact hk.decRef
  case recycle hd =>
    refine ⟨hk.count, ?_, fun _ => ⟨rfl, rfl, rfl⟩⟩
    have := hk.pool
    dsimp only
    omega

variable {τ : Type*} [DecidableEq τ] [Fintype τ]

/-- The owners of packet `p`: the threads, and the slots. -/
def owners (c : Config τ) (p : ℕ) : ℕ :=
  ∑ t, share p (c.loc t) + ∑ k : Fin maxSlots, slotShare c.mem p k

/-- The threads that are giving packet `p` back to the pool. -/
def dropping (c : Config τ) (p : ℕ) : ℕ := ∑ t, drops p (c.loc t)

/-- What holds of a packet. -/
def PacketKept (c : Config τ) (p : ℕ) : Prop :=
  Kept (c.mem.packet p) (c.mem.pool p) (owners c p) (dropping c p)

lemma run_kept {c : Config τ} {t : τ} (h : PSeen p c.mem (c.loc t) m' l') (hk : PacketKept c p) :
    PacketKept ⟨m', Function.update c.loc t l'⟩ p := by
  obtain ⟨i, hi, hs, h⟩ := h
  obtain ⟨a, ha, ha'⟩ := sum_split (share p) c.loc t
  obtain ⟨d, hd, hd'⟩ := sum_split (drops p) c.loc t
  obtain ⟨r, hr, hr'⟩ := sum_split_of (f := fun k : Fin maxSlots => slotShare c.mem p k) ⟨i, hi⟩
  have hr' := hr' (fun k => slotShare m' p k) fun k hk => hs k fun h => hk (Fin.ext h)
  have e1 : owners c p = a + r + share p (c.loc t) + slotShare c.mem p i := by
    simp only [owners, ha, hr]
    omega
  have e2 : owners ⟨m', Function.update c.loc t l'⟩ p =
      a + r + share p l' + slotShare m' p i := by
    simp only [owners, ha', hr']
    omega
  unfold PacketKept dropping at hk ⊢
  rw [e1, hd] at hk
  rw [e2, hd']
  exact pstep_kept h hk

omit [DecidableEq τ] in
lemma share_cons {q : ℕ} :
    share p { l with holds := q :: l.holds } = share p l + if p = q then 1 else 0 := by
  simp only [share, List.count_cons]
  by_cases hp : p = q
  · simp [hp]
    omega
  · simp [hp, Ne.symm hp]

/-- A packet that is passed on has as many owners as before. -/
lemma give_kept {c : Config τ} {t u : τ} {l₁ l₂ : Local} {n : ℕ} (htu : t ≠ u)
    (h1 : share p (c.loc t) = share p l₁ + n) (h2 : share p l₂ = share p (c.loc u) + n)
    (hd1 : drops p l₁ = drops p (c.loc t)) (hd2 : drops p l₂ = drops p (c.loc u))
    (hk : PacketKept c p) :
    PacketKept ⟨c.mem, Function.update (Function.update c.loc t l₁) u l₂⟩ p := by
  have hu : Function.update c.loc t l₁ u = c.loc u := Function.update_of_ne htu.symm ..
  obtain ⟨a, ha, ha'⟩ := sum_split (share p) c.loc t
  obtain ⟨b, hb, hb'⟩ := sum_split (share p) (Function.update c.loc t l₁) u
  obtain ⟨d, hd, hd'⟩ := sum_split (drops p) c.loc t
  obtain ⟨e, he, he'⟩ := sum_split (drops p) (Function.update c.loc t l₁) u
  rw [hu, ha'] at hb
  rw [hu, hd'] at he
  unfold PacketKept owners dropping at hk ⊢
  dsimp only
  rw [hb', he', show b + share p l₂ = ∑ v, share p (c.loc v) by omega,
    show e + drops p l₂ = ∑ v, drops p (c.loc v) by omega]
  exact hk

variable {b : Boot} {a : τ} {w : τ → Bool} {c : Config τ} {bad : List Ev} {k : ℕ}

lemma reach_owning (hok : .ok ∉ bad) (hr : .skipRelease ∈ bad) (hl : .lateEnter ∈ bad)
    (h : Reach step (avoids bad) (boot b a w) c) (t : τ) : Owning c.mem (c.loc t) := by
  have hS := fun k => reach_sends (k := k) hok hr hl h
  have hG := fun k => reach_good (k := k) hok hr hl h
  have hN := reach_named h
  refine ⟨fun i j bk hp hj => ?_, fun i j bk x hp hj => ?_, fun i s hp => ?_, fun i hi => ?_,
    fun i id q ha => ?_⟩
  · have hd := (hS i).data t
    rw [show ((slot c i).L t).role = .work (.freeArr j bk) by
      simp only [slot, lview, hp, pcRole_work]] at hd
    exact (hd.1.head hj).1
  · have hd := (hS i).data t
    rw [show ((slot c i).L t).role = .rel (.freeArr j bk) by
      simp only [slot, lview, hp, pcRole_rel]] at hd
    exact (hd.1.head hj).1
  · have hrole : ((slot c i).L t).role = .acc (.init s .sendCnt) := by
      simp only [slot, lview, hp, pcRole_acc]
    have hj := ((hG i).at' t).unmet (by simp [LV.unmet, hrole])
    exact ((hS i).blank (.inr (.inr hj))).2.2
  · by_cases hpast : LV.past ((slot c i).L t)
    · exact ((hN i).1.id (((hN i).2 t).ever hpast)) ▸ slotOf_lt _
    · refine ((hN i).2 t).small ?_
      change ∃ q, pcRole i (c.loc t).pc = .acc q
      have hpast : ¬Role.past (pcRole i (c.loc t).pc) := fun h => hpast (.inr h)
      generalize pcRole i (c.loc t).pc = r at hi hpast
      cases r
      case none => exact absurd rfl hi
      case acc q => exact ⟨q, rfl⟩
      all_goals exact absurd trivial hpast
  · have hpast : LV.past ((slot c i).L t) := by
      refine .inl ?_
      simp [slot, lview, apiRole, ha]
    exact ((hN i).1.id (((hN i).2 t).ever hpast)) ▸ slotOf_lt _

/-- **Packets are kept.** -/
theorem reach_kept (hok : .ok ∉ bad) (hr : .skipRelease ∈ bad) (hl : .lateEnter ∈ bad)
    (h : Reach step (avoids bad) (boot b a w) c) :
    (∀ t, Holding (c.loc t)) ∧ ∀ p, PacketKept c p := by
  refine Reach.inv (I := fun c => (∀ t, Holding (c.loc t)) ∧ ∀ p, PacketKept c p) ⟨fun t => ?_, fun p => ?_⟩
    (fun c c' x hc hi _ hs => ?_) h
  · simp only [boot]
    exact holding_idle rfl (by split <;> first | rfl | (split <;> rfl))
  · have h0 : ∀ t, share p ((boot b a w).loc t) = 0 ∧ drops p ((boot b a w).loc t) = 0 := by
      intro t
      refine ⟨?_, rfl⟩
      simp only [boot, share, List.count_nil, Api.share]
      split <;> first | rfl | (split <;> rfl)
    have h1 : owners (boot b a w) p = 0 := by
      simp only [owners, h0, Finset.sum_const_zero, Nat.zero_add]
      exact Finset.sum_eq_zero fun k _ => rfl
    have h2 : dropping (boot b a w) p = 0 := Finset.sum_eq_zero fun t _ => (h0 t).2
    rw [PacketKept, h1, h2]
    exact ⟨rfl, rfl, fun _ => ⟨rfl, rfl, rfl⟩⟩
  · obtain ⟨hH, hK⟩ := hi
    cases x with
    | run t ch =>
      simp only [step, Option.map_eq_some_iff] at hs
      obtain ⟨⟨m', l'⟩, hs, rfl⟩ := hs
      refine ⟨fun u => ?_, fun p => run_kept (lstep_pseen (hH t) (reach_owning hok hr hl hc t) hs p) (hK p)⟩
      by_cases hut : u = t
      · subst hut
        simpa using lstep_holding (hH u) hs
      · simpa [hut] using hH u
    | complete io n d =>
      simp only [step] at hs
      split at hs <;> simp only [Option.some.injEq, reduceCtorEq] at hs
      subst hs
      exact ⟨hH, hK⟩
    | give t u q =>
      simp only [step] at hs
      split at hs <;> simp only [Option.some.injEq, reduceCtorEq] at hs
      rename_i hg
      obtain ⟨htu, hct, -, hat, -, hq⟩ := hg
      subst hs
      refine ⟨fun v => ?_, fun p =>
        give_kept htu (share_erase (mem_of_spare hq)) share_cons rfl rfl (hK p)⟩
      by_cases hv : v = u
      · subst hv
        simpa using holding_cons (hH v)
      · by_cases hv' : v = t
        · subst hv'
          simpa [hv] using holding_erase (hH v) hat hct hq
        · simpa [hv, hv'] using hH v

/-! ### What a session drops -/

/-- What was queued has been dropped, or is the session's to drop; `n` is on its way. -/
def Dropped (y : Entry) (V : View) (n : ℕ) : Prop :=
  V.h.enqd.count y = V.h.dropped.count y + V.h.owned.count y + V.s.sendQ.count y + n

variable {e : Ev} {V V' : View} {x x' : LV}

lemma Dropped.free {y z : Entry} {n : ℕ} (h : Dropped y V n)
    (ho : V.h.owned = z :: V.h.owned.tail) :
    Dropped y { V with h := { V.h with
      owned := V.h.owned.tail, dropped := V.h.dropped ++ [z] } } n := by
  simp only [Dropped, List.count_append, List.count_singleton] at h ⊢
  rw [ho, List.count_cons] at h
  omega

lemma Kept.alloc {q : Packet} {w n d : ℕ} (h : Kept q w n d) (hw : 0 < w) :
    q.addRefCount.refCount = 1 ∧ q.addRefCount.getPayloadSize = 0 ∧
      q.addRefCount.isEncode = false := by
  obtain ⟨h1, h2, h3⟩ := h.clear hw
  refine ⟨?_, ?_, h3⟩
  · have hp := h.pool
    split at hp
    case isTrue hn => simp [Packet.addRefCount, h.count, hn]
    case isFalse => omega
  · simp [Packet.getPayloadSize, Packet.addRefCount, h1, h2]

end LoginServerChat.PacketRefs
