import LoginServerChat.SlotSend

/-!
The send path in whole runs: one send at a time, in the order in which `SendPacket` queued the
packets, and nobody but the holder of `sendFlag` at the array.
-/

namespace LoginServerChat.SendPath

open NetPacket NetState NetStep SlotStep SlotView SlotRun SlotRefs SlotPhase SlotLive SlotRelease
  SlotJoin SlotSend Runs

variable {τ : Type*} [DecidableEq τ] [Fintype τ]

/-- What the references and the announcement say about a slot. -/
structure Good (S : Slot τ) : Prop where
  at' : ∀ t, JoinedAt S.V (S.L t)
  accepts : ∑ t, LV.accepts (S.L t) ≤ View.busy S.V
  releases : ∑ t, LV.releases (S.L t) ≤ 1
  announced : S.V.h.phase = .live → S.V.s.ioCount = 0 → S.V.h.joined = true

/-- The packets of a session. -/
structure Sends (S : Slot τ) : Prop where
  locked : S.V.h.phase = .live → S.V.h.joined = true → Locked S.V (∑ t, LV.locks (S.L t))
  rest : S.V.h.phase = .live → S.V.h.joined = true → ∑ t, LV.locks (S.L t) = 0 → AtRest S.V
  data : ∀ t, SendData (batch S.V) (S.L t).role
  prepared : ∀ t, Prepared S.V (S.L t)
  checked : ∀ t, IdChecked S.V (S.L t)
  blank : Blank S.V
  ordered : Ordered S.V
  ids : OwnIds S.V
  sized : Sized S.V

variable {k : ℕ} {e : Ev} {V V' : View} {L : τ → LV} {l' : LV} {t : τ}

omit [DecidableEq τ] [Fintype τ] in
lemma busy_of_unmet {u : LV} (hA : JoinedAt V u) (hu : 0 < LV.unmet u) :
    V.h.phase = .init ∨ V.h.phase = .live := by
  obtain ⟨r, x⟩ := u
  rcases r with _ | p | _ | _
  · exact absurd hu (Nat.lt_irrefl 0)
  · rcases p with ⟨_, p⟩ | _ | _ | _ | _ | _ | _ | _ | _
    · cases p
      case sendFlag | sendCnt | recvQ => exact .inr (hA.live (Nat.add_pos_left Nat.one_pos _))
      all_goals exact .inl (hA.init Nat.one_pos)
    all_goals first
      | exact absurd hu (Nat.lt_irrefl 0)
      | exact .inr (hA.live (Nat.add_pos_left Nat.one_pos _))
  · exact absurd hu (Nat.lt_irrefl 0)
  · exact absurd hu (Nat.lt_irrefl 0)

/-- While a thread accepts on the slot and has not announced the session, the other threads
leave the session alone. -/
lemma still_of_unmet (hG : Good ⟨V, L⟩) (h : SStep k e V (L t) V' l') {u : τ} (hut : t ≠ u)
    (hu : 0 < LV.unmet (L u)) : Still V V' := by
  have hj := (hG.at' u).unmet hu
  have hb := busy_of_unmet (hG.at' u) hu
  have hacc : ∑ v, LV.accepts (L v) ≤ 1 := hG.accepts.trans (by unfold View.busy; split <;> omega)
  refine sstep_still h (Nat.eq_zero_of_not_pos fun hm => ?_) ?_
    (Nat.eq_zero_of_not_pos fun hr => ?_) (Nat.eq_zero_of_not_pos fun hs => ?_)
  · exact absurd (hj.symm.trans ((hG.at' t).met hm)) Bool.false_ne_true
  · exact eq_zero_of_sum_le (f := fun v => LV.accepts (L v))
      (hacc.trans (hu.trans_le (LV.unmet_le _))) hut
  · rcases hb with hb | hb <;> exact Phase.noConfusion (hb.symm.trans ((hG.at' t).rel hr))
  · rcases hb with hb | hb <;> exact Phase.noConfusion (hb.symm.trans ((hG.at' t).stack hs))

/-- So they do while a thread releases it. -/
lemma still_of_releases (hG : Good ⟨V, L⟩) (h : SStep k e V (L t) V' l') {u : τ} (hut : t ≠ u)
    (hu : 0 < LV.releases (L u)) : Still V V' := by
  have hph : V.h.phase = .rel := (hG.at' u).rel hu
  have hacc := hG.accepts
  simp only [View.busy, hph, reduceCtorEq, or_self, if_false] at hacc
  refine sstep_still h (Nat.eq_zero_of_not_pos fun hm => ?_) ?_
    (eq_zero_of_sum_le (f := fun v => LV.releases (L v)) (hG.releases.trans hu) hut)
    (Nat.eq_zero_of_not_pos fun hs => ?_)
  · exact Phase.noConfusion (hph.symm.trans ((hG.at' t).live (hm.trans_le (LV.met_le _))))
  · have := le_sum (fun v => LV.accepts (L v)) t
    omega
  · exact Phase.noConfusion (hph.symm.trans ((hG.at' t).stack hs))

omit [DecidableEq τ] [Fintype τ] in
lemma batch_of_still (h : Still V V') : batch V' = batch V := by
  simp only [batch, h.sendQ, h.sendCnt, h.arr, h.gath, h.owned]

omit [DecidableEq τ] in
/-- A worker or an announced caller is on an announced live session. -/
lemma Good.of_met (hG : Good ⟨V, L⟩) (hm : 0 < LV.met (L t)) :
    V.h.phase = .live ∧ V.h.joined = true :=
  ⟨(hG.at' t).live (hm.trans_le (LV.met_le _)), (hG.at' t).met hm⟩

omit [DecidableEq τ] in
lemma Good.of_live (hG : Good ⟨V, L⟩) (hp : V.h.phase = .live) :
    V.stack = 0 ∧ LV.releases (L t) = 0 := by
  refine ⟨Nat.eq_zero_of_not_pos fun hs => ?_, Nat.eq_zero_of_not_pos fun hr => ?_⟩
  · exact Phase.noConfusion (hp.symm.trans ((hG.at' t).stack hs))
  · exact Phase.noConfusion (hp.symm.trans ((hG.at' t).rel hr))

omit [DecidableEq τ] in
lemma Good.unmet_eq (hG : Good ⟨V, L⟩) (hj : V.h.joined = true) : LV.unmet (L t) = 0 :=
  Nat.eq_zero_of_not_pos fun hu =>
    absurd (((hG.at' t).unmet hu).symm.trans hj) Bool.false_ne_true

/-- The knowledge of the threads other than the one that steps. -/
lemma others_data (hG : Good ⟨V, L⟩) (hS : Sends ⟨V, L⟩) (h : SStep k e V (L t) V' l') {u : τ}
    (hut : t ≠ u) : SendData (batch V') (L u).role := by
  by_cases hr : 0 < LV.releases (L u)
  · rw [batch_of_still (still_of_releases hG h hut hr)]
    exact hS.data u
  have hr := Nat.eq_zero_of_not_pos hr
  by_cases hl : 0 < LV.locks (L u)
  · obtain ⟨hp, hj⟩ := hG.of_met (hl.trans_le (LV.locks_le _))
    obtain ⟨hst, hrt⟩ := hG.of_live (t := t) hp
    obtain ⟨h1, h2⟩ := hS.locked hp hj
    have ht : LV.locks (L t) = 0 := by
      refine eq_zero_of_sum_le (f := fun v => LV.locks (L v)) (t := u) ?_ hut
      dsimp only at h1 h2
      omega
    obtain ⟨q, hq⟩ := sstep_batch h ht hrt (hG.unmet_eq hj) hst
    rw [hq]
    exact (hS.data u).enqueue q hr
  · exact sendData_of_idle (Nat.eq_zero_of_not_pos hl) hr

omit [DecidableEq τ] in
/-- What the thread that steps finds, when it takes something over. -/
lemma own_data (hG : Good ⟨V, L⟩) (hS : Sends ⟨V, L⟩) (h : SStep k e V (L t) V' l') :
    SendData (batch V') l'.role := by
  refine sstep_sendData h (hG.at' t) (hS.data t) (fun hm hf => ?_) (fun n hj => ?_)
    (fun hp h0 hf => ?_)
  · obtain ⟨hp, hj⟩ := hG.of_met hm
    obtain ⟨h1, h2⟩ := hS.locked hp hj
    dsimp only at h1 h2
    exact (hS.rest hp hj (by dsimp only; omega)).2 (by dsimp only; omega)
  · have hn : 0 < View.refs V := by
      have := List.single_le_sum (l := V.jobs.map Job.refs) (by simp) _ (List.mem_map_of_mem hj)
      simp only [Job.refs] at this
      simp only [View.refs]
      omega
    have hp : V.h.phase = .live := (hG.at' t).held hn
    have hjn : V.h.joined = true := (hG.at' t).heldJoined hn
    obtain ⟨h1, h2⟩ := hS.locked hp hjn
    have := List.single_le_sum (l := V.jobs.map Job.locks) (by simp) _ (List.mem_map_of_mem hj)
    simp only [Job.locks] at this
    simp only [View.locks] at h1 h2
    exact (hS.rest hp hjn (by dsimp only; omega)).1
  · have hph : V.h.phase = .live := by
      by_contra hph
      have := (hG.at' t).flag hp
      rw [if_neg hph] at this
      exact absurd (hf.symm.trans this) Nat.zero_ne_one
    refine (hS.rest hph (hG.announced hph h0) (Finset.sum_eq_zero fun u _ => ?_)).1
    have h1 := ((hG.at' u).empty h0).2
    have h2 := (LV.locks_le (L u)).trans ((LV.met_le _).trans (LV.valid_le _))
    dsimp only at h1 h2 ⊢
    omega

omit [DecidableEq τ] in
/-- The session that the accept thread announces has no other reference and is clean. -/
lemma announced_clean (hG : Good ⟨V, L⟩) (hS : Sends ⟨V, L⟩) {s : Sock}
    (ht : (L t).role = .acc (.join s)) :
    View.locks V = 0 ∧ V.s.sendFlag = 0 ∧ (∀ u, LV.locks (L u) = 0) ∧ Clean (batch V) := by
  have hj : V.h.joined = false := (hG.at' t).unmet (by simp [LV.unmet, ht])
  obtain ⟨h1, h2, h3, -⟩ : V.s.sendFlag = 0 ∧ V.h.latch = 0 ∧ V.s.sendCnt = 0 ∧ V.s.recvQ = [] := by
    have := hS.prepared t
    simpa only [Prepared, ht] using this
  obtain ⟨-, h4, h5⟩ := hS.blank (.inr (.inr hj))
  refine ⟨?_, h1, fun u => Nat.eq_zero_of_not_pos fun hl => ?_, h4, h5, h3⟩
  · rw [locks_of_refs (Nat.eq_zero_of_not_pos fun hr => ?_), h2]
    exact absurd (hj.symm.trans ((hG.at' t).heldJoined hr)) Bool.false_ne_true
  · exact absurd (hj.symm.trans (hG.of_met (hl.trans_le (LV.locks_le _))).2) Bool.false_ne_true

omit [DecidableEq τ] [Fintype τ] in
lemma sstep_sessionID {l : LV} (h : SStep k e V l V' l') :
    V'.s.sessionID = V.s.sessionID ∨ 0 < LV.inits l := by
  cases h
  case initSessionID => exact .inr Nat.one_pos
  all_goals exact .inl rfl

omit [DecidableEq τ] in
/-- The id that a caller has checked stays the session's. -/
lemma others_checked (hG : Good ⟨V, L⟩) (h : SStep k e V (L t) V' l') {u : τ}
    (hu : IdChecked V (L u)) : IdChecked V' (L u) := by
  rcases sstep_sessionID h with hid | ht
  · unfold IdChecked at hu ⊢
    rw [hid]
    exact hu
  · -- the slot is being prepared, so that no caller has got past `EnterSession`
    have hv : LV.valid (L u) = 0 := Nat.eq_zero_of_not_pos fun hv =>
      Phase.noConfusion (((hG.at' t).init ht).symm.trans ((hG.at' u).live hv))
    rcases hL : L u with ⟨r, _ | ⟨id, p⟩⟩
    · trivial
    · rw [hL] at hv
      simp only [LV.valid, Option.elim] at hv
      cases p <;> trivial

/-- The lock and what is known while nobody holds it. -/
lemma next_locked (hG : Good ⟨V, L⟩) (hS : Sends ⟨V, L⟩) (h : SStep k e V (L t) V' l')
    (hp : V'.h.phase = .live) (hj : V'.h.joined = true) :
    Locked V' (∑ u, LV.locks (Function.update L t l' u)) ∧
      (∑ u, LV.locks (Function.update L t l' u) = 0 → AtRest V') := by
  obtain ⟨n, hn, hn'⟩ := sum_split LV.locks L t
  by_cases hV : V.h.phase = .live ∧ V.h.joined = true
  · obtain ⟨hst, hr⟩ := hG.of_live (t := t) hV.1
    have hu := hG.unmet_eq (t := t) hV.2
    have hl := hS.locked hV.1 hV.2
    have hrest := hS.rest hV.1 hV.2
    simp only [hn, hn'] at hl hrest ⊢
    refine ⟨sstep_locked h hu hst hl, fun h0 => ?_⟩
    refine sstep_atRest h hr hu hst (hS.data t) (fun hp => ?_) (fun h1 => hrest (by omega)) (by omega)
    have := hl.1
    omega
  · obtain ⟨⟨s, hs⟩, hl', hb, hf, hk⟩ := sstep_announced h (hG.at' t) hV hp hj
    obtain ⟨h1, h2, h3, h4⟩ := announced_clean hG hS hs
    have h5 : ∑ u, LV.locks (L u) = 0 := Finset.sum_eq_zero fun u _ => h3 u
    simp only [hn']
    refine ⟨⟨by omega, by omega⟩, fun _ => ⟨?_, fun _ => ?_⟩⟩
    · rw [hb]
      exact h4.rest
    · rw [hb]
      exact h4

lemma next_sends {S S' : Slot τ} (hG : Good S) (hS : Sends S) (h : Next k e S S') : Sends S' := by
  cases h with
  | @thread e V L V' l' t h =>
    have hA := hG.at' t
    refine ⟨fun hp hj => (next_locked hG hS h hp hj).1,
      fun hp hj => (next_locked hG hS h hp hj).2, fun u => ?_, fun u => ?_, fun u => ?_,
      sstep_blank h hA (hS.data t) hS.blank, sstep_ordered h hA (hS.data t) hS.blank hS.ordered,
      sstep_ownIds h hA (hS.checked t) hS.ids, sstep_sized h (hS.data t) hS.sized⟩
    all_goals by_cases hut : u = t
    · subst hut
      simpa using own_data hG hS h
    · simpa [hut] using others_data hG hS h (Ne.symm hut)
    · subst hut
      simpa using sstep_prepared h (hS.prepared u)
    · simp only [Function.update_of_ne hut]
      by_cases hu : 0 < LV.unmet (L u)
      · exact (still_of_unmet hG h (Ne.symm hut) hu).prepared (hS.prepared u)
      · exact prepared_of_met (Nat.eq_zero_of_not_pos hu)
    · subst hut
      simpa using sstep_idChecked h (hS.checked u)
    · simp only [Function.update_of_ne hut]
      exact others_checked hG h (hS.checked u)
  | @complete V L io n d hio =>
    have hk : View.locks { V with ios := V.ios.erase io, jobs := V.jobs ++ [IoReq.done io n d] } =
        View.locks V := by
      have := List.sum_map_erase IoReq.locks hio
      have hj : Job.locks (IoReq.done io n d) = IoReq.locks io := by
        simp only [IoReq.done, IoReq.locks]
        split <;> rfl
      simp only [View.locks, List.map_append, List.sum_append, List.map_cons, List.map_nil,
        List.sum_cons, List.sum_nil, hj]
      omega
    refine ⟨fun hp hj => ?_, hS.rest, hS.data, hS.prepared, hS.checked, hS.blank, hS.ordered,
      hS.ids, hS.sized⟩
    obtain ⟨h1, h2⟩ := hS.locked hp hj
    exact ⟨by rw [hk]; exact h1, h2⟩

omit [DecidableEq τ] in
lemma fresh_sends {S : Slot τ} (hf : Fresh k S) : Sends S := by
  have hh : S.V.h = freshHist := hf.h
  refine ⟨fun hp => ?_, fun hp => ?_, fun t => ?_, fun t => ?_, fun t => ?_, fun _ => ?_,
    fun hp => ?_, ⟨fun _ => ?_, fun hp => ?_⟩, fun q hq => ?_⟩
  · simp [hh, freshHist] at hp
  · simp [hh, freshHist] at hp
  · rw [hf.idle t]
    trivial
  · rw [hf.idle t]
    trivial
  · rw [hf.idle t]
    trivial
  · exact ⟨hf.sendQ, by rw [hh]; rfl, by rw [hh]; rfl⟩
  · simp [hh, freshHist] at hp
  · rw [hh]
    rfl
  · simp [hh, freshHist] at hp
  · simp [hh, freshHist] at hq

variable {b : Boot} {a : τ} {w : τ → Bool} {c : Config τ} {bad : List Ev}

/-- A live session that has not been announced has a reference. -/
lemma reach_good (hok : .ok ∉ bad) (hr : .skipRelease ∈ bad) (hl : .lateEnter ∈ bad)
    (h : Reach step (avoids bad) (boot b a w) c) : Good (slot c k) := by
  have hA := fun t => reach_joinedAt (k := k) hok hr hl h t
  have hP := reach_phased (k := k) h
  refine ⟨hA, reach_accepts hok hr h, ?_, fun hp h0 => ?_⟩
  · rw [hP.releases]
    split <;> omega
  · by_contra hj
    obtain ⟨t, -, ht⟩ := Finset.exists_ne_zero_of_sum_ne_zero
      (reach_unannounced hok h hp (Bool.eq_false_iff.mpr hj)).ne'
    have h1 := (LV.unmet_le ((slot c k).L t)).trans (LV.accepts_le _)
    have h2 := ((hA t).empty h0).2
    have h3 : 0 < LV.inits ((slot c k).L t) := by omega
    exact Phase.noConfusion (hp.symm.trans ((hA t).init h3))

theorem reach_sends (hok : .ok ∉ bad) (hr : .skipRelease ∈ bad) (hl : .lateEnter ∈ bad)
    (h : Reach step (avoids bad) (boot b a w) c) : Sends (slot c k) :=
  slot_inv (I := Sends) hok (fun _ hf => fresh_sends hf)
    (fun _ _ _ hc hi _ hn => next_sends (reach_good hok hr hl hc) hi hn) h

/-! ### One send at a time, in order -/

/-- The next step of the thread reads or writes `sendPacketArr` or `sendCnt`. -/
def Touches : Role → Prop
  | .work (.send (.gather _ _ _)) | .work (.send (.setCnt _ _)) | .work .readCnt
  | .work (.zeroCnt _) | .work (.freeArr _ _) | .rel .readCnt | .rel (.freeArr _ _)
  | .acc (.init _ .sendCnt) => True
  | _ => False

/-- Who holds `sendFlag`: a thread, a send that is posted or completed, or a send that failed
or completed on a session past its end and is never completed by a worker. -/
def holders (S : Slot τ) : ℕ := View.locks S.V + ∑ t, LV.locks (S.L t)

/-- The send path of the session on slot `k`. At most one send is outstanding. Once the session
is announced, `sendFlag` says whether somebody holds it, and only one does; who touches the
array is the holder, the accept thread before the announcement apart. A batch has 1 to `MAXBUF`
packets, the gather loop never finds `sendQ` empty and takes packets of this session only, and
what was handed to `WSASend` is the beginning of what `SendPacket` queued. -/
structure SendsInOrder (c : Config τ) (k : ℕ) : Prop where
  one : c.mem.inflight.countP (fun io => io.slot = k ∧ io.send = true) ≤ 1
  lock : (c.mem.hist k).joined = true →
    (c.mem.sess k).sendFlag = holders (slot c k) ∧ (c.mem.sess k).sendFlag ≤ 1
  touch : ∀ t, Touches (lview (c.loc t) k).role →
    (c.mem.hist k).joined = true ∧ 0 < LV.locks (lview (c.loc t) k) ∨
      (c.mem.hist k).joined = false ∧ ∃ s, (lview (c.loc t) k).role = .acc (.init s .sendCnt)
  size : ∀ q ∈ (c.mem.hist k).sent, 0 < q.length ∧ q.length ≤ maxBuf
  gather : ∀ t j n bufs, (lview (c.loc t) k).role = .work (.send (.gather j n bufs)) →
    (j < n → (c.mem.sess k).sendQ ≠ []) ∧
      ∀ x ∈ bufs, x.1 ∈ (c.mem.hist k).enqd ∧ x.1.sid = (c.mem.sess k).sessionID
  order : (c.mem.hist k).sent.flatten <+: (c.mem.hist k).enqd

lemma countP_ios {m : Mem} : m.inflight.countP (fun io => io.slot = k ∧ io.send = true) =
    ((view m k).ios.map IoReq.locks).sum := by
  simp only [view, Bool.decide_and, Bool.decide_eq_true]
  induction m.inflight with
  | nil => rfl
  | cons io l ih =>
    by_cases hk : io.slot = k
    · cases hs : io.send <;> simp [hk, hs, IoReq.locks, ih, Nat.add_comm]
    · simp [hk, ih]

omit [DecidableEq τ] in
/-- A session that nobody has announced has no send posted. -/
lemma Good.sends_le (hG : Good ⟨V, L⟩) (hS : Sends ⟨V, L⟩) (t : τ) :
    (V.ios.map IoReq.locks).sum ≤ 1 := by
  by_cases hr : 0 < View.refs V
  · obtain ⟨h1, h2⟩ := hS.locked ((hG.at' t).held hr) ((hG.at' t).heldJoined hr)
    simp only [View.locks] at h1 h2
    omega
  · have : V.ios = [] := List.length_eq_zero_iff.mp (by simp only [View.refs] at hr; omega)
    simp [this]

omit [DecidableEq τ] in
lemma Good.touches (hG : Good ⟨V, L⟩) (hp : V.h.phase = .live) (ht : Touches (L t).role) :
    V.h.joined = true ∧ 0 < LV.locks (L t) ∨
      V.h.joined = false ∧ ∃ s, (L t).role = .acc (.init s .sendCnt) := by
  have hmet := hG.of_met (t := t)
  have hrel := (hG.of_live (t := t) hp).2
  have hun := (hG.at' t).unmet
  have hle := LV.locks_le (L t)
  rcases hL : L t with ⟨r, x⟩
  simp only [hL] at ht hmet hrel hun hle ⊢
  rcases r with _ | p | p | p
  · exact ht.elim
  · rcases p with ⟨s, p⟩ | _ | _ | _ | _ | _ | _ | _ | _
    · cases p <;> first
        | exact ht.elim
        | exact .inr ⟨hun Nat.one_pos, s, rfl⟩
    all_goals exact ht.elim
  · have hl : 0 < LV.locks ⟨.work p, x⟩ := by
      rcases p with j | _ | _ | _ | _ | p | _ | _ | _
      all_goals try first
        | exact Nat.one_pos
        | exact ht.elim
      cases p <;> first
        | exact Nat.one_pos
        | exact ht.elim
    exact .inl ⟨(hmet (hl.trans_le hle)).2, hl⟩
  · cases p <;> first
      | exact ht.elim
      | exact absurd hrel Nat.one_ne_zero

omit [DecidableEq τ] in
/-- What is gathered was queued for this session. -/
lemma Sends.gathered_own (hS : Sends ⟨V, L⟩) (hp : V.h.phase = .live) {x : Entry}
    (hx : x ∈ V.h.gath) : x ∈ V.h.enqd ∧ x.sid = V.s.sessionID := by
  have hmem : x ∈ V.h.enqd := by
    have hord : V.h.enqd = V.h.sent.flatten ++ V.h.gath ++ V.s.sendQ := hS.ordered (.inr hp)
    rw [hord]
    exact List.mem_append_left _ (List.mem_append_right _ hx)
  exact ⟨hmem, hS.ids.2 hp x hmem⟩

omit [DecidableEq τ] [Fintype τ] in
lemma Gathered.mem {B : Batch} {j : ℕ} {bufs : List (Entry × ℕ)} (h : Gathered B j bufs)
    {x : Entry × ℕ} (hx : x ∈ bufs) : x.1 ∈ B.gath := by
  rw [← h.bufs.trans h.gath.symm]
  exact List.mem_map_of_mem hx

/-- **The send path.** In every run in which no worker takes a `RELEASE` job for a slot whose
`socket` is `INVALID_SOCKET`, and no `EnterSession` succeeds with an id that the slot's session
has not been announced with, sessions send one batch at a time and in order. -/
theorem sends_in_order (h : Reach step (avoids [.skipRelease, .lateEnter]) (boot b a w) c) (k : ℕ)
    (hp : (c.mem.hist k).phase = .live) : SendsInOrder c k := by
  have hG := reach_good (k := k) (by decide) (by decide) (by decide) h
  have hS := reach_sends (k := k) (by decide) (by decide) (by decide) h
  refine ⟨?_, fun hj => hS.locked hp hj, fun t => hG.touches hp, hS.sized,
    fun t j n bufs ht => ?_, ?_⟩
  · rw [countP_ios]
    exact hG.sends_le hS a
  · have hd := hS.data t
    rw [show (slot c k).L t = lview (c.loc t) k from rfl, ht] at hd
    obtain ⟨hg, -, -, -, -, hq⟩ := hd
    refine ⟨fun hj he => ?_, fun x hx => hS.gathered_own hp (Gathered.mem hg hx)⟩
    change n ≤ j + (c.mem.sess k).sendQ.length at hq
    rw [he, List.length_nil] at hq
    omega
  · have hord : (c.mem.hist k).enqd =
        (c.mem.hist k).sent.flatten ++ (c.mem.hist k).gath ++ (c.mem.sess k).sendQ :=
      hS.ordered (.inr hp)
    rw [hord, List.append_assoc]
    exact List.prefix_append _ _

/-- Thread 3 allocates packet `p` and calls `SendPacket`, up to the `Enqueue`. -/
def sending (id : SessionID) (p : ℕ) : List (Act (Fin 4)) :=
  [.run 3 (.alloc p), .run 3 (.sendPacket id p)] ++ ticks 3 4 ++ [.run 3 (.key 0)]

/-- And the rest of it. -/
def queued : List (Act (Fin 4)) := [.run 3 .tick, .run 3 (.ans true)]

/-- What the thread has gathered for slot 0. -/
def gathered (pc : Pc) : List Entry :=
  match pc with
  | .work 0 (.send (.gather _ _ bufs)) => bufs.map Prod.fst
  | _ => []

lemma role_of_gathered {l : Local} {x : Entry} (h : x ∈ gathered l.pc) :
    ∃ j n bufs, (lview l 0).role = .work (.send (.gather j n bufs)) ∧ ∃ y ∈ bufs, y.1 = x := by
  unfold gathered at h
  split at h
  · rename_i j n bufs hpc
    refine ⟨j, n, bufs, ?_, List.mem_map.mp h⟩
    simp [lview, hpc, pcRole]
  · exact absurd h List.not_mem_nil

/-- A packet is queued and a worker has gathered it. -/
theorem sends_in_order_gathered : ∃ c, Reach step (avoids [.skipRelease, .lateEnter]) crew c ∧
    (c.mem.hist 0).phase = .live ∧ gathered (c.loc 1).pc = [⟨0, firstID⟩] ∧ SendsInOrder c 0 := by
  obtain ⟨c, hr, hp⟩ := reach_avoids (B := [.skipRelease, .lateEnter]) (b := crew)
    (accepted 0x1A4 ++ sending firstID 0 ++ queued ++ ticks 1 6)
    (p := fun c => decide ((c.mem.hist 0).phase = .live ∧ gathered (c.loc 1).pc = [⟨0, firstID⟩]))
    (by decide +kernel)
  have hp := of_decide_eq_true hp
  exact ⟨c, hr, hp.1, hp.2, sends_in_order hr 0 hp.1⟩

/-- The client on `h` is disconnected, and a call of `SendPacket` has passed `EnterSession` when
the worker that takes the `RELEASE` job skips it. Its decrement takes the caller's reference,
the session is released and the slot taken by a client on `h'`. -/
def overrun (h h' : Sock) : List (Act (Fin 4)) :=
  disconnected h ++ sending firstID 0 ++ ticks 1 9 ++ [.run 1 .ret] ++ ticks 1 2 ++ accepted h'

/-- The caller then queues its packet for the session that has the slot now, and the worker
gathers it. -/
theorem sends_strange : ¬∀ c, Reach step (fun _ _ => True) crew c → ∀ k,
    (c.mem.hist k).phase = .live → SendsInOrder c k := by
  intro h
  obtain ⟨c, hr, hp⟩ := reach_free (b := crew)
    (overrun 0xFFFFFFFF80000004 0x1B8 ++ queued ++ ticks 1 6)
    (p := fun c => decide ((c.mem.hist 0).phase = .live ∧ (c.mem.sess 0).sessionID = makeID 2 0 ∧
      ⟨0, firstID⟩ ∈ gathered (c.loc 1).pc)) (by decide +kernel)
  obtain ⟨h1, h2, h3⟩ := of_decide_eq_true hp
  obtain ⟨j, n, bufs, hrole, y, hy, hx⟩ := role_of_gathered h3
  have hid := (((h c hr 0 h1).gather 1 j n bufs hrole).2 y hy).2
  rw [hx, h2] at hid
  exact absurd hid (by decide)

end LoginServerChat.SendPath
