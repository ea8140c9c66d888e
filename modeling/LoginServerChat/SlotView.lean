import LoginServerChat.SlotStep

/-!
Every step of a thread is, for each slot, a step of that slot or leaves it alone.

`On` is the first and `Off` the second; the functions of the server are taken one by one. What
the steps rely on is that a slot's `sessionID` names the slot, which `Known` says.
-/

namespace LoginServerChat.SlotView

open NetPacket NetState NetStep SlotStep

/-! ### Views of updated memory -/

section Mem

variable (m : Mem) (i k : ℕ)

@[simp] lemma view_s : (view m k).s = m.sess k := rfl

@[simp] lemma view_h : (view m k).h = m.hist k := rfl

lemma view_onSess (f : Session → Session) :
    view (m.onSess i f) i = { view m i with s := f (m.sess i) } := by
  simp [view, Mem.onSess]

lemma view_onSess_ne (f : Session → Session) (h : k ≠ i) :
    view (m.onSess i f) k = view m k := by
  simp [view, Mem.onSess, h]

lemma view_onHist (f : Hist → Hist) :
    view (m.onHist i f) i = { view m i with h := f (m.hist i) } := by
  simp [view, Mem.onHist]

lemma view_onHist_ne (f : Hist → Hist) (h : k ≠ i) : view (m.onHist i f) k = view m k := by
  simp [view, Mem.onHist, h]

lemma onHist_self (f : Hist → Hist) : (m.onHist i f).hist i = f (m.hist i) := by
  simp [Mem.onHist]

lemma view_onPacket (p : ℕ) (f : Packet → Packet) : view (m.onPacket p f) k = view m k := rfl

lemma view_enqueue (j : Job) :
    view (m.enqueue i j) i = { view m i with jobs := (view m i).jobs ++ [j] } := by
  simp [view, Mem.enqueue]

lemma view_enqueue_ne (j : Job) (h : k ≠ i) : view (m.enqueue i j) k = view m k := by
  simp [view, Mem.enqueue, h.symm]

lemma view_postIo (send : Bool) (sock : Sock) (len : ℕ) (pended : Bool) :
    view (m.postIo i send sock len pended) i = { view m i with
      ios := (view m i).ios ++
        [⟨m.ioNum, i, (m.hist i).ser, send, sock, len, pended, false⟩] } := by
  simp [view, Mem.postIo]

lemma view_postIo_ne (send : Bool) (sock : Sock) (len : ℕ) (pended : Bool) (h : k ≠ i) :
    view (m.postIo i send sock len pended) k = view m k := by
  simp [view, Mem.postIo, h.symm]

lemma view_cancelIoEx (h : Sock) :
    view (m.cancelIoEx h) k = { view m k with ios := cancelAll h (view m k).ios } := by
  simp only [view, Mem.cancelIoEx, cancelAll, View.mk.injEq, true_and, and_true]
  rw [List.filter_map]
  congr 1
  apply List.filter_congr
  intro io _
  simp only [Function.comp]
  split <;> rfl

lemma lview_freePacket (l : Local) (p : ℕ) : lview (freePacket m l p).2 k = lview l k := by
  simp only [freePacket]
  split <;> rfl

lemma slotOf_lt (id : SessionID) : slotOf id < 65536 := (id.setWidth 16).isLt

lemma slotOf_makeID (cnt : BitVec 64) (h : i < 65536) : slotOf (makeID cnt i) = i := by
  have e : (makeID cnt i).setWidth 16 = BitVec.ofNat 16 i := by
    ext j hj
    simp [makeID]
  rw [slotOf, e, BitVec.toNat_ofNat, Nat.mod_eq_of_lt h]

end Mem

/-! ### Labels -/

/-- The label of a step that a thread takes, from the state before it. -/
def label (m : Mem) (l : Local) (c : Choice) : Ev :=
  match l.drop, l.api, l.pc, c with
  | none, .on i id (.chkID _), _, _ =>
    if (m.sess i).sessionID = id then if (m.hist i).joined then .ok else .lateEnter else .ok
  | none, .on _ _ .post, _, .ans false => .lostSend
  | none, .on _ _ .request, _, .ans false => .lostRelease
  | none, .idle, .work i (.entry .release), _ =>
    if (m.sess i).socket = invalidSocket then .skipRelease else .ok
  | none, .idle, .work i (.send (.unlock cnt)), _ =>
    if cnt + 1 = 2 then if (m.sess i).sendQ = [] then .ok else .loadedUnlock else .ok
  | _, _, _, _ => .ok

variable {m m' : Mem} {l l' : Local} {c : Choice} {i k : ℕ}

/-- The step is a step of slot `k`, labelled `ok` or as `label` says. -/
def On (k : ℕ) (e : Ev) (m : Mem) (l : Local) (m' : Mem) (l' : Local) : Prop :=
  ∃ e', (e' = .ok ∨ e' = e) ∧ SStep k e' (view m k) (lview l k) (view m' k) (lview l' k)

/-- The step leaves slot `k` alone, but may cancel operations on a socket. -/
def Off (k : ℕ) (m : Mem) (l : Local) (m' : Mem) (l' : Local) : Prop :=
  lview l' k = lview l k ∧ (view m' k = view m k ∨
    ∃ h, view m' k = { view m k with ios := cancelAll h (view m k).ios })

/-- How the slots see a step. -/
def Seen (e : Ev) (m : Mem) (l : Local) (m' : Mem) (l' : Local) : Prop :=
  ∀ k, On k e m l m' l' ∨ Off k m l m' l'

lemma On.ok {e : Ev} (h : SStep k .ok (view m k) (lview l k) (view m' k) (lview l' k)) :
    On k e m l m' l' := ⟨_, .inl rfl, h⟩

lemma On.as {e : Ev} (h : SStep k e (view m k) (lview l k) (view m' k) (lview l' k)) :
    On k e m l m' l' := ⟨_, .inr rfl, h⟩

/-! ### The functions of the server -/

lemma lview_api {id : SessionID} {p : ApiPc} (ha : l.api = .on i id p) :
    lview l i = ⟨pcRole i l.pc, some (id, p)⟩ := by
  simp [lview, apiRole, ha]

lemma lview_call (id : SessionID) (p : ApiPc) :
    lview (Local.call l (.on i id p)) i = ⟨pcRole i l.pc, some (id, p)⟩ := by
  simp [lview, apiRole, Local.call]

lemma lview_call_idle : lview (Local.call l .idle) k = ⟨pcRole k l.pc, none⟩ := rfl

lemma apiStep_on {id : SessionID} {p : ApiPc} (hd : l.drop = none) (ha : l.api = .on i id p)
    (h : apiStep m l i id p c = some (m', l')) : On i (label m l c) m l m' l' := by
  have hl := lview_api ha
  revert h
  fun_cases apiStep m l i id p c <;>
    simp only [Option.some.injEq, Prod.mk.injEq, reduceCtorEq, false_implies, and_imp] <;>
    rintro rfl rfl <;>
    simp +zetaDelta only [On, hl, lview_call, lview_call_idle, view_onSess, view_onHist, view_onPacket,
      view_enqueue, view_cancelIoEx, label, hd, ha]
  case case1 => exact ⟨_, .inl rfl, .enter⟩
  case case2 h => exact ⟨_, .inl rfl, .chkRelRefuse h⟩
  case case3 h => exact ⟨_, .inl rfl, .chkRel h⟩
  case case4 h => exact ⟨_, .inl rfl, .chkIDRefuse h⟩
  case case5 h _ => exact ⟨_, .inr (if_pos (not_not.mp h)).symm, .chkID (V := view m i) (c := .sendPacket _) (not_not.mp h)⟩
  case case6 h => exact ⟨_, .inr (if_pos (not_not.mp h)).symm, .chkID (V := view m i) (c := .disconnect) (not_not.mp h)⟩
  case case7 => exact ⟨_, .inl rfl, .addRef⟩
  case case8 => exact ⟨_, .inl rfl, .encode⟩
  case case10 => exact ⟨_, .inl rfl, .enqueue⟩
  case case11 => exact ⟨_, .inl rfl, .post⟩
  case case12 => exact ⟨_, .inr rfl, .postFail⟩
  case case13 h => exact ⟨_, .inl rfl, .xchgAgain h⟩
  case case14 h => exact ⟨_, .inl rfl, .xchg (by simpa using h)⟩
  case case15 => exact ⟨_, .inl rfl, .cancel⟩
  case case16 h => exact ⟨_, .inl rfl, .leaveLast h⟩
  case case17 h => exact ⟨_, .inl rfl, .leave h⟩
  case case18 => exact ⟨_, .inl rfl, .request⟩
  case case19 => exact ⟨_, .inr rfl, .requestFail⟩

lemma apiStep_off {id : SessionID} {p : ApiPc} (hk : k ≠ i) (ha : l.api = .on i id p)
    (h : apiStep m l i id p c = some (m', l')) : Off k m l m' l' := by
  have hl : lview l k = ⟨pcRole k l.pc, none⟩ := by simp [lview, apiRole, ha, hk.symm]
  have hc : ∀ q, lview (Local.call l (.on i id q)) k = ⟨pcRole k l.pc, none⟩ := by
    intro q
    simp [lview, apiRole, Local.call, hk.symm]
  revert h
  fun_cases apiStep m l i id p c <;>
    simp only [Option.some.injEq, Prod.mk.injEq, reduceCtorEq, false_implies, and_imp] <;>
    rintro rfl rfl <;>
    simp +zetaDelta [Off, hl, hc, lview_call_idle, view_onSess_ne _ _ _ _ hk, view_onHist_ne _ _ _ _ hk,
      view_onPacket, view_enqueue_ne _ _ _ _ hk, view_cancelIoEx]
  case case15 => exact .inr ⟨_, rfl⟩

lemma lview_goto (ha : l.api = .idle) (pc : Pc) :
    lview (Local.goto l pc) k = ⟨pcRole k pc, none⟩ := by
  simp [lview, apiRole, Local.goto, ha]

lemma lview_pc {pc : Pc} (ha : l.api = .idle) (hp : l.pc = pc) :
    lview l k = ⟨pcRole k pc, none⟩ := by
  simp [lview, apiRole, ha, hp]

lemma pcRole_work (p : WorkPc) : pcRole i (.work i p) = .work p := if_pos rfl

lemma pcRole_rel (p : RelPc) (a : Bool) : pcRole i (.rel i p a) = .rel p := if_pos rfl

lemma pcRole_acc (p : AccOn) : pcRole i (.accOn i p) = .acc p := if_pos rfl

lemma pcRole_relBack (a : Bool) : pcRole k (relBack a) = .none := by
  cases a <;> rfl

lemma pcRole_work_ne (p : WorkPc) (h : k ≠ i) : pcRole k (.work i p) = .none := if_neg h.symm

lemma pcRole_acc_ne (p : AccOn) (h : k ≠ i) : pcRole k (.accOn i p) = .none := if_neg h.symm

/-- What contents code does is a call on one slot or nothing. -/
lemma contentsStep_view {e : Ev} (ha : l.api = .idle) (h : contentsStep m l c = some (m', l')) :
    Seen e m l m' l' := by
  intro k
  have hl : lview l k = ⟨pcRole k l.pc, none⟩ := lview_pc ha rfl
  have hcall : ∀ id q, id ∈ m.issued →
      On k e m l m (Local.call l (.on (slotOf id) id (.enter q))) ∨
      Off k m l m (Local.call l (.on (slotOf id) id (.enter q))) := by
    intro id q hid
    by_cases hk : slotOf id = k
    · left
      subst hk
      refine .ok ?_
      rw [hl, lview_call]
      exact .call id q (by simpa [view] using hid)
    · right
      refine ⟨?_, .inl rfl⟩
      simp [lview, Local.call, apiRole, hk, ha]
  revert h
  fun_cases contentsStep m l c <;>
    try simp only [Option.some.injEq, Prod.mk.injEq, reduceCtorEq, false_implies, and_imp]
  case case1 p =>
    intro h
    simp only [allocPacket] at h
    split at h <;> simp only [Option.some.injEq, Prod.mk.injEq, reduceCtorEq] at h
    obtain ⟨rfl, rfl⟩ := h
    exact .inr ⟨rfl, .inl rfl⟩
  case case2 p hp =>
    intro h
    obtain ⟨rfl, rfl⟩ := Prod.mk.inj h
    exact .inr ⟨lview_freePacket .., .inl (view_onPacket ..)⟩
  case case4 => rintro rfl rfl; exact .inr ⟨rfl, .inl (view_onPacket ..)⟩
  case case6 h => rintro rfl rfl; exact hcall _ _ h.1
  case case8 h => rintro rfl rfl; exact hcall _ _ h

lemma sendStep_on {p : SendPc} (hd : l.drop = none) (ha : l.api = .idle)
    (hp : l.pc = .work i (.send p)) (h : sendStep m l i p c = some (m', l')) :
    On i (label m l c) m l m' l' := by
  have hl := lview_pc (k := i) ha hp
  revert h
  fun_cases sendStep m l i p c <;>
    simp only [Option.some.injEq, Prod.mk.injEq, reduceCtorEq, false_implies, and_imp] <;>
    rintro rfl rfl <;>
    simp +zetaDelta only [On, hl, lview_goto ha, pcRole_work, view_onSess, view_onHist, view_postIo,
      onHist_self, view_cancelIoEx, label, hd, ha, hp]
  case case1 h => exact ⟨_, .inl rfl, .sizeEmpty h⟩
  case case2 h => exact ⟨_, .inl rfl, .size h⟩
  case case3 h => exact ⟨_, .inl rfl, .flagBusy h⟩
  case case4 h => exact ⟨_, .inl rfl, .flagTake h⟩
  case case5 h => exact ⟨_, .inl rfl, .useEmpty h⟩
  case case6 h => exact ⟨_, .inl rfl, .use h⟩
  case case7 h => exact ⟨_, .inr (if_pos h).symm, .giveUp (V := view m i) h⟩
  case case8 h => exact ⟨_, .inl rfl, .retry h⟩
  case case9 hj e q hq => exact ⟨_, .inl rfl, .gather _ _ _ hj hq⟩
  case case10 hj hq => exact ⟨_, .inl rfl, .gatherMiss _ hj hq⟩
  case case11 hj => exact ⟨_, .inl rfl, .gatherDone hj⟩
  case case12 => exact ⟨_, .inl rfl, .setCnt⟩
  case case13 => exact ⟨_, .inl rfl, .inc⟩
  case case14 => exact ⟨_, .inl rfl, .load⟩
  case case15 => exact ⟨_, .inl rfl, .sendError⟩
  case case17 hs => exact ⟨_, .inl rfl, .sendDone _ hs⟩
  case case19 hs => exact ⟨_, .inl rfl, .sendPend _ hs⟩
  case case20 hs => exact ⟨_, .inl rfl, .pendInvalid hs⟩
  case case21 hs => exact ⟨_, .inl rfl, .pend hs⟩
  case case22 => exact ⟨_, .inl rfl, .sendCancel⟩
  case case23 => exact ⟨_, .inl rfl, .sendFail⟩

lemma sendStep_off {p : SendPc} (hk : k ≠ i) (ha : l.api = .idle)
    (hp : l.pc = .work i (.send p)) (h : sendStep m l i p c = some (m', l')) :
    Off k m l m' l' := by
  have hl := lview_pc (k := k) ha hp
  revert h
  fun_cases sendStep m l i p c <;>
    simp only [Option.some.injEq, Prod.mk.injEq, reduceCtorEq, false_implies, and_imp] <;>
    rintro rfl rfl <;>
    simp +zetaDelta only [Off, hl, lview_goto ha, pcRole_work_ne _ hk, view_onSess_ne _ _ _ _ hk,
      view_onHist_ne _ _ _ _ hk, view_postIo_ne _ _ _ _ _ _ _ hk, view_cancelIoEx, true_and,
      true_or]
  case case22 => exact .inr ⟨_, rfl⟩

lemma postStep_on {p : PostPc} (e : Ev) (ha : l.api = .idle) (hp : l.pc = .work i (.post p))
    (h : postStep m l i p c = some (m', l')) : On i e m l m' l' := by
  have hl := lview_pc (k := i) ha hp
  revert h
  fun_cases postStep m l i p c <;>
    simp only [Option.some.injEq, Prod.mk.injEq, reduceCtorEq, false_implies, and_imp] <;>
    rintro rfl rfl <;>
    simp only [On, hl, lview_goto ha, pcRole_work, view_onSess, view_postIo, view_cancelIoEx]
  case case1 => exact ⟨_, .inl rfl, .postInc⟩
  case case2 => exact ⟨_, .inl rfl, .postLoad⟩
  case case3 => exact ⟨_, .inl rfl, .recvError⟩
  case case5 hs => exact ⟨_, .inl rfl, .recvDone _ _ hs⟩
  case case7 hs => exact ⟨_, .inl rfl, .recvPend _ _ hs⟩
  case case8 hs => exact ⟨_, .inl rfl, .postPendInvalid hs⟩
  case case9 hs => exact ⟨_, .inl rfl, .postPend hs⟩
  case case10 => exact ⟨_, .inl rfl, .postCancel⟩
  case case11 => exact ⟨_, .inl rfl, .postFailed⟩

lemma postStep_off {p : PostPc} (hk : k ≠ i) (ha : l.api = .idle)
    (hp : l.pc = .work i (.post p)) (h : postStep m l i p c = some (m', l')) :
    Off k m l m' l' := by
  have hl := lview_pc (k := k) ha hp
  revert h
  fun_cases postStep m l i p c <;>
    simp only [Option.some.injEq, Prod.mk.injEq, reduceCtorEq, false_implies, and_imp] <;>
    rintro rfl rfl <;>
    simp only [Off, hl, lview_goto ha, pcRole_work_ne _ hk, view_onSess_ne _ _ _ _ hk,
      view_postIo_ne _ _ _ _ _ _ _ hk, view_cancelIoEx, true_and, true_or]
  case case10 => exact .inr ⟨_, rfl⟩

lemma allocPacket_view {p : ℕ} (h : allocPacket m l p = some (m', l')) :
    (∀ k, view m' k = view m k) ∧ ∀ k, lview l' k = lview l k := by
  simp only [allocPacket] at h
  split at h <;> simp only [Option.some.injEq, Prod.mk.injEq, reduceCtorEq] at h
  obtain ⟨rfl, rfl⟩ := h
  exact ⟨fun _ => rfl, fun _ => rfl⟩

/-- The point of a thread is on no slot but `i`. -/
def OnlyOn (i : ℕ) (pc : Pc) : Prop := ∀ k ≠ i, pcRole k pc = .none

lemma onlyOn_work (p : WorkPc) : OnlyOn i (.work i p) := fun _ h => if_neg h.symm

lemma onlyOn_rel (p : RelPc) (a : Bool) : OnlyOn i (.rel i p a) := fun _ h => if_neg h.symm

lemma onlyOn_accOn (p : AccOn) : OnlyOn i (.accOn i p) := fun _ h => if_neg h.symm

lemma onlyOn_acc (p : AccPc) : OnlyOn i (.acc p) := fun _ _ => rfl

lemma onlyOn_relBack (a : Bool) : OnlyOn i (relBack a) := fun _ _ => pcRole_relBack a

/-- A step of a thread's own code on slot `i` that touches no other. -/
lemma seen_pc {pc pc' : Pc} {e : Ev} (ha : l.api = .idle) (hp : l.pc = pc) (hpc : OnlyOn i pc)
    (hpc' : OnlyOn i pc') (hl : ∀ k, lview l' k = ⟨pcRole k pc', none⟩)
    (hv : ∀ k ≠ i, view m' k = view m k)
    (h : ∃ e', (e' = .ok ∨ e' = e) ∧
      SStep i e' (view m i) ⟨pcRole i pc, none⟩ (view m' i) ⟨pcRole i pc', none⟩) :
    Seen e m l m' l' := by
  intro k
  by_cases hk : k = i
  · subst hk
    left
    rw [On, hl, lview_pc ha hp]
    exact h
  · refine .inr ⟨?_, .inl (hv k hk)⟩
    rw [hl, lview_pc ha hp, hpc k hk, hpc' k hk]

/-- A step of a worker that stays with its slot. -/
lemma seen_work {w w' : WorkPc} {e : Ev} (ha : l.api = .idle) (hp : l.pc = .work i w)
    (hl : ∀ k, lview l' k = ⟨pcRole k (.work i w'), none⟩) (hv : ∀ k ≠ i, view m' k = view m k)
    (h : SStep i .ok (view m i) ⟨.work w, none⟩ (view m' i) ⟨.work w', none⟩) :
    Seen e m l m' l' :=
  seen_pc ha hp (onlyOn_work _) (onlyOn_work _) hl hv
    ⟨_, .inl rfl, by rw [pcRole_work, pcRole_work]; exact h⟩

lemma recvStep_view {p : RecvPc} {e : Ev} (hid : slotOf (m.sess i).sessionID = i)
    (ha : l.api = .idle) (hp : l.pc = .work i (.recv p))
    (h : recvStep m l i p c = some (m', l')) : Seen e m l m' l' := by
  revert h
  fun_cases recvStep m l i p c <;>
    try simp only [Option.some.injEq, Prod.mk.injEq, reduceCtorEq, false_implies, and_imp]
  case case1 =>
    rintro rfl rfl
    refine seen_work ha hp (fun k => lview_goto ha _) (fun k => view_onSess_ne _ _ _ _) ?_
    rw [view_onSess]
    exact .moveRear
  case case3 | case7 =>
    rintro rfl rfl
    exact seen_work ha hp (fun k => lview_goto ha _) (fun k _ => rfl) (.parsed _ trivial)
  case case4 | case5 | case6 | case8 | case15 =>
    rintro rfl rfl
    exact seen_work ha hp (fun k => lview_goto ha _) (fun k _ => rfl) (.parse _ _ trivial trivial)
  case case9 =>
    intro h
    obtain ⟨hv, hl⟩ := allocPacket_view h
    refine seen_work ha hp (fun k => (hl k).trans (lview_goto ha _)) (fun k _ => hv k) ?_
    rw [hv]
    exact .parse _ _ trivial trivial
  case case10 =>
    rintro rfl rfl
    refine seen_work ha hp (fun k => lview_goto ha _) (fun k hk => ?_) ?_
    · rw [view_onPacket, view_onSess_ne _ _ _ _ hk]
    · rw [view_onPacket, view_onSess]
      exact .dequeue _ _ _ trivial trivial
  case case12 | case13 =>
    rintro rfl rfl
    exact seen_work ha hp (fun k => lview_goto ha _) (fun k _ => rfl) (.parse _ _ trivial trivial)
  case case16 => exact contentsStep_view ha
  case case17 | case18 =>
    intro h
    obtain ⟨rfl, rfl⟩ := Prod.mk.inj h
    have hl : ∀ k p' q, lview (freePacket m (Local.goto { l with holds := l.holds.erase q }
        (.work i (.recv p'))) q).2 k = ⟨pcRole k (.work i (.recv p')), none⟩ := by
      intro k p' q
      rw [lview_freePacket]
      exact lview_goto ha _
    exact seen_work ha hp (fun k => hl k _ _) (fun k _ => rfl)
      (.parse _ _ trivial (by exact (trivial : True)))
  case case19 id =>
    rintro rfl rfl k
    by_cases hk : k = i
    · subst hk
      refine .inl (.ok ?_)
      rw [lview_pc ha hp, show slotOf id = k from hid, lview_call, pcRole_work, Local.goto,
        pcRole_work]
      exact .disconnect
    · refine .inr ⟨?_, .inl rfl⟩
      rw [lview_pc ha hp, show slotOf id = i from hid, pcRole_work_ne _ hk]
      simp [lview, Local.call, Local.goto, pcRole_work_ne _ hk, apiRole, Ne.symm hk]
  case case20 =>
    rintro rfl rfl
    exact seen_work ha hp (fun k => lview_goto ha _) (fun k _ => rfl) (.parsed _ trivial)

lemma Seen.of {e : Ev} (hon : On i e m l m' l') (hoff : ∀ k ≠ i, Off k m l m' l') :
    Seen e m l m' l' := by
  intro k
  by_cases hk : k = i
  · exact .inl (hk ▸ hon)
  · exact .inr (hoff k hk)

lemma pcRole_dispatch (j : Job) : pcRole i (dispatch i j) = jobRole j := by
  cases j <;> simp [dispatch, jobRole, pcRole]

lemma onlyOn_dispatch (j : Job) : OnlyOn i (dispatch i j) := by
  intro k hk
  cases j <;> simp [dispatch, pcRole, Ne.symm hk]

lemma view_skipJob (j : Job) :
    view (skipJob m i j) i = { view m i with h := skipHist (m.hist i) j } := by
  cases j
  case sendDone n => rw [skipJob, view_onHist]; rfl
  all_goals rfl

lemma view_skipJob_ne (j : Job) (h : k ≠ i) : view (skipJob m i j) k = view m k := by
  cases j
  case sendDone n => rw [skipJob, view_onHist_ne _ _ _ _ h]
  all_goals rfl

lemma workStep_view {p : WorkPc} (hid : slotOf (m.sess i).sessionID = i) (hd : l.drop = none)
    (ha : l.api = .idle) (hp : l.pc = .work i p) (h : workStep m l i p c = some (m', l')) :
    Seen (label m l c) m l m' l' := by
  revert h
  fun_cases workStep m l i p c <;>
    try simp only [Option.some.injEq, Prod.mk.injEq, reduceCtorEq, false_implies, and_imp]
  case case1 j h =>
    rintro rfl rfl
    refine seen_pc ha hp (onlyOn_work _) (onlyOn_dispatch j) (fun k => lview_goto ha _)
      (fun k _ => rfl) ⟨_, .inl rfl, ?_⟩
    rw [pcRole_work, pcRole_dispatch]
    exact .entryPass h.1 h.2
  case case2 j h =>
    rintro rfl rfl
    refine seen_pc ha hp (onlyOn_work _) (onlyOn_work _) (fun k => lview_goto ha _)
      (fun k hk => view_skipJob_ne j hk) ?_
    rw [pcRole_work, pcRole_work, view_skipJob]
    by_cases hj : j = .release
    · subst hj
      have hs : (m.sess i).socket = invalidSocket := by simpa [Job.transferred] using h
      refine ⟨_, .inr ?_, .entrySkipRelease hs⟩
      simp [label, hd, ha, hp, hs]
    · refine ⟨_, .inl rfl, .entrySkip hj ?_⟩
      simpa [Classical.or_iff_not_imp_left] using h
  case case3 =>
    rintro rfl rfl
    exact seen_work ha hp (fun k => lview_goto ha _) (fun k _ => rfl) .readCnt
  case case4 =>
    rintro rfl rfl
    refine seen_work ha hp (fun k => lview_goto ha _) (fun k => view_onSess_ne _ _ _ _) ?_
    rw [view_onSess]
    exact .zeroCnt
  case case5 hj e =>
    intro h
    obtain ⟨rfl, rfl⟩ := Prod.mk.inj h
    refine seen_work ha hp (fun k => (lview_freePacket ..).trans (lview_goto ha _))
      (fun k hk => ?_) ?_
    · rw [view_onPacket, view_onHist_ne _ _ _ _ hk]
    · rw [view_onPacket, view_onHist]
      exact .freeArr hj
  case case6 hj =>
    rintro rfl rfl
    exact seen_work ha hp (fun k => lview_goto ha _) (fun k _ => rfl) (.freeArrDone hj)
  case case7 =>
    rintro rfl rfl
    refine seen_work ha hp (fun k => lview_goto ha _) (fun k => view_onSess_ne _ _ _ _) ?_
    rw [view_onSess]
    exact .unlock
  case case8 => exact fun h => .of (sendStep_on hd ha hp h) fun k hk => sendStep_off hk ha hp h
  case case9 => exact recvStep_view hid ha hp
  case case10 => exact fun h => .of (postStep_on _ ha hp h) fun k hk => postStep_off hk ha hp h
  case case11 h0 =>
    rintro rfl rfl
    refine seen_pc ha hp (onlyOn_work _) (onlyOn_rel _ _) (fun k => lview_goto ha _)
      (fun k => view_onSess_ne _ _ _ _) ⟨_, .inl rfl, ?_⟩
    rw [pcRole_work, pcRole_rel, view_onSess]
    exact .decLast h0
  case case12 h0 =>
    rintro rfl rfl
    refine seen_pc ha hp (onlyOn_work _) (fun _ _ => rfl) (fun k => lview_goto ha _)
      (fun k => view_onSess_ne _ _ _ _) ⟨_, .inl rfl, ?_⟩
    rw [pcRole_work, view_onSess]
    exact .dec h0

lemma relStep_view {p : RelPc} {a : Bool} {e : Ev} (hid : slotOf (m.sess i).sessionID = i)
    (ha : l.api = .idle) (hp : l.pc = .rel i p a) (h : relStep m l i a p c = some (m', l')) :
    Seen e m l m' l' := by
  -- a step from one point of `ReleaseSession` to another
  have hrel : ∀ {p' m' l'}, (∀ k, lview l' k = ⟨pcRole k (.rel i p' a), none⟩) →
      (∀ k ≠ i, view m' k = view m k) →
      SStep i .ok (view m i) ⟨.rel p, none⟩ (view m' i) ⟨.rel p', none⟩ → Seen e m l m' l' :=
    fun hl hv h => seen_pc ha hp (onlyOn_rel _ _) (onlyOn_rel _ _) hl hv
      ⟨_, .inl rfl, by rw [pcRole_rel, pcRole_rel]; exact h⟩
  have hback : ∀ {m'}, (∀ k ≠ i, view m' k = view m k) →
      SStep i .ok (view m i) ⟨.rel p, none⟩ (view m' i) ⟨.none, none⟩ →
      Seen e m l m' (Local.goto l (relBack a)) :=
    fun hv h => seen_pc ha hp (onlyOn_rel _ _) (onlyOn_relBack a) (fun k => lview_goto ha _) hv
      ⟨_, .inl rfl, by rw [pcRole_rel, pcRole_relBack]; exact h⟩
  revert h
  fun_cases relStep m l i a p c <;>
    try simp only [Option.some.injEq, Prod.mk.injEq, reduceCtorEq, false_implies, and_imp]
  case case1 h =>
    rintro rfl rfl
    refine hrel (fun k => lview_goto ha _) (fun k hk => ?_) ?_
    · rw [view_onHist_ne _ _ _ _ hk, view_onSess_ne _ _ _ _ hk]
    · rw [view_onHist, view_onSess]
      exact .cas h.1 h.2
  case case2 h =>
    rintro rfl rfl
    exact hback (fun _ _ => rfl) (.casFail h)
  case case3 hq =>
    rintro rfl rfl
    exact hrel (fun k => lview_goto ha _) (fun _ _ => rfl) (.drainDone hq)
  case case4 hq =>
    rintro rfl rfl
    refine hrel (fun k => lview_goto ha _) (fun k => view_onSess_ne _ _ _ _) ?_
    rw [view_onSess]
    exact .drain _ _ hq
  case case5 =>
    intro h
    obtain ⟨rfl, rfl⟩ := Prod.mk.inj h
    refine hrel (fun k => (lview_freePacket ..).trans (lview_goto ha _)) (fun k hk => ?_) ?_
    · rw [view_onPacket, view_onHist_ne _ _ _ _ hk]
    · rw [view_onPacket, view_onHist]
      exact .drainFree
  case case6 =>
    rintro rfl rfl
    exact hrel (fun k => lview_goto ha _) (fun _ _ => rfl) .relReadCnt
  case case7 hj _ =>
    intro h
    obtain ⟨rfl, rfl⟩ := Prod.mk.inj h
    refine hrel (fun k => (lview_freePacket ..).trans (lview_goto ha _)) (fun k hk => ?_) ?_
    · rw [view_onPacket, view_onHist_ne _ _ _ _ hk]
    · rw [view_onPacket, view_onHist]
      exact .relFreeArr hj
  case case8 hj =>
    rintro rfl rfl
    exact hrel (fun k => lview_goto ha _) (fun _ _ => rfl) (.relFreeArrDone hj)
  case case9 | case10 | case11 =>
    rintro rfl rfl
    exact hrel (fun k => lview_goto ha _) (fun _ _ => rfl) (.relWalk trivial)
  case case12 => exact contentsStep_view ha
  case case13 =>
    rintro rfl rfl
    refine hrel (fun k => lview_goto ha _) (fun k hk => ?_) ?_
    · rw [view_onHist_ne _ _ _ _ hk]
      simp +zetaDelta [view, hid, Ne.symm hk]
    · rw [view_onHist]
      simp +zetaDelta only [view, hid, List.count_cons_self]
      exact .push (V := view m i) hid
  case case14 =>
    rintro rfl rfl
    exact hback (fun _ _ => rfl) .decNow

lemma initStep_on {h : Sock} {p : InitPc} (hi : i < 65536) (ha : l.api = .idle) :
    SStep i .ok (view m i) ⟨.acc (.init h p), none⟩ (view (initStep m l i h p).1 i)
      (lview (initStep m l i h p).2 i) := by
  cases p <;> simp only [initStep, view_onSess, view_onHist, lview_goto ha, pcRole_acc]
  case ioCount => exact .initIoCount
  case socket => exact .initSocket
  case relSocket => exact .initRelSocket
  case sessionID => exact .initSessionID _ (slotOf_makeID _ _ hi)
  case releaseFlag => exact .initReleaseFlag
  case sendFlag => exact .initSendFlag
  case sendCnt => exact .initSendCnt
  case recvQ => exact .initRecvQ

lemma initStep_off {h : Sock} {p : InitPc} (hk : k ≠ i) (ha : l.api = .idle) :
    view (initStep m l i h p).1 k = view m k ∧
      lview (initStep m l i h p).2 k = ⟨.none, none⟩ := by
  cases p <;> simp [initStep, view_onSess_ne _ _ _ _ hk, view_onHist_ne _ _ _ _ hk, lview_goto ha,
    pcRole_acc_ne _ hk]

lemma accOnStep_view {p : AccOn} {e : Ev} (hi : i < 65536)
    (hid : ∀ h, p = .join h → slotOf (m.sess i).sessionID = i)
    (ha : l.api = .idle) (hp : l.pc = .accOn i p) (h : accOnStep m l i p c = some (m', l')) :
    Seen e m l m' l' := by
  have hacc : ∀ {p' m' l'}, (∀ k, lview l' k = ⟨pcRole k (.accOn i p'), none⟩) →
      (∀ k ≠ i, view m' k = view m k) →
      SStep i .ok (view m i) ⟨.acc p, none⟩ (view m' i) ⟨.acc p', none⟩ → Seen e m l m' l' :=
    fun hl hv h => seen_pc ha hp (onlyOn_accOn _) (onlyOn_accOn _) hl hv
      ⟨_, .inl rfl, by rw [pcRole_acc, pcRole_acc]; exact h⟩
  have hback : ∀ {m'}, (∀ k ≠ i, view m' k = view m k) →
      SStep i .ok (view m i) ⟨.acc p, none⟩ (view m' i) ⟨.none, none⟩ →
      Seen e m l m' (Local.goto l (.acc .accept)) :=
    fun hv h => seen_pc ha hp (onlyOn_accOn _) (onlyOn_acc _) (fun k => lview_goto ha _) hv
      ⟨_, .inl rfl, by rw [pcRole_acc]; exact h⟩
  revert h
  fun_cases accOnStep m l i p c <;>
    try simp only [Option.some.injEq, Prod.mk.injEq, reduceCtorEq, false_implies, and_imp]
  case case1 s q =>
    intro h
    have hm : m' = (initStep m l i s q).1 := (congrArg Prod.fst h).symm
    have hl : l' = (initStep m l i s q).2 := (congrArg Prod.snd h).symm
    subst hm hl
    refine .of (i := i) (.ok ?_) fun k hk => ?_
    · rw [lview_pc ha hp, pcRole_acc]
      exact initStep_on hi ha
    · obtain ⟨hv, hl⟩ := initStep_off (m := m) (h := s) (p := q) hk ha
      exact ⟨by rw [hl, lview_pc ha hp, pcRole_acc_ne _ hk], .inl hv⟩
  case case2 =>
    rintro rfl rfl
    exact hacc (fun k => lview_goto ha _) (fun _ _ => rfl) .assoc
  case case3 =>
    rintro rfl rfl
    exact hacc (fun k => lview_goto ha _) (fun _ _ => rfl) .assocFail
  case case4 s _ =>
    rintro rfl rfl
    have hs := hid s rfl
    refine hacc (fun k => lview_goto ha _) (fun k hk => ?_) ?_
    · rw [view_onHist_ne _ _ _ _ hk]
      simp +zetaDelta [view, hs, Ne.symm hk]
    · rw [view_onHist]
      simp +zetaDelta only [view, hs, decide_true, List.filter_cons_of_pos]
      exact .join (V := view m i)
  case case5 =>
    rintro rfl rfl
    exact hacc (fun k => lview_goto ha _) (fun _ _ => rfl) .joined
  case case6 => exact contentsStep_view ha
  case case7 =>
    rintro rfl rfl
    refine hback (fun k => view_postIo_ne _ _ _ _ _ _ _) ?_
    rw [view_postIo]
    exact .accRecv _ _
  case case8 =>
    rintro rfl rfl
    refine hacc (fun k => lview_goto ha _) (fun k => view_postIo_ne _ _ _ _ _ _ _) ?_
    rw [view_postIo]
    exact .accRecvPend _ _
  case case9 =>
    rintro rfl rfl
    exact hacc (fun k => lview_goto ha _) (fun _ _ => rfl) .accRecvFail
  case case10 hs =>
    rintro rfl rfl
    exact hacc (fun k => lview_goto ha _) (fun _ _ => rfl) (.accPendInvalid hs)
  case case11 hs =>
    rintro rfl rfl
    exact hback (fun _ _ => rfl) (.accPend hs)
  case case12 =>
    rintro rfl rfl
    refine .of (i := i) (.ok ?_) fun k hk => ⟨?_, .inr ⟨_, view_cancelIoEx ..⟩⟩
    · rw [lview_goto ha, lview_pc ha hp, pcRole_acc, view_cancelIoEx]
      exact .accCancel
    · rw [lview_goto ha, lview_pc ha hp, pcRole_acc_ne _ hk]
      rfl
  case case13 h0 =>
    rintro rfl rfl
    refine seen_pc ha hp (onlyOn_accOn _) (onlyOn_rel _ _) (fun k => lview_goto ha _)
      (fun k => view_onSess_ne _ _ _ _) ⟨_, .inl rfl, ?_⟩
    rw [pcRole_acc, pcRole_rel, view_onSess]
    exact .accFailLast h0
  case case14 h0 =>
    rintro rfl rfl
    refine hback (fun k => view_onSess_ne _ _ _ _) ?_
    rw [view_onSess]
    exact .accFail h0

lemma acceptStep_view {p : AccPc} {e : Ev} (ha : l.api = .idle) (hp : l.pc = .acc p)
    (h : acceptStep m l p c = some (m', l')) : Seen e m l m' l' := by
  have hq : ∀ {p' m'}, (∀ k, view m' k = view m k) →
      Seen e m l m' (Local.goto l (.acc p')) := by
    intro p' m' hv k
    exact .inr ⟨by rw [lview_goto ha, lview_pc ha hp]; rfl, .inl (hv k)⟩
  revert h
  fun_cases acceptStep m l p c <;>
    try simp only [Option.some.injEq, Prod.mk.injEq, reduceCtorEq, false_implies, and_imp]
  case case8 => exact contentsStep_view ha
  case case12 => exact fun h h' => h' ▸ h ▸ fun k => .inr ⟨rfl, .inl rfl⟩
  case case13 i st hst _ =>
    rintro rfl rfl
    refine seen_pc (i := i) ha hp (onlyOn_acc _) (onlyOn_accOn _) (fun k => lview_goto ha _)
      (fun k hk => ?_) ⟨_, .inl rfl, ?_⟩
    · rw [view_onHist_ne _ _ _ _ hk]
      simp +zetaDelta [view, hst, Ne.symm hk]
    · rw [view_onHist, pcRole_acc]
      exact .pop (V := view m i) _ _ (st.count i) (by simp [view, hst])
  all_goals
    rintro rfl rfl
    exact hq fun _ => rfl

/-- What the proofs below need to know of a thread: the slot it works on carries its own number
in its `sessionID`, and a slot that is being prepared has a number of 16 bits. -/
structure Known (m : Mem) (l : Local) : Prop where
  work : ∀ i p, l.pc = .work i p → slotOf (m.sess i).sessionID = i
  rel : ∀ i p a, l.pc = .rel i p a → slotOf (m.sess i).sessionID = i
  join : ∀ i h, l.pc = .accOn i (.join h) → slotOf (m.sess i).sessionID = i
  small : ∀ i p, l.pc = .accOn i p → i < 65536

/-- **Every step of a thread is seen.** -/
theorem lstep_seen (hn : Known m l) (h : lstep m l c = some (m', l')) :
    Seen (label m l c) m l m' l' := by
  unfold lstep at h
  split at h
  case h_1 p hd =>
    split at h <;> simp only [Option.some.injEq, Prod.mk.injEq, reduceCtorEq] at h
    obtain ⟨rfl, rfl⟩ := h
    exact fun k => .inr ⟨rfl, .inl rfl⟩
  case h_2 hd =>
    split at h
    case h_1 i id p ha => exact .of (apiStep_on hd ha h) fun k hk => apiStep_off hk ha h
    case h_2 ha =>
      split at h
      case h_1 => exact contentsStep_view ha h
      case h_2 hp => exact acceptStep_view ha hp h
      case h_3 hp => exact accOnStep_view (hn.small _ _ hp) (fun s hs => hn.join _ s (hs ▸ hp)) ha hp h
      case h_4 hp =>
        split at h <;> simp only [Option.some.injEq, Prod.mk.injEq, reduceCtorEq] at h
        rename_i i j q hq
        obtain ⟨rfl, rfl⟩ := h
        refine seen_pc (i := i) ha hp (fun _ _ => rfl) (onlyOn_work _) (fun k => lview_goto ha _)
          (fun k hk => ?_) ⟨_, .inl rfl, ?_⟩
        · simp [view, hq, Ne.symm hk]
        · rw [pcRole_work]
          exact .gqcs (V := view m i) j _ (by simp [view, hq])
      case h_5 hp => exact workStep_view (hn.work _ _ hp) hd ha hp h
      case h_6 hp => exact relStep_view (hn.rel _ _ _ hp) ha hp h

end LoginServerChat.SlotView
