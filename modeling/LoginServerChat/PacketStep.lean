import LoginServerChat.SlotReuse

/-!
The server as one packet sees it: the packet itself, how often the pool has it, the references
that the thread which steps has to it, and those of one slot.

`PStep` lists what a step can do to a packet. Every step of the server is for each packet one of
these, on one slot.
-/

namespace LoginServerChat.PacketStep

open NetPacket NetState NetStep SlotStep SlotView SlotRun SlotRefs

/-- The number of places that `(USHORT)sessionID` can name. -/
def maxSlots : ℕ := 65536

/-! ### Owners -/

/-- A call of `SendPacket` has a reference from its `AddRefCount` to its `Enqueue`. -/
def Api.share (p : ℕ) : Api → ℕ
  | .on _ _ (.encode q) | .on _ _ (.enqueue q) => if q = p then 1 else 0
  | _ => 0

/-- `ReleaseSession` has one from its `Dequeue` to its `Free`. -/
def Pc.share (p : ℕ) : Pc → ℕ
  | .rel _ (.drainFree e) _ => if e.pkt = p then 1 else 0
  | _ => 0

/-- The references of a thread to packet `p`. -/
def share (p : ℕ) (l : Local) : ℕ := l.holds.count p + Api.share p l.api + Pc.share p l.pc

/-- The thread has taken the count of `p` to zero and has yet to give it back to the pool. -/
def drops (p : ℕ) (l : Local) : ℕ := if l.drop = some p then 1 else 0

/-- The references of slot `k`: in `sendQ`, and in `sendPacketArr`. -/
def slotShare (m : Mem) (p k : ℕ) : ℕ :=
  (m.sess k).sendQ.countP (·.pkt = p) + (m.hist k).owned.countP (·.pkt = p)

/-- What packet `p` is to a thread. -/
structure PView where
  q : Packet
  pool : ℕ
  hold : ℕ
  drop : ℕ

def pview (p : ℕ) (m : Mem) (l : Local) : PView := ⟨m.packet p, m.pool p, share p l, drops p l⟩

/-- What `Free` leaves to do. -/
def lastDrop (q : Packet) : ℕ := if q.refCount - 1 = 0 then 1 else 0

/-- A step on a packet to which a slot has `s` references. -/
inductive PStep : PView → ℕ → PView → ℕ → Prop
  | idle {x s} : PStep x s x s
  | edit {x s} (q : Packet) (hq : q.refCount = x.q.refCount) (hh : 0 < x.hold) :
      PStep x s { x with q := q } s
  | alloc {x s} (n : ℕ) (hp : x.pool = n + 1) :
      PStep x s { x with q := x.q.addRefCount, pool := n, hold := x.hold + 1 } s
  | addRef {x s} (hh : 0 < x.hold) :
      PStep x s { x with q := x.q.addRefCount, hold := x.hold + 1 } s
  | queue {x s} (n : ℕ) (hh : x.hold = n + 1) : PStep x s { x with hold := n } (s + 1)
  | unqueue {x s} : PStep x (s + 1) { x with hold := x.hold + 1 } s
  | free {x s} (n : ℕ) (hh : x.hold = n + 1) (hd : x.drop = 0) :
      PStep x s { x with q := x.q.decRefCount, hold := n, drop := lastDrop x.q } s
  | slotFree {x s} (hd : x.drop = 0) :
      PStep x (s + 1) { x with q := x.q.decRefCount, drop := lastDrop x.q } s
  | recycle {x s} (hd : x.drop = 1) :
      PStep x s { x with q := x.q.clear, pool := x.pool + 1, drop := 0 } s

variable {m m' : Mem} {l l' : Local} {i p : ℕ} {ch : Choice}

/-- How packet `p` sees a step. -/
def PSeen (p : ℕ) (m : Mem) (l : Local) (m' : Mem) (l' : Local) : Prop :=
  ∃ i < maxSlots, (∀ k ≠ i, slotShare m' p k = slotShare m p k) ∧
    PStep (pview p m l) (slotShare m p i) (pview p m' l') (slotShare m' p i)

/-! ### What a thread knows of its packets -/

/-- The packet of a call that has not taken its own reference yet. -/
def ApiPc.needs : ApiPc → Option ℕ
  | .enter (.sendPacket p) | .chkRel (.sendPacket p) | .chkID (.sendPacket p) | .addRef p => some p
  | _ => none

/-- The packet a worker has received a frame into. -/
def Pc.needs : Pc → Option ℕ
  | .work _ (.recv (.dequeue _ p)) | .work _ (.recv (.decode p)) | .work _ (.recv (.onRecv p))
  | .work _ (.recv (.free p)) | .work _ (.recv (.bad p)) => some p
  | _ => none

/-- They are among those the thread holds. -/
structure Holding (l : Local) : Prop where
  api : ∀ i id q p, l.api = .on i id q → ApiPc.needs q = some p → p ∈ l.holds
  pc : ∀ p, Pc.needs l.pc = some p → p ∈ l.holds

/-- What the session of the slot a thread works on owns. -/
structure Owning (m : Mem) (l : Local) : Prop where
  work : ∀ i j bk, l.pc = .work i (.freeArr j bk) → j < bk →
    (m.hist i).owned = (m.sess i).sendPacketArr j :: (m.hist i).owned.tail
  rel : ∀ i j bk x, l.pc = .rel i (.freeArr j bk) x → j < bk →
    (m.hist i).owned = (m.sess i).sendPacketArr j :: (m.hist i).owned.tail
  init : ∀ i s, l.pc = .accOn i (.init s .sendCnt) → (m.hist i).owned = []
  pcSlot : ∀ i, pcRole i l.pc ≠ .none → i < maxSlots
  apiSlot : ∀ i id q, l.api = .on i id q → i < maxSlots

/-! ### Shares of updated memory -/

@[simp] lemma slotShare_onSess {f : Session → Session} {k : ℕ}
    (hf : (f (m.sess i)).sendQ = (m.sess i).sendQ) :
    slotShare (m.onSess i f) p k = slotShare m p k := by
  by_cases hk : k = i
  · subst hk
    simp [slotShare, Mem.onSess, hf]
  · simp [slotShare, Mem.onSess, hk]

@[simp] lemma slotShare_onHist {f : Hist → Hist} {k : ℕ}
    (hf : (f (m.hist i)).owned = (m.hist i).owned) :
    slotShare (m.onHist i f) p k = slotShare m p k := by
  by_cases hk : k = i
  · subst hk
    simp [slotShare, Mem.onHist, hf]
  · simp [slotShare, Mem.onHist, hk]

@[simp] lemma slotShare_cancelIoEx {s : Sock} {k : ℕ} :
    slotShare (m.cancelIoEx s) p k = slotShare m p k := rfl

@[simp] lemma slotShare_postIo {snd pnd : Bool} {s : Sock} {n k : ℕ} :
    slotShare (m.postIo i snd s n pnd) p k = slotShare m p k := rfl

@[simp] lemma slotShare_enqueue {j : Job} {k : ℕ} :
    slotShare (m.enqueue i j) p k = slotShare m p k := rfl

lemma slotShare_ne {f : Session → Session} {g : Hist → Hist} {k : ℕ} (hk : k ≠ i) :
    slotShare ((m.onSess i f).onHist i g) p k = slotShare m p k := by
  simp [slotShare, Mem.onSess, Mem.onHist, hk]

lemma slotShare_onHist_ne {g : Hist → Hist} {k : ℕ} (hk : k ≠ i) :
    slotShare (m.onHist i g) p k = slotShare m p k := by
  simp [slotShare, Mem.onHist, hk]

lemma slotShare_onSess_ne {f : Session → Session} {k : ℕ} (hk : k ≠ i) :
    slotShare (m.onSess i f) p k = slotShare m p k := by
  simp [slotShare, Mem.onSess, hk]

lemma slotShare_push {q : ℕ} {id : SessionID} {g : Hist → Hist}
    (hg : (g (m.hist i)).owned = (m.hist i).owned) :
    slotShare ((m.onSess i fun s => { s with sendQ := s.sendQ ++ [⟨q, id⟩] }).onHist i g) p i =
      slotShare m p i + if q = p then 1 else 0 := by
  simp only [slotShare, Mem.onSess, Mem.onHist, Function.update_self, List.countP_append,
    List.countP_singleton, decide_eq_true_eq, hg]
  omega

lemma share_goto {pc : Pc} (h : Pc.share p pc = Pc.share p l.pc) :
    share p (Local.goto l pc) = share p l := by
  simp [share, Local.goto, h]

lemma share_call {a : Api} (h : Api.share p a = Api.share p l.api) :
    share p (Local.call l a) = share p l := by
  simp [share, Local.call, h]

lemma drops_call {a : Api} : drops p (Local.call l a) = drops p l := rfl

lemma drops_goto {pc : Pc} : drops p (Local.goto l pc) = drops p l := rfl

/-- A step that does nothing to packets. -/
lemma pseen_idle (hq : m'.packet = m.packet) (hpool : m'.pool = m.pool)
    (hs : ∀ k, slotShare m' p k = slotShare m p k) (hh : share p l' = share p l)
    (hd : l'.drop = l.drop) : PSeen p m l m' l' := by
  refine ⟨0, by decide, fun k _ => hs k, ?_⟩
  have : pview p m' l' = pview p m l := by simp [pview, hq, hpool, hh, drops, hd]
  rw [this, hs]
  exact .idle

/-- A step on packets that leaves the slots alone. -/
lemma pseen_packet (hs : ∀ k, slotShare m' p k = slotShare m p k)
    (h : PStep (pview p m l) (slotShare m p 0) (pview p m' l') (slotShare m p 0)) :
    PSeen p m l m' l' := ⟨0, by decide, fun k _ => hs k, by rwa [hs]⟩

/-- A packet that the thread holds is changed. -/
lemma pseen_edit {m₁ : Mem} {q : ℕ} {f : Packet → Packet} (hm : m₁.packet = m.packet)
    (hpool : m₁.pool = m.pool) (hs : ∀ k, slotShare m₁ p k = slotShare m p k)
    (hf : (f (m.packet q)).refCount = (m.packet q).refCount) (hh : 0 < share q l)
    (hsh : ∀ p, share p l' = share p l) (hd : l'.drop = l.drop) :
    PSeen p m l (m₁.onPacket q f) l' := by
  refine pseen_packet hs ?_
  by_cases hp : p = q
  · subst hp
    have : pview p (m₁.onPacket p f) l' = { pview p m l with q := f (m.packet p) } := by
      simp [pview, Mem.onPacket, hm, hpool, hsh, drops, hd]
    rw [this]
    exact .edit _ hf hh
  · have : pview p (m₁.onPacket q f) l' = pview p m l := by
      simp [pview, Mem.onPacket, hm, hpool, hsh, drops, hd, hp]
    rw [this]
    exact .idle

/-- `Alloc`. -/
lemma pseen_alloc {q : ℕ} {l₁ : Local} (hh : ∀ p, share p l₁ = share p l) (hd : l₁.drop = l.drop)
    (h : allocPacket m l₁ q = some (m', l')) : PSeen p m l m' l' := by
  simp only [allocPacket, Option.ite_none_right_eq_some, Option.some.injEq, Prod.mk.injEq] at h
  obtain ⟨h0, rfl, rfl⟩ := h
  refine pseen_packet (fun _ => rfl) ?_
  have hsh := hh p
  simp only [share] at hsh
  by_cases hp : p = q
  · subst hp
    have : pview p ((m.onPool p (· - 1)).onPacket p Packet.addRefCount)
        { l₁ with holds := p :: l₁.holds } = { pview p m l with
          q := (m.packet p).addRefCount, pool := m.pool p - 1, hold := share p l + 1 } := by
      simp only [pview, Mem.onPool, Mem.onPacket, share, drops, hd, Function.update_self,
        List.count_cons_self, PView.mk.injEq, and_true, true_and]
      omega
    rw [this]
    exact .alloc _ (by simp only [pview]; omega)
  · have : pview p ((m.onPool q (· - 1)).onPacket q Packet.addRefCount)
        { l₁ with holds := q :: l₁.holds } = pview p m l := by
      simp [pview, Mem.onPool, Mem.onPacket, share, drops, hd, hp, Ne.symm hp]
      omega
    rw [this]
    exact .idle

lemma drops_freePacket {q : ℕ} (hd : l.drop = none) :
    drops p (freePacket m l q).2 = if p = q then lastDrop (m.packet q) else 0 := by
  simp only [freePacket, lastDrop]
  by_cases hp : p = q
  · subst hp
    split <;> simp [drops, hd]
  · split <;> simp [drops, hd, Ne.symm hp]

lemma share_freePacket {q : ℕ} : share p (freePacket m l q).2 = share p l := by
  simp only [freePacket]
  split <;> rfl

/-- `Free` of a packet that the thread has a reference to. -/
lemma pseen_free {n : Mem} {j : Local} {q : ℕ} (hd : l.drop = none) (hd₁ : j.drop = none)
    (hm : n.packet = m.packet) (hpool : n.pool = m.pool)
    (hs : ∀ k, slotShare n p k = slotShare m p k)
    (hh : share p l = share p j + if p = q then 1 else 0) :
    PSeen p m l (freePacket n j q).1 (freePacket n j q).2 := by
  refine pseen_packet (fun k => hs k) ?_
  have hv : pview p (freePacket n j q).1 (freePacket n j q).2 =
      ⟨if p = q then (m.packet p).decRefCount else m.packet p, m.pool p, share p j,
        if p = q then lastDrop (m.packet q) else 0⟩ := by
    simp only [pview, share_freePacket, drops_freePacket hd₁, hm]
    by_cases hp : p = q
    · subst hp
      simp [freePacket, Mem.onPacket, hm, hpool]
    · simp [freePacket, Mem.onPacket, hm, hpool, hp]
  have hd0 : drops p l = 0 := by simp [drops, hd]
  rw [hv]
  by_cases hp : p = q
  · subst hp
    simp only [if_true] at hh ⊢
    exact .free (x := pview p m l) (share p j) hh hd0
  · simp only [if_neg hp, Nat.add_zero] at hh ⊢
    rw [← hh, ← hd0]
    exact .idle

/-- `Free` of the first packet that the session owns. -/
lemma pseen_slotFree {j : Local} {e : Entry} {g : Hist → Hist} (hi : i < maxSlots)
    (hd : l.drop = none) (hd₁ : j.drop = none) (hh : share p j = share p l)
    (ho : (m.hist i).owned = e :: (m.hist i).owned.tail)
    (hg : (g (m.hist i)).owned = (m.hist i).owned.tail) :
    PSeen p m l (freePacket (m.onHist i g) j e.pkt).1 (freePacket (m.onHist i g) j e.pkt).2 := by
  have hs : slotShare m p i = slotShare (m.onHist i g) p i + if e.pkt = p then 1 else 0 := by
    simp only [slotShare, Mem.onHist, Function.update_self, hg]
    rw [ho]
    simp only [List.countP_cons, List.tail_cons, decide_eq_true_eq]
    omega
  refine ⟨i, hi, fun k hk => ?_, ?_⟩
  · change slotShare (m.onHist i g) p k = _
    exact slotShare_onHist_ne hk
  have hd0 : drops p l = 0 := by simp [drops, hd]
  change PStep _ _ _ (slotShare (m.onHist i g) p i)
  rw [hs]
  by_cases hp : e.pkt = p
  · have : pview p (freePacket (m.onHist i g) j e.pkt).1 (freePacket (m.onHist i g) j e.pkt).2 =
        { pview p m l with q := (m.packet p).decRefCount, drop := lastDrop (m.packet p) } := by
      simp only [pview, share_freePacket, drops_freePacket hd₁, hh, hp]
      simp [freePacket, Mem.onPacket, Mem.onHist]
    rw [this, if_pos hp]
    exact .slotFree hd0
  · have : pview p (freePacket (m.onHist i g) j e.pkt).1 (freePacket (m.onHist i g) j e.pkt).2 =
        pview p m l := by
      simp only [pview, share_freePacket, drops_freePacket hd₁, hh, hd0]
      simp [freePacket, Mem.onPacket, Mem.onHist, Ne.symm hp]
    rw [this, if_neg hp]
    exact .idle

/-! ### The functions of the server -/

lemma share_pos (h : p ∈ l.holds) : 0 < share p l := by
  have := List.count_pos_iff.mpr h
  simp only [share]
  omega

lemma apply_refCount (q : Packet) (op : PacketOp) : (op.apply q).refCount = q.refCount := by
  cases op <;> rfl

lemma encode_refCount {k : UInt8} {q q' : Packet} (h : q.encode k = some q') :
    q'.refCount = q.refCount := by
  unfold Packet.encode at h
  split at h
  · rw [Option.some.inj h]
  · simp only [Option.bind_eq_some_iff, Option.map_eq_some_iff] at h
    obtain ⟨_, _, _, _, _, _, rfl⟩ := h
    rfl

lemma share_erase {q : ℕ} (h : q ∈ l.holds) :
    share p l = share p { l with holds := l.holds.erase q } + if p = q then 1 else 0 := by
  have := List.count_pos_iff.mpr h
  simp only [share]
  by_cases hp : p = q
  · subst hp
    rw [List.count_erase_self, if_pos rfl]
    omega
  · rw [List.count_erase_of_ne hp, if_neg hp]
    omega

lemma mem_of_spare {q : ℕ} (h : q ∈ Local.spare l) : q ∈ l.holds := by
  unfold Local.spare at h
  split at h
  · exact List.mem_of_mem_erase h
  · exact h

lemma contentsStep_pseen (hd : l.drop = none) (ha : l.api = .idle)
    (h : contentsStep m l ch = some (m', l')) : PSeen p m l m' l' := by
  revert h
  fun_cases contentsStep m l ch <;>
    try simp only [Option.some.injEq, Prod.mk.injEq, reduceCtorEq, false_implies, and_imp]
  case case1 q => exact pseen_alloc (fun _ => rfl) rfl
  case case2 q hq =>
    intro h
    have := pseen_free (m := m) (n := m) (p := p) (q := q) hd
      (j := { l with holds := l.holds.erase q }) hd rfl rfl (fun _ => rfl)
      (share_erase (mem_of_spare hq))
    rwa [h] at this
  case case4 q op hq =>
    rintro rfl rfl
    exact pseen_edit rfl rfl (fun _ => rfl) (apply_refCount _ _) (share_pos hq) (fun _ => rfl) rfl
  all_goals
    rintro rfl rfl
    exact pseen_idle rfl rfl (fun _ => rfl) (share_call (by rw [ha]; rfl)) rfl

lemma apiStep_pseen {id : SessionID} {q : ApiPc} (hi : i < maxSlots) (hl : Holding l)
    (ha : l.api = .on i id q) (h : apiStep m l i id q ch = some (m', l')) : PSeen p m l m' l' := by
  revert h
  fun_cases apiStep m l i id q ch <;>
    try simp only [Option.some.injEq, Prod.mk.injEq, reduceCtorEq, false_implies, and_imp]
  case case7 q =>
    rintro rfl rfl
    have hq := share_pos (hl.api i id _ q ha rfl)
    refine pseen_packet (fun _ => rfl) ?_
    have hsh : share p (Local.call l (.on i id (.encode q))) = share p l + if q = p then 1 else 0 := by
      simp only [share, Local.call, Api.share, ha]
      omega
    by_cases hp : p = q
    · subst hp
      rw [if_pos rfl] at hsh
      have : pview p (m.onPacket p Packet.addRefCount) (Local.call l (.on i id (.encode p))) =
          { pview p m l with q := (m.packet p).addRefCount, hold := share p l + 1 } := by
        simp only [pview, hsh, drops_call, Mem.onPacket, Function.update_self]
      rw [this]
      exact .addRef hq
    · rw [if_neg (Ne.symm hp), Nat.add_zero] at hsh
      have : pview p (m.onPacket q Packet.addRefCount) (Local.call l (.on i id (.encode q))) =
          pview p m l := by
        simp only [pview, hsh, drops_call, Mem.onPacket, Function.update_of_ne hp]
      rw [this]
      exact .idle
  case case8 q k q' hq =>
    rintro rfl rfl
    refine pseen_edit rfl rfl (fun _ => rfl) (encode_refCount hq) ?_
      (fun _ => share_call (by rw [ha]; rfl)) rfl
    simp only [share, ha, Api.share, if_true]
    omega
  case case10 q =>
    rintro rfl rfl
    refine ⟨i, hi, fun k hk => slotShare_ne hk, ?_⟩
    have hsh : share p l = share p (Local.call l (.on i id .post)) + if q = p then 1 else 0 := by
      simp only [share, Local.call, Api.share, ha]
      omega
    rw [slotShare_push rfl]
    by_cases hp : q = p
    · rw [if_pos hp] at hsh ⊢
      exact .queue (x := pview p m l) _ hsh
    · rw [if_neg hp, Nat.add_zero] at hsh ⊢
      have : pview p m (Local.call l (.on i id .post)) = pview p m l := by
        simp only [pview, ← hsh, drops_call]
      exact this ▸ .idle
  all_goals
    rintro rfl rfl
    exact pseen_idle rfl rfl (fun k => by first | rfl | simp +zetaDelta) (share_call (by rw [ha]; rfl)) rfl

lemma postStep_pseen {q : PostPc} (hp : l.pc = .work i (.post q))
    (h : postStep m l i q ch = some (m', l')) : PSeen p m l m' l' := by
  revert h
  fun_cases postStep m l i q ch <;>
    simp only [Option.some.injEq, Prod.mk.injEq, reduceCtorEq, false_implies, and_imp]
  all_goals
    rintro rfl rfl
    exact pseen_idle rfl rfl (fun k => by first | rfl | simp +zetaDelta)
      (share_goto (by rw [hp]; rfl)) rfl

lemma sendStep_pseen {q : SendPc} (hp : l.pc = .work i (.send q))
    (h : sendStep m l i q ch = some (m', l')) : PSeen p m l m' l' := by
  revert h
  fun_cases sendStep m l i q ch <;>
    try simp only [Option.some.injEq, Prod.mk.injEq, reduceCtorEq, false_implies, and_imp]
  case case9 e q hq =>
    -- the packet moves from `sendQ` to `sendPacketArr`
    rintro rfl rfl
    refine pseen_idle rfl rfl (fun k => ?_) (share_goto (by rw [hp]; rfl)) rfl
    by_cases hk : k = i
    · subst hk
      simp only [slotShare, Mem.onSess, Mem.onHist, Function.update_self, hq, List.countP_append,
        List.countP_cons, List.countP_nil]
      omega
    · exact slotShare_ne hk
  all_goals
    rintro rfl rfl
    exact pseen_idle rfl rfl (fun k => by first | rfl | simp +zetaDelta)
      (share_goto (by rw [hp]; rfl)) rfl

lemma decode_refCount {q q' : Packet} {x : Bool} (h : q.decode = some (x, q')) :
    q'.refCount = q.refCount := by
  simp only [Packet.decode, Option.bind_eq_some_iff, Option.map_eq_some_iff, Prod.mk.injEq] at h
  obtain ⟨_, _, _, _, _, rfl⟩ := h
  rfl

lemma moveWritePos_refCount (q : Packet) (n : ℕ) : (q.moveWritePos n).2.refCount = q.refCount := rfl

lemma recvStep_pseen {q : RecvPc} (hd : l.drop = none) (ha : l.api = .idle) (hl : Holding l)
    (hp : l.pc = .work i (.recv q)) (h : recvStep m l i q ch = some (m', l')) :
    PSeen p m l m' l' := by
  have hsh : ∀ (w : WorkPc) (p : ℕ), share p (Local.goto l (.work i w)) = share p l :=
    fun w p => share_goto (by rw [hp]; rfl)
  have hfree : ∀ (w : WorkPc) (q : ℕ), Pc.needs l.pc = some q →
      freePacket m (Local.goto { l with holds := l.holds.erase q } (.work i w)) q = (m', l') →
      PSeen p m l m' l' := by
    intro w q hq h
    have := pseen_free (m := m) (n := m) (p := p) (q := q) hd
      (j := Local.goto { l with holds := l.holds.erase q } (.work i w)) hd rfl rfl (fun _ => rfl)
      ((share_erase (hl.pc q hq)).trans ?_)
    · rwa [h] at this
    · rw [share_goto (l := { l with holds := l.holds.erase q }) (by rw [hp]; rfl)]
  revert h
  fun_cases recvStep m l i q ch <;>
    try simp only [Option.some.injEq, Prod.mk.injEq, reduceCtorEq, false_implies, and_imp]
  case case9 => exact pseen_alloc (hsh _) rfl
  case case10 h q b hb =>
    rintro rfl rfl
    exact pseen_edit rfl rfl (fun k => by simp) (moveWritePos_refCount _ _)
      (share_pos (hl.pc q (by rw [hp]; rfl))) (hsh _) rfl
  case case12 q q' hq | case13 q q' hq =>
    rintro rfl rfl
    exact pseen_edit rfl rfl (fun _ => rfl) (decode_refCount hq)
      (share_pos (hl.pc q (by rw [hp]; rfl))) (hsh _) rfl
  case case16 => exact contentsStep_pseen hd ha
  case case17 q | case18 q => exact hfree _ q (by rw [hp]; rfl)
  case case19 =>
    rintro rfl rfl
    refine pseen_idle rfl rfl (fun _ => rfl) ((share_call ?_).trans (hsh (.recv .disconnected) _)) rfl
    change _ = Api.share p l.api
    rw [ha]
    rfl
  all_goals
    rintro rfl rfl
    exact pseen_idle rfl rfl (fun k => by first | rfl | simp) (hsh _ _) rfl

lemma workStep_pseen {q : WorkPc} (hd : l.drop = none) (ha : l.api = .idle) (hl : Holding l)
    (ho : Owning m l) (hp : l.pc = .work i q) (h : workStep m l i q ch = some (m', l')) :
    PSeen p m l m' l' := by
  have hi : i < maxSlots := ho.pcSlot i (by rw [hp, pcRole_work]; nofun)
  revert h
  fun_cases workStep m l i q ch <;>
    try simp only [Option.some.injEq, Prod.mk.injEq, reduceCtorEq, false_implies, and_imp]
  case case1 j _ =>
    rintro rfl rfl
    exact pseen_idle rfl rfl (fun _ => rfl) (share_goto (by rw [hp]; cases j <;> rfl)) rfl
  case case2 j _ =>
    rintro rfl rfl
    refine pseen_idle (by cases j <;> rfl) (by cases j <;> rfl) (fun k => ?_)
      (share_goto (by rw [hp]; rfl)) rfl
    cases j <;> first | rfl | simp [skipJob]
  case case5 j bk hj e =>
    intro h
    have := pseen_slotFree (p := p) (j := Local.goto l (.work i (.freeArr (j + 1) bk)))
      (g := fun h => { h with owned := h.owned.tail, dropped := h.dropped ++ [e] }) hi hd hd
      (share_goto (by rw [hp]; rfl)) (ho.work i j bk hp hj) rfl
    rwa [h] at this
  case case8 => exact sendStep_pseen hp
  case case9 => exact recvStep_pseen hd ha hl hp
  case case10 => exact postStep_pseen hp
  all_goals
    rintro rfl rfl
    exact pseen_idle rfl rfl (fun k => by first | rfl | simp +zetaDelta)
      (share_goto (by rw [hp]; rfl)) rfl

lemma share_relBack (x : Bool) : Pc.share p (relBack x) = 0 := by cases x <;> rfl

lemma relStep_pseen {q : RelPc} {x : Bool} (hd : l.drop = none) (ha : l.api = .idle)
    (ho : Owning m l) (hp : l.pc = .rel i q x) (h : relStep m l i x q ch = some (m', l')) :
    PSeen p m l m' l' := by
  have hi : i < maxSlots := ho.pcSlot i (by rw [hp, pcRole_rel]; nofun)
  revert h
  fun_cases relStep m l i x q ch <;>
    try simp only [Option.some.injEq, Prod.mk.injEq, reduceCtorEq, false_implies, and_imp]
  case case2 | case14 =>
    rintro rfl rfl
    exact pseen_idle rfl rfl (fun _ => rfl) (share_goto (by rw [hp, share_relBack]; rfl)) rfl
  case case4 e q hq =>
    rintro rfl rfl
    refine ⟨i, hi, fun k hk => slotShare_onSess_ne hk, ?_⟩
    have hs : slotShare m p i = slotShare (m.onSess i fun s => { s with sendQ := q }) p i +
        if e.pkt = p then 1 else 0 := by
      simp only [slotShare, Mem.onSess, Function.update_self, hq, List.countP_cons, decide_eq_true_eq]
      omega
    have hsh : share p (Local.goto l (.rel i (.drainFree e) x)) =
        share p l + if e.pkt = p then 1 else 0 := by
      simp only [share, Local.goto, Pc.share, hp]
      omega
    rw [hs]
    simp only [pview, hsh, drops_goto]
    by_cases hp : e.pkt = p
    · simp only [if_pos hp]
      exact .unqueue (x := pview p m l)
    · simp only [if_neg hp]
      exact .idle (x := pview p m l)
  case case5 e =>
    intro h
    have := pseen_free (m := m) (p := p) (q := e.pkt) hd
      (n := m.onHist i fun h => { h with dropped := h.dropped ++ [e] })
      (j := Local.goto l (.rel i .drain x)) hd rfl rfl (fun _ => by simp) ?_
    · rwa [h] at this
    · simp only [share, Local.goto, Pc.share, hp, eq_comm]
      omega
  case case7 j bk hj e =>
    intro h
    have := pseen_slotFree (p := p) (j := Local.goto l (.rel i (.freeArr (j + 1) bk) x))
      (g := fun h => { h with owned := h.owned.tail, dropped := h.dropped ++ [e] }) hi hd hd
      (share_goto (by rw [hp]; rfl)) (ho.rel i j bk x hp hj) rfl
    rwa [h] at this
  case case12 => exact contentsStep_pseen hd ha
  case case13 =>
    rintro rfl rfl
    exact pseen_idle rfl rfl (fun k => (slotShare_onHist rfl).trans rfl)
      (share_goto (by rw [hp]; rfl)) rfl
  all_goals
    rintro rfl rfl
    exact pseen_idle rfl rfl (fun k => by first | rfl | simp) (share_goto (by rw [hp]; rfl)) rfl

lemma initStep_pseen {s : Sock} {q : InitPc} (ho : Owning m l) (hp : l.pc = .accOn i (.init s q)) :
    PSeen p m l (initStep m l i s q).1 (initStep m l i s q).2 := by
  cases q
  case sendCnt =>
    refine pseen_idle rfl rfl (fun k => ?_) (share_goto (by rw [hp]; rfl)) rfl
    simp only [initStep]
    rw [slotShare_onHist (ho.init i s hp).symm, slotShare_onSess rfl]
  all_goals exact pseen_idle rfl rfl (fun k => by simp [initStep]) (share_goto (by rw [hp]; rfl)) rfl

lemma accOnStep_pseen {q : AccOn} (hd : l.drop = none) (ha : l.api = .idle) (ho : Owning m l)
    (hp : l.pc = .accOn i q) (h : accOnStep m l i q ch = some (m', l')) : PSeen p m l m' l' := by
  revert h
  fun_cases accOnStep m l i q ch <;>
    try simp only [Option.some.injEq, Prod.mk.injEq, reduceCtorEq, false_implies, and_imp]
  case case1 =>
    intro h
    have := initStep_pseen (p := p) ho hp
    rwa [h] at this
  case case4 =>
    rintro rfl rfl
    exact pseen_idle rfl rfl (fun k => (slotShare_onHist rfl).trans rfl)
      (share_goto (by rw [hp]; rfl)) rfl
  case case6 => exact contentsStep_pseen hd ha
  all_goals
    rintro rfl rfl
    exact pseen_idle rfl rfl (fun k => by first | rfl | simp +zetaDelta)
      (share_goto (by rw [hp]; rfl)) rfl

lemma acceptStep_pseen {q : AccPc} (hd : l.drop = none) (ha : l.api = .idle)
    (hp : l.pc = .acc q) (h : acceptStep m l q ch = some (m', l')) : PSeen p m l m' l' := by
  revert h
  fun_cases acceptStep m l q ch <;>
    try simp only [Option.some.injEq, Prod.mk.injEq, reduceCtorEq, false_implies, and_imp]
  case case8 => exact contentsStep_pseen hd ha
  case case12 =>
    rintro rfl rfl
    exact pseen_idle rfl rfl (fun _ => rfl) rfl rfl
  case case13 =>
    rintro rfl rfl
    exact pseen_idle rfl rfl (fun k => (slotShare_onHist rfl).trans rfl)
      (share_goto (by rw [hp]; rfl)) rfl
  all_goals
    rintro rfl rfl
    exact pseen_idle rfl rfl (fun _ => rfl) (share_goto (by rw [hp]; rfl)) rfl

/-- **Every step of a thread is seen by every packet.** -/
theorem lstep_pseen (hl : Holding l) (ho : Owning m l) (h : lstep m l ch = some (m', l')) (p : ℕ) :
    PSeen p m l m' l' := by
  unfold lstep at h
  split at h
  case h_1 q hd =>
    split at h <;> simp only [Option.some.injEq, Prod.mk.injEq, reduceCtorEq] at h
    obtain ⟨rfl, rfl⟩ := h
    refine pseen_packet (fun _ => rfl) ?_
    by_cases hp : p = q
    · subst hp
      have : pview p ((m.onPacket p Packet.clear).onPool p (· + 1)) { l with drop := none } =
          { pview p m l with q := (m.packet p).clear, pool := m.pool p + 1, drop := 0 } := by
        simp [pview, Mem.onPacket, Mem.onPool, share, drops]
      rw [this]
      exact .recycle (by simp [pview, drops, hd])
    · have : pview p ((m.onPacket q Packet.clear).onPool q (· + 1)) { l with drop := none } =
          pview p m l := by
        simp [pview, Mem.onPacket, Mem.onPool, share, drops, hp, hd, Ne.symm hp]
      rw [this]
      exact .idle
  case h_2 hd =>
    split at h
    case h_1 i id q ha => exact apiStep_pseen (ho.apiSlot i id q ha) hl ha h
    case h_2 ha =>
      split at h
      case h_1 => exact contentsStep_pseen hd ha h
      case h_2 hp => exact acceptStep_pseen hd ha hp h
      case h_3 hp => exact accOnStep_pseen hd ha ho hp h
      case h_4 hp =>
        split at h <;> simp only [Option.some.injEq, Prod.mk.injEq, reduceCtorEq] at h
        obtain ⟨rfl, rfl⟩ := h
        exact pseen_idle rfl rfl (fun _ => rfl) (share_goto (by rw [hp]; rfl)) rfl
      case h_5 hp => exact workStep_pseen hd ha hl ho hp h
      case h_6 hp => exact relStep_pseen hd ha ho hp h

end LoginServerChat.PacketStep
