import LoginServerChat.StreamOrder

/-!
What the clients receive. Beside the server stand what was written to each packet before it was encoded,
and for each slot the payloads that `SendPacket` has queued for its session and the bytes that `WSASend`
was given. No step reads them. As long as contents code leaves a packet alone once it is sent, the bytes
are the frames of the payloads, in order.
-/

namespace LoginServerChat.SendStream

open NetPacket Packet Cipher NetState NetStep SlotStep SlotView SlotRun SlotRefs SlotPhase SlotLive SlotJoin
  SlotSend SendPath PacketStep PacketRefs PacketShape RecvPackets Runs
open Frames (WellFormed parse parse_unique)

/-! ### Contents code -/

/-- The call only moves the read position. -/
def reads : PacketOp → Bool
  | .getData _ | .moveReadPos _ => true
  | _ => false

/-- Contents code changes no packet that is encoded, and reads from none before it sends it. -/
def careful (m : Mem) (l : Local) : Choice → Bool
  | .edit p op => !(m.packet p).isEncode || reads op
  | .key _ =>
    match l.api with
    | .on _ _ (.encode p) => (m.packet p).isEncode || decide ((m.packet p).readPos = headerSize)
    | _ => true
  | _ => true

/-! ### The packets -/

/-- The payloads of the packets, as they were when `Encode` found them. -/
def noteText (text : ℕ → List UInt8) (m : Mem) (a : Api) (ch : Choice) : ℕ → List UInt8 :=
  match a, ch with
  | .on _ _ (.encode p), .key _ =>
    if (m.packet p).isEncode then text else Function.update text p (held (m.packet p))
  | _, _ => text

/-- The packet holds the frame of `xs`. -/
def Coded (q : Packet) (xs : List UInt8) : Prop := xs.length ≤ 1019 ∧ ∃ key, Cipher.wire q = frame key xs

def Texts (m : Mem) (text : ℕ → List UInt8) : Prop :=
  ∀ p, (m.packet p).isEncode = true → Coded (m.packet p) (text p)

variable {m m' : Mem} {l l' : Local} {i k p : ℕ} {ch : Choice} {text : ℕ → List UInt8} {q q' : Packet}

/-- The bytes of the packet are as they were. -/
structure Frozen (q q' : Packet) : Prop where
  isEncode : q'.isEncode = q.isEncode
  pBuffer : q'.pBuffer = q.pBuffer
  writePos : q'.writePos = q.writePos

lemma Frozen.wire (h : Frozen q q') : Cipher.wire q' = Cipher.wire q := by
  rw [Cipher.wire, getTotalSize, h.pBuffer, h.writePos, Cipher.wire, getTotalSize]

lemma Frozen.refl (q : Packet) : Frozen q q := ⟨rfl, rfl, rfl⟩

lemma frozen_of_reads {op : PacketOp} (h : reads op = true) : Frozen q (op.apply q) := by
  cases op with
  | getData n | moveReadPos n => exact ⟨rfl, rfl, rfl⟩
  | _ => cases h

lemma apply_plain (op : PacketOp) (h : q.isEncode = false) : (op.apply q).isEncode = false := by
  cases op with
  | clear => rfl
  | _ => exact h

/-- What a step leaves of a packet: one that is encoded stays as it is, unless it is dropped, and one that
is not has to be encoded by the step. -/
structure Treats (m : Mem) (l : Local) (ch : Choice) (m' : Mem) (p : ℕ) : Prop where
  coded : (m.packet p).isEncode = true → Frozen (m.packet p) (m'.packet p) ∨
    l.drop = some p ∧ (m'.packet p).isEncode = false
  plain : (m.packet p).isEncode = false → (m'.packet p).isEncode = true →
    ∃ i id key, l.api = .on i id (.encode p) ∧ ch = .key key ∧ (m.packet p).encode key = some (m'.packet p)

lemma Treats.of_frozen (h : Frozen (m.packet p) (m'.packet p)) : Treats m l ch m' p :=
  ⟨fun _ => .inl h, fun h0 h1 => by (rw [h.isEncode, h0] at h1; cases h1)⟩

lemma Treats.of_plain (h : (m.packet p).isEncode = false) (h' : (m'.packet p).isEncode = false) :
    Treats m l ch m' p :=
  ⟨fun h1 => by (rw [h] at h1; cases h1), fun _ h1 => by (rw [h'] at h1; cases h1)⟩

lemma treats_of_uses (h : Uses m l ch m') (hg : GripAt m l) (hc : careful m l ch = true) (p : ℕ) :
    Treats m l ch m' p := by
  have hset : ∀ (r : ℕ) (v : Packet), m'.packet = Function.update m.packet r v →
      (∀ hr : p = r, m'.packet p = v → Treats m l ch m' p) → Treats m l ch m' p := by
    intro r v hq hv
    by_cases hp : p = r
    · refine hv hp ?_
      rw [hq, hp, Function.update_self]
    · refine .of_frozen ?_
      rw [hq, Function.update_of_ne hp]
      exact .refl _
  cases h with
  | same hq => exact .of_frozen (by rw [hq]; exact .refl _)
  | count r n hq =>
    refine hset r _ hq fun hr hv => .of_frozen ?_
    subst hr
    rw [hv]
    exact ⟨rfl, rfl, rfl⟩
  | edit r op hch hq =>
    refine hset r _ hq fun hr hv => ?_
    subst hr hch
    cases he : (m.packet p).isEncode with
    | true =>
      refine .of_frozen ?_
      rw [hv]
      refine frozen_of_reads ?_
      rw [careful, he] at hc
      exact hc
    | false => exact .of_plain he (by rw [hv]; exact apply_plain op he)
  | encode i id r key v ha hch he hq =>
    refine hset r _ hq fun hr hv => ?_
    subst hr hch
    cases hp : (m.packet p).isEncode with
    | true =>
      refine .of_frozen ?_
      rw [Packet.encode, if_pos hp] at he
      rw [hv, ← Option.some.inj he]
      exact .refl _
    | false =>
      exact ⟨fun h1 => by (rw [hp] at h1; cases h1), fun _ _ => ⟨i, id, key, ha, rfl, by rw [hv]; exact he⟩⟩
  | fill i h r b hp hb hq =>
    refine hset r _ hq fun hr hv => ?_
    subst hr
    rw [GripAt, hp] at hg
    exact .of_plain hg.2.plain (by rw [hv]; exact hg.2.plain)
  | decode i r x v hp hd hq =>
    refine hset r _ hq fun hr hv => ?_
    subst hr
    rw [GripAt, hp] at hg
    obtain ⟨-, f, hf⟩ := hg
    refine .of_plain hf.plain ?_
    rw [hv]
    simp only [Packet.decode, Option.bind_eq_some_iff, Option.map_eq_some_iff] at hd
    obtain ⟨_, -, _, -, hd⟩ := hd
    rw [← (Prod.mk.inj hd).2]
    exact hf.plain
  | clear r hd hq =>
    refine hset r _ hq fun hr hv => ?_
    subst hr
    have h' : (m'.packet p).isEncode = false := by rw [hv]; rfl
    exact ⟨fun _ => .inr ⟨hd, h'⟩, fun _ h1 => by (rw [h'] at h1; cases h1)⟩

/-- `Encode` makes the frame of what the packet holds. -/
lemma coded_of_encode {key : UInt8} (hs : Shaped q) (hp : q.isEncode = false) (hr : q.readPos = headerSize)
    (he : q.encode key = some q') : Coded q' (held q) := by
  obtain ⟨h1, -, h3, h4⟩ := hs
  rw [hr] at h3
  unfold headerSize defaultSize at *
  obtain ⟨n, hn⟩ : ∃ n, q.getPayloadSize = n := ⟨_, rfl⟩
  have hw : q.writePos = 5 + n := by
    rw [getPayloadSize, hr] at hn
    omega
  have hmod : q.getPayloadSize % 65536 = n := by
    rw [hn]
    omega
  have hx : held q = (q.pBuffer.drop 5).take n := by rw [held, hr, hn]
  have hlen : (held q).length = n := by
    rw [hx, List.length_take, List.length_drop]
    omega
  rw [encode_eq key hp hmod (by omega)] at he
  obtain rfl := Option.some.inj he
  refine ⟨by omega, key, ?_⟩
  rw [Cipher.wire, getTotalSize]
  dsimp only
  have hf : (frame key ((q.pBuffer.drop 5).take n)).length = q.writePos := by
    rw [length_frame, ← hx, hlen, hw, headerSize]
  rw [hx, ← hf, List.take_left]

lemma noteText_of_coded (h : (m.packet p).isEncode = true) (a : Api) (ch : Choice) :
    noteText text m a ch p = text p := by
  unfold noteText
  split
  · split
    · rfl
    · rename_i r _ hr
      refine Function.update_of_ne (fun hp => ?_) ..
      subst hp
      exact hr h
  · rfl

/-- The payloads of the packets are those of the frames they hold. -/
lemma texts_step (hU : ∀ p, Treats m l ch m' p) (hs : ∀ p, Shaped (m.packet p)) (hc : careful m l ch = true)
    (hi : Texts m text) : Texts m' (noteText text m l.api ch) := by
  intro p he
  cases hp : (m.packet p).isEncode with
  | true =>
    rw [noteText_of_coded hp]
    rcases (hU p).coded hp with hf | ⟨-, hf⟩
    · rw [Coded, hf.wire]
      exact hi p hp
    · cases hf.symm.trans he
  | false =>
    obtain ⟨i, id, key, ha, rfl, hen⟩ := (hU p).plain hp he
    simp only [careful, ha, hp, Bool.false_or, decide_eq_true_eq] at hc
    simp only [noteText, ha, hp, Bool.false_eq_true, if_false, Function.update_self]
    exact coded_of_encode (hs p) hp hc hen

/-! ### The packets that wait or are being sent -/

variable {e : Ev} {V V' : View} {x x' : LV} {y : Entry}

/-- What comes to a slot comes from a call of `SendPacket`. -/
lemma sstep_entries (h : SStep k e V x V' x') (hy : y ∈ V'.s.sendQ ∨ y ∈ V'.h.owned) :
    (y ∈ V.s.sendQ ∨ y ∈ V.h.owned) ∨ ∃ id, x.api = some (id, .enqueue y.pkt) := by
  cases h
  case enqueue r id p =>
    rcases hy with hy | hy
    · rcases List.mem_append.mp hy with hy | hy
      · exact .inl (.inl hy)
      · obtain rfl := List.mem_singleton.mp hy
        exact .inr ⟨id, rfl⟩
    · exact .inl (.inr hy)
  case gather z q _ _ hq =>
    rcases hy with hy | hy
    · exact .inl (.inl (hq ▸ List.mem_cons_of_mem _ hy))
    · rcases List.mem_append.mp hy with hy | hy
      · exact .inl (.inr hy)
      · exact .inl (.inl (hq ▸ List.mem_singleton.mp hy ▸ List.mem_cons_self))
  case initSendCnt =>
    rcases hy with hy | hy
    · exact .inl (.inl hy)
    · exact absurd hy List.not_mem_nil
  case freeArr | relFreeArr => exact .inl (hy.imp id List.mem_of_mem_tail)
  case drain z q hq => exact .inl (hy.imp (fun h => hq ▸ List.mem_cons_of_mem _ h) id)
  case entrySkip j _ _ => cases j <;> exact .inl hy
  all_goals exact .inl hy

lemma sstep_enqueue {id : SessionID} (h : SStep k e V x V' x') (hx : x'.api = some (id, .enqueue p)) :
    x.api = some (id, .enqueue p) ∨ x.api = some (id, .encode p) := by
  cases h
  case foreign => exact .inl hx
  case encode =>
    simp only [Option.some.injEq, Prod.mk.injEq, ApiPc.enqueue.injEq] at hx
    obtain ⟨rfl, rfl⟩ := hx
    exact .inr rfl
  case chkID =>
    obtain ⟨-, hx⟩ := Prod.mk.inj (Option.some.inj hx)
    unfold Call.body at hx
    split at hx <;> cases hx
  all_goals simp only [Option.some.injEq, Prod.mk.injEq, reduceCtorEq, and_false] at hx

/-- What is gathered is the session's to free. -/
def GathKept (V : View) : Prop := ∀ y ∈ V.h.gath, y ∈ V.h.owned

lemma sstep_gathKept (h : SStep k e V x V' x') (hA : JoinedAt V x) (hd : SendData (batch V) x.role) (hb : Blank V)
    (hi : GathKept V) : GathKept V' := by
  cases h
  case pop | sendError | sendDone | sendPend => exact fun y hy => absurd hy List.not_mem_nil
  case gather =>
    intro y hy
    rcases List.mem_append.mp hy with hy | hy
    · exact List.mem_append_left _ (hi y hy)
    · exact List.mem_append_right _ hy
  case initSendCnt =>
    have h0 := (hb (.inr (.inr (hA.unmet Nat.one_pos)))).2.1
    intro y hy
    exact absurd (h0 ▸ hy) List.not_mem_nil
  case freeArr | relFreeArr =>
    have h0 : V.h.gath = [] := hd.1.1
    intro y hy
    exact absurd (h0 ▸ hy) List.not_mem_nil
  case entrySkip j _ _ => cases j <;> exact hi
  all_goals exact hi

lemma encode_isEncode {key : UInt8} (h : q.encode key = some q') : q'.isEncode = true := by
  unfold Packet.encode at h
  split at h
  · rename_i hq
    exact Option.some.inj h ▸ hq
  · simp only [Option.bind_eq_some_iff, Option.map_eq_some_iff] at h
    obtain ⟨_, -, _, -, _, -, rfl⟩ := h
    rfl

/-- `SendPacket` queues a packet that is encoded. -/
lemma lstep_encoded {id : SessionID} (h : lstep m l ch = some (m', l')) (ha : l.api = .on i id (.encode p))
    (ha' : l'.api = .on i id (.enqueue p)) : (m'.packet p).isEncode = true := by
  unfold lstep at h
  split at h
  case h_1 =>
    split at h
    · obtain ⟨-, rfl⟩ := Prod.mk.inj (Option.some.inj h)
      cases ha.symm.trans ha'
    · cases h
  case h_2 =>
    rw [ha] at h
    cases ch <;> simp only [apiStep, reduceCtorEq] at h
    split at h
    case h_1 hq =>
      obtain ⟨rfl, -⟩ := Prod.mk.inj (Option.some.inj h)
      rw [Mem.onPacket]
      simp only [Function.update_self]
      exact encode_isEncode hq
    case h_2 => cases h

/-- What a thread is about to hand to `WSASend` for the slot, with the sizes. -/
def LV.bufs (x : LV) : List (Entry × ℕ) :=
  match x.role with
  | .work (.send (.gather _ _ bufs)) | .work (.send (.setCnt _ bufs)) | .work (.send (.inc bufs))
  | .work (.send (.load bufs)) | .work (.send (.send _ bufs)) => bufs
  | _ => []

lemma mem_gath_of_bufs {z : Entry × ℕ} (hd : SendData (batch V) x.role) (hz : z ∈ LV.bufs x) : z.1 ∈ V.h.gath := by
  unfold LV.bufs at hz
  split at hz
  case h_6 => exact absurd hz List.not_mem_nil
  all_goals
    rename_i hr
    rw [hr] at hd
    exact Gathered.mem hd.1 hz

lemma sstep_bufs {z : Entry × ℕ} (h : SStep k e V x V' x') (hz : z ∈ LV.bufs x') :
    z ∈ LV.bufs x ∨ ∃ j n b, x.role = .work (.send (.gather j n b)) := by
  cases h
  case gather | gatherMiss => exact .inr ⟨_, _, _, rfl⟩
  case use => exact absurd hz List.not_mem_nil
  case entryPass j _ _ => cases j <;> exact absurd hz List.not_mem_nil
  all_goals first
    | exact .inl hz
    | exact absurd hz List.not_mem_nil

lemma role_work {w : WorkPc} (h : (lview l k).role = .work w) : l.pc = .work k w := by
  change pcRole k l.pc = .work w at h
  rcases hp : l.pc with _ | _ | ⟨i, q⟩ | _ | ⟨i, q⟩ | ⟨i, q, x⟩
  all_goals
    rw [hp] at h
    simp only [pcRole, reduceCtorEq] at h
  case work =>
    split_ifs at h with hi
    rw [hi, Role.work.inj h]
  all_goals split_ifs at h

/-- The gather loop takes down the size that a packet has. -/
lemma lstep_gather {j n : ℕ} {b : List (Entry × ℕ)} {z : Entry × ℕ} (h : lstep m l ch = some (m', l'))
    (hp : (lview l k).role = .work (.send (.gather j n b))) (hz : z ∈ LV.bufs (lview l' k)) :
    z ∈ b ∨ m'.packet = m.packet ∧ z.2 = (m.packet z.1.pkt).writePos := by
  have hpc : l.pc = .work k (.send (.gather j n b)) := role_work hp
  have hsame : l'.pc = l.pc → z ∈ b := by
    intro hl
    have hr : (lview l' k).role = .work (.send (.gather j n b)) := by
      change pcRole k l'.pc = _
      rw [hl]
      exact hp
    rw [LV.bufs, hr] at hz
    exact hz
  unfold lstep at h
  split at h
  case h_1 =>
    split at h <;> simp only [Option.some.injEq, Prod.mk.injEq, reduceCtorEq] at h
    exact .inl (hsame (by rw [← h.2]))
  case h_2 =>
    split at h
    case h_1 => exact .inl (hsame ((AcceptBooks.apiStep_books h).2))
    case h_2 =>
      rw [hpc] at h
      cases ch <;> simp only [workStep, sendStep, reduceCtorEq] at h
      split at h
      case isTrue =>
        split at h
        all_goals
          obtain ⟨rfl, rfl⟩ := Prod.mk.inj (Option.some.inj h)
          simp only [LV.bufs, lview, Local.goto, pcRole_work] at hz
          rcases List.mem_append.mp hz with hz | hz
          · exact .inl hz
          · obtain rfl := List.mem_singleton.mp hz
            exact .inr ⟨rfl, rfl⟩
      case isFalse =>
        obtain ⟨rfl, rfl⟩ := Prod.mk.inj (Option.some.inj h)
        simp only [LV.bufs, lview, Local.goto, pcRole_work] at hz
        exact .inl hz

lemma api_on {id : SessionID} {q : ApiPc} (h : (lview l k).api = some (id, q)) : l.api = .on k id q := by
  change apiRole k l.api = _ at h
  unfold apiRole at h
  split at h
  · rename_i ha
    split_ifs at h with hi
    obtain ⟨rfl, rfl⟩ := Prod.mk.inj (Option.some.inj h)
    rw [ha, hi]
  · cases h

/-- What waits, is being sent or is about to be queued is encoded. -/
structure Ready {τ : Type*} (c : Config τ) : Prop where
  slots : ∀ k y, y ∈ (c.mem.sess k).sendQ ∨ y ∈ (c.mem.hist k).owned → (c.mem.packet y.pkt).isEncode = true
  calls : ∀ t i id p, (c.loc t).api = .on i id (.enqueue p) → (c.mem.packet p).isEncode = true
  sizes : ∀ t k z, z ∈ LV.bufs (lview (c.loc t) k) → z.2 = (c.mem.packet z.1.pkt).writePos

section Reach

variable {τ : Type*} [DecidableEq τ] [Fintype τ] {b : Boot} {a : τ} {w : τ → Bool} {c c' : Config τ}
  {bad : List Ev} {t : τ}

omit [DecidableEq τ] in
lemma owners_of_call {id : SessionID} (ha : (c.loc t).api = .on i id (.enqueue p)) : 0 < owners c p := by
  refine Nat.add_pos_left (lt_of_lt_of_le ?_ (le_sum (fun u => share p (c.loc u)) t)) _
  simp only [share, ha, Api.share, if_true]
  omega

variable (hok : .ok ∉ bad) (hskip : .skipRelease ∈ bad) (hl : .lateEnter ∈ bad)
  (hr : Reach step (avoids bad) (boot b a w) c)

include hok hskip hl hr

theorem reach_gath : GathKept (slot c k).V := by
  refine slot_inv (I := fun S => GathKept S.V) hok (fun S hf => ?_) (fun c e S' hc hi _ hn => ?_) hr
  · rw [GathKept, hf.h]
    exact fun y hy => absurd hy List.not_mem_nil
  · have hG := reach_good (k := k) hok hskip hl hc
    have hS := reach_sends (k := k) hok hskip hl hc
    generalize slot c k = S at hn hi hG hS
    cases hn with
    | thread t hs => exact sstep_gathKept hs (hG.at' t) (hS.data t) hS.blank hi
    | complete => exact hi

/-- No slot but those that an id can name has packets. -/
lemma reach_far (hk : maxSlots ≤ k) (p : ℕ) : slotShare c.mem p k = 0 := by
  refine Reach.inv (I := fun c => slotShare c.mem p k = 0) rfl (fun c c' x hr hi _ hs => ?_) hr
  cases x with
  | run t ch =>
    simp only [step, Option.map_eq_some_iff] at hs
    obtain ⟨⟨m, l⟩, hs, rfl⟩ := hs
    obtain ⟨i, hi', hother, -⟩ :=
      lstep_pseen ((reach_kept hok hskip hl hr).1 t) (reach_owning hok hskip hl hr t) hs p
    exact (hother k (by omega)).trans hi
  | complete io n d =>
    simp only [step] at hs
    split at hs <;> simp only [Option.some.injEq, reduceCtorEq] at hs
    subst hs
    exact hi
  | give t u p =>
    simp only [step] at hs
    split at hs <;> simp only [Option.some.injEq, reduceCtorEq] at hs
    subst hs
    exact hi

/-- A packet with an owner is not on its way to the pool. -/
lemma not_dropped (ho : 0 < owners c p) (t : τ) : (c.loc t).drop ≠ some p := by
  intro hd
  have hK := ((reach_kept hok hskip hl hr).2 p).pool
  have h1 : drops p (c.loc t) ≤ dropping c p := le_sum (fun u => drops p (c.loc u)) t
  rw [drops, if_pos hd] at h1
  rw [if_neg (by omega)] at hK
  omega

lemma owners_of_slot (hy : y ∈ (c.mem.sess k).sendQ ∨ y ∈ (c.mem.hist k).owned) : 0 < owners c y.pkt := by
  have hpos : 0 < slotShare c.mem y.pkt k := by
    rcases hy with hy | hy
    · exact Nat.add_pos_left (List.countP_pos_iff.mpr ⟨y, hy, decide_eq_true rfl⟩) _
    · exact Nat.add_pos_right _ (List.countP_pos_iff.mpr ⟨y, hy, decide_eq_true rfl⟩)
  have hk : k < maxSlots := by
    by_contra hk
    rw [reach_far hok hskip hl hr (not_lt.mp hk)] at hpos
    omega
  refine Nat.add_pos_right _ (hpos.trans_le ?_)
  exact Finset.single_le_sum (f := fun j : Fin maxSlots => slotShare c.mem y.pkt j) (fun _ _ => Nat.zero_le _)
    (Finset.mem_univ ⟨k, hk⟩)

/-- A packet that is owned and encoded keeps its bytes. -/
lemma frozen_of_owned (hc : careful c.mem (c.loc t) ch = true)
    (hs : lstep c.mem (c.loc t) ch = some (m', l')) (ho : 0 < owners c p)
    (he : (c.mem.packet p).isEncode = true) : Frozen (c.mem.packet p) (m'.packet p) := by
  rcases (treats_of_uses (lstep_keeps hs).uses (reach_grip hok hskip hl hr t) hc p).coded he with h | ⟨h, -⟩
  · exact h
  · exact absurd h (not_dropped hok hskip hl hr ho t)

lemma ready_run (hc : careful c.mem (c.loc t) ch = true) (hs : lstep c.mem (c.loc t) ch = some (m', l'))
    (hi : Ready c) : Ready ⟨m', Function.update c.loc t l'⟩ := by
  have hn := (reach_named hr).known t
  have hkeep : ∀ p, 0 < owners c p → (c.mem.packet p).isEncode = true → (m'.packet p).isEncode = true :=
    fun p ho he => (frozen_of_owned hok hskip hl hr hc hs ho he).isEncode.trans he
  have hsize : ∀ u k z, z ∈ LV.bufs (lview (c.loc u) k) → z.2 = (m'.packet z.1.pkt).writePos := by
    intro u k z hz
    have hown := reach_gath (k := k) hok hskip hl hr z.1
      (mem_gath_of_bufs ((reach_sends (k := k) hok hskip hl hr).data u) hz)
    have hf := frozen_of_owned hok hskip hl hr hc hs (owners_of_slot hok hskip hl hr (.inr hown))
      (hi.slots k z.1 (.inr hown))
    rw [hf.writePos]
    exact hi.sizes u k z hz
  refine ⟨fun k y hy => ?_, fun u i id p ha => ?_, fun u k z hz => ?_⟩
  · have hold : (y ∈ (c.mem.sess k).sendQ ∨ y ∈ (c.mem.hist k).owned) ∨
        ∃ id, (lview (c.loc t) k).api = some (id, .enqueue y.pkt) := by
      rcases lstep_seen hn hs k with ⟨e, -, hst⟩ | ⟨-, hv⟩
      · exact sstep_entries hst hy
      · refine .inl ?_
        rcases hv with hv | ⟨_, hv⟩
        · exact (congrArg (fun V : View => y ∈ V.s.sendQ ∨ y ∈ V.h.owned) hv).mp hy
        · exact (congrArg (fun V : View => y ∈ V.s.sendQ ∨ y ∈ V.h.owned) hv).mp hy
    rcases hold with hy | ⟨id, ha⟩
    · exact hkeep _ (owners_of_slot hok hskip hl hr hy) (hi.slots k y hy)
    · exact hkeep _ (owners_of_call (api_on ha)) (hi.calls t k id _ (api_on ha))
  · dsimp only at ha
    by_cases hu : u = t
    · subst hu
      rw [Function.update_self] at ha
      have hx' : (lview l' i).api = some (id, .enqueue p) := by
        change apiRole i l'.api = _
        rw [ha, apiRole, if_pos rfl]
      have hold : (lview (c.loc u) i).api = some (id, .enqueue p) ∨
          (lview (c.loc u) i).api = some (id, .encode p) := by
        rcases lstep_seen hn hs i with ⟨e, -, hst⟩ | ⟨hv, -⟩
        · exact sstep_enqueue hst hx'
        · exact .inl (hv ▸ hx')
      rcases hold with ha' | ha'
      · exact hkeep _ (owners_of_call (api_on ha')) (hi.calls u i id _ (api_on ha'))
      · exact lstep_encoded hs (api_on ha') ha
    · rw [Function.update_of_ne hu] at ha
      exact hkeep _ (owners_of_call ha) (hi.calls u i id _ ha)
  · dsimp only at hz ⊢
    by_cases hu : u = t
    · subst hu
      rw [Function.update_self] at hz
      rcases lstep_seen hn hs k with ⟨e, -, hst⟩ | ⟨hv, -⟩
      · rcases sstep_bufs hst hz with hz' | ⟨j, n, b, hrole⟩
        · exact hsize u k z hz'
        · rcases lstep_gather hs hrole hz with hz' | ⟨hm, hz'⟩
          · refine hsize u k z ?_
            rw [LV.bufs, hrole]
            exact hz'
          · rw [hm]
            exact hz'
      · exact hsize u k z (hv ▸ hz)
    · rw [Function.update_of_ne hu] at hz
      exact hsize u k z hz

end Reach

/-! ### The stream to a client -/

/-- What `SendPacket` has queued for a session, all bytes that `WSASend` was given for it, and those of the
last call. -/
structure Outgoing where
  posted : List (List UInt8)
  wire : List UInt8
  batch : List UInt8

def Outgoing.start : Outgoing := ⟨[], [], []⟩

/-- The bytes that the buffers of a `WSASend` refer to. -/
def bytesOf (pk : ℕ → Packet) (bufs : List (Entry × ℕ)) : List UInt8 :=
  (bufs.map fun x => (pk x.1.pkt).pBuffer.take x.2).flatten

def Outgoing.handOver (o : Outgoing) (d : List UInt8) : Outgoing := { o with wire := o.wire ++ d, batch := d }

/-- A step of a worker or the accept thread. A worker that goes on from `WSASend` has called it, and
`OnClientJoin` starts the stream of a session. -/
def Outgoing.walk (o : Outgoing) (pk : ℕ → Packet) : Role → Role → Outgoing
  | .acc (.join _), .acc (.joining _) => .start
  | .work (.send (.send _ _)), .work (.send (.send _ _)) => o
  | .work (.send (.send _ bufs)), _ => o.handOver (bytesOf pk bufs)
  | _, _ => o

/-- A step of a thread, as the slot sees it. -/
def Outgoing.note (o : Outgoing) (text : ℕ → List UInt8) (pk : ℕ → Packet) (x x' : LV) : Outgoing :=
  match x.api, x'.api with
  | some (_, .enqueue p), some (_, .post) => { o with posted := o.posted ++ [text p] }
  | _, _ => o.walk pk x.role x'.role

variable {o : Outgoing} {pk pk' : ℕ → Packet} {text' : ℕ → List UInt8}

lemma walk_self (r : Role) : o.walk pk r r = o := by
  rcases r with _ | p | w | p
  · rfl
  · cases p <;> rfl
  · rcases w with _ | _ | _ | _ | _ | p | _ | _ | _
    case send => cases p <;> rfl
    all_goals rfl
  · rfl

lemma note_self : o.note text pk x x = o := by
  unfold Outgoing.note
  split
  · rename_i h1 h2
    cases h1.symm.trans h2
  · exact walk_self _

/-- The wire carries the frames of the payloads `W`, which are the first that were queued. -/
structure Carries (o : Outgoing) (W : List (List UInt8)) : Prop where
  frames : ∃ F : List (List UInt8), (∀ f ∈ F, WellFormed f) ∧ o.wire = F.flatten ∧ F.map payload = W
  first : W <+: o.posted

def payloadsOf (text : ℕ → List UInt8) (es : List Entry) : List (List UInt8) := es.map fun y => text y.pkt

def wires (pk : ℕ → Packet) (es : List Entry) : List UInt8 := (es.map fun y => Cipher.wire (pk y.pkt)).flatten

/-- What the stream to the client of a slot is to the slot. -/
structure InOrder (V : View) (text : ℕ → List UInt8) (pk : ℕ → Packet) (o : Outgoing) (W : List (List UInt8)) :
    Prop extends Carries o W where
  rest : V.h.phase = .live → V.h.joined = true → o.posted = W ++ payloadsOf text (V.h.gath ++ V.s.sendQ)
  kept : V.h.gath = [] → wires pk V.h.owned <:+ o.batch

lemma note_call {r : Role} {z z' : Option (SessionID × ApiPc)} (h : ∀ id p, z ≠ some (id, .enqueue p)) :
    o.note text pk ⟨r, z⟩ ⟨r, z'⟩ = o := by
  unfold Outgoing.note
  split
  · rename_i h1 _
    exact absurd h1 (h _ _)
  · exact walk_self _

lemma Carries.post {W : List (List UInt8)} (h : Carries o W) (xs : List UInt8) :
    Carries { o with posted := o.posted ++ [xs] } W :=
  ⟨h.frames, h.first.trans (List.prefix_append _ _)⟩

/-- The payloads can be found in the bytes. -/
lemma Carries.parse {W : List (List UInt8)} (h : Carries o W) :
    (parse o.wire).rest = [] ∧ (parse o.wire).frames.map payload = W := by
  obtain ⟨F, hF, hwire, rfl⟩ := h.frames
  have hp := parse_unique (t := []) hF fun n hn => by cases hn
  rw [List.append_nil] at hp
  rw [hwire, hp]
  exact ⟨rfl, rfl⟩

/-- A batch of frames is handed over. -/
lemma InOrder.handOver {W : List (List UInt8)} {bufs : List (Entry × ℕ)} (hi : InOrder V text pk o W)
    (hcoded : ∀ y ∈ V.h.gath, Coded (pk y.pkt) (text y.pkt))
    (hsize : ∀ z ∈ bufs, z.2 = (pk z.1.pkt).writePos) (hbufs : bufs.map Prod.fst = V.h.gath)
    (hown : V.h.gath = V.h.owned) (hp : V.h.phase = .live) (hj : V.h.joined = true)
    {V' : View} (hs : V'.s = V.s) (hg : V'.h.gath = []) (ho : V'.h.owned = V.h.owned) :
    InOrder V' text pk (o.handOver (bytesOf pk bufs)) (W ++ payloadsOf text V.h.gath) := by
  have hwires : bytesOf pk bufs = wires pk V.h.gath := by
    rw [wires, bytesOf, ← hbufs, List.map_map]
    congr 1
    refine List.map_congr_left fun z hz => ?_
    rw [hsize z hz]
    rfl
  obtain ⟨⟨F, hF, hw, hW⟩, -⟩ := hi.toCarries
  have hrest := hi.rest hp hj
  rw [payloadsOf, List.map_append, ← List.append_assoc] at hrest
  refine ⟨⟨⟨F ++ V.h.gath.map fun y => Cipher.wire (pk y.pkt), fun f hf => ?_, ?_, ?_⟩, ?_⟩, fun _ _ => ?_,
    fun _ => ?_⟩
  · rcases List.mem_append.mp hf with hf | hf
    · exact hF f hf
    · obtain ⟨y, hy, rfl⟩ := List.mem_map.mp hf
      obtain ⟨hlen, key, hk⟩ := hcoded y hy
      rw [hk]
      exact ⟨frame_isFrame hlen, agrees_frame (by omega)⟩
  · rw [Outgoing.handOver, hwires, hw, wires, List.flatten_append]
  · rw [List.map_append, hW, List.map_map, payloadsOf]
    congr 1
    refine List.map_congr_left fun y hy => ?_
    obtain ⟨hlen, key, hk⟩ := hcoded y hy
    rw [Function.comp, hk, payload_frame (by omega)]
  · rw [Outgoing.handOver, hrest]
    exact List.prefix_append _ _
  · rw [Outgoing.handOver, hrest, hg, hs, List.nil_append]
    rfl
  · rw [Outgoing.handOver, ho, ← hown, hwires]

lemma sstep_inOrder {W : List (List UInt8)} (h : SStep k e V x V' x') (hA : JoinedAt V x)
    (hd : SendData (batch V) x.role) (hb : Blank V) (hsize : ∀ z ∈ LV.bufs x, z.2 = (pk z.1.pkt).writePos)
    (hcoded : ∀ y ∈ V.h.gath, Coded (pk y.pkt) (text y.pkt)) (hi : InOrder V text pk o W) :
    ∃ W', InOrder V' text pk (o.note text pk x x') W' := by
  cases h
  case enqueue r id p =>
    refine ⟨W, hi.post _, fun hp hj => ?_, hi.kept⟩
    change o.posted ++ [text p] = _
    rw [hi.rest hp hj]
    simp [payloadsOf]
  case foreign => exact ⟨W, by rw [note_self]; exact ⟨hi.toCarries, hi.rest, hi.kept⟩⟩
  case sendError | sendDone | sendPend =>
    have hph : V.h.phase = .live := hA.live (by simp [LV.valid, Role.valid, Role.refs, WorkPc.refs, SendPc.refs])
    have hjn : V.h.joined = true := hA.met (by simp [LV.met, Role.met, Role.refs, WorkPc.refs, SendPc.refs])
    obtain ⟨hg, -, -⟩ := hd
    exact ⟨_, hi.handOver hcoded hsize (hg.bufs.trans hg.gath.symm) hg.gath hph hjn rfl rfl rfl⟩
  case pop hst =>
    obtain ⟨-, -, ho⟩ := hb (.inl (hA.stack (by omega)))
    refine ⟨W, hi.toCarries, fun hp => by (cases hp), fun _ => ?_⟩
    dsimp only
    rw [ho]
    exact List.nil_suffix
  case initReleaseFlag =>
    have hj0 : V.h.joined = false := hA.unmet Nat.one_pos
    exact ⟨W, hi.toCarries, fun _ hj => by (cases hj0.symm.trans hj), hi.kept⟩
  case initSendCnt => exact ⟨W, hi.toCarries, hi.rest, fun _ => List.nil_suffix⟩
  case join =>
    obtain ⟨hq, hg, ho⟩ := hb (.inr (.inr (hA.unmet Nat.one_pos)))
    refine ⟨[], ⟨⟨[], fun _ hf => absurd hf List.not_mem_nil, rfl, rfl⟩, List.nil_prefix⟩, fun _ _ => ?_, fun _ => ?_⟩
    · dsimp only
      rw [hq, hg]
      rfl
    · dsimp only
      rw [ho]
      exact List.nil_suffix
  case gather z q _ _ hq =>
    refine ⟨W, hi.toCarries, fun hp hj => ?_, fun hg => by (simp at hg)⟩
    have := hi.rest hp hj
    dsimp only
    rw [List.append_assoc, List.singleton_append, ← hq]
    exact this
  case freeArr | relFreeArr =>
    refine ⟨W, hi.toCarries, hi.rest, fun hg => List.IsSuffix.trans ?_ (hi.kept hg)⟩
    obtain ⟨pre, hpre⟩ := List.tail_suffix V.h.owned
    dsimp only
    conv_rhs => rw [← hpre]
    rw [wires, wires, List.map_append, List.flatten_append]
    exact List.suffix_append _ _
  case cas => exact ⟨W, hi.toCarries, fun hp => by (cases hp), hi.kept⟩
  case push => exact ⟨W, hi.toCarries, fun hp => by (cases hp), hi.kept⟩
  case drain z q _ =>
    have hph : V.h.phase = .rel := hA.rel Nat.one_pos
    exact ⟨W, hi.toCarries, fun hp => by (cases hph.symm.trans hp), hi.kept⟩
  case entrySkip j _ _ => cases j <;> exact ⟨W, hi.toCarries, hi.rest, hi.kept⟩
  case entryPass j _ _ => cases j <;> exact ⟨W, hi.toCarries, hi.rest, hi.kept⟩
  all_goals
    refine ⟨W, ?_⟩
    first
      | exact ⟨hi.toCarries, hi.rest, hi.kept⟩
      | (rw [note_call fun id p h => by (cases h)]; exact ⟨hi.toCarries, hi.rest, hi.kept⟩)

lemma InOrder.congr {W : List (List UInt8)} (hi : InOrder V text pk o W) (hs : V'.s = V.s) (hh : V'.h = V.h)
    (hk : ∀ y, y ∈ V.s.sendQ ∨ y ∈ V.h.owned ∨ y ∈ V.h.gath →
      Cipher.wire (pk' y.pkt) = Cipher.wire (pk y.pkt) ∧ text' y.pkt = text y.pkt) :
    InOrder V' text' pk' o W := by
  refine ⟨hi.toCarries, fun hp hj => ?_, fun hg => ?_⟩
  · rw [hh] at hp hj
    rw [hi.rest hp hj, hs, hh]
    congr 1
    refine List.map_congr_left fun y hy => ?_
    rcases List.mem_append.mp hy with hy | hy
    · exact (hk y (.inr (.inr hy))).2.symm
    · exact (hk y (.inl hy)).2.symm
  · rw [hh] at hg ⊢
    have he : wires pk' V.h.owned = wires pk V.h.owned := by
      rw [wires, wires]
      congr 1
      exact List.map_congr_left fun y hy => (hk y (.inr (.inl hy))).1
    rw [he]
    exact hi.kept hg

/-! ### Runs -/

section Watched

variable {τ : Type*} [DecidableEq τ] {c : Config τ} {b : Boot} {a : τ} {w : τ → Bool} {bad : List Ev}

/-- The server with the texts of its packets and the streams to its clients beside it. -/
structure Watched (τ : Type*) where
  c : Config τ
  text : ℕ → List UInt8
  out : ℕ → Outgoing

def watch (W : Watched τ) : Act τ → Option (Watched τ)
  | .run t ch => (step W.c (.run t ch)).map fun c' =>
    ⟨c', noteText W.text W.c.mem (W.c.loc t).api ch,
      fun k => (W.out k).note W.text W.c.mem.packet (lview (W.c.loc t) k) (lview (c'.loc t) k)⟩
  | x => (step W.c x).map fun c' => ⟨c', W.text, W.out⟩

def unwatched (c : Config τ) : Watched τ := ⟨c, fun _ => [], fun _ => .start⟩

/-- The action is none of those in `bad`, and contents code is careful. -/
def heeds (bad : List Ev) (W : Watched τ) : Act τ → Prop
  | .run t ch => avoids bad W.c (.run t ch) ∧ careful W.c.mem (W.c.loc t) ch = true
  | _ => True

variable {W : Watched τ}

lemma watch_step {x : Act τ} {W' : Watched τ} (h : watch W x = some W') : step W.c x = some W'.c := by
  cases x <;> simp only [watch, Option.map_eq_some_iff] at h
  all_goals
    obtain ⟨c', hs, rfl⟩ := h
    exact hs

/-- A run with the streams beside it is a run. -/
lemma reach_of_watch (hok : .ok ∉ bad) {c₀ : Config τ} (h : Reach watch (heeds bad) (unwatched c₀) W) :
    Reach step (avoids bad) c₀ W.c := by
  refine Reach.inv (I := fun W => Reach step (avoids bad) c₀ W.c) .init (fun W W' x _ hi hx hs => ?_) h
  refine .step hi ?_ (watch_step hs)
  cases x with
  | run t ch => exact hx.1
  | _ => exact hok

variable [Fintype τ]

structure Followed (W : Watched τ) : Prop where
  texts : Texts W.c.mem W.text
  ready : Ready W.c
  out : ∀ k, ∃ P, InOrder (view W.c.mem k) W.text W.c.mem.packet (W.out k) P

lemma followed_run {t : τ} {W' : Watched τ} (hok : .ok ∉ bad) (hskip : .skipRelease ∈ bad)
    (hl : .lateEnter ∈ bad) (hr : Reach step (avoids bad) (boot b a w) W.c) (hx : heeds bad W (.run t ch))
    (hs : watch W (.run t ch) = some W') (hi : Followed W) : Followed W' := by
  have hstep := watch_step hs
  simp only [watch, Option.map_eq_some_iff] at hs
  obtain ⟨c', hs, rfl⟩ := hs
  simp only [step, Option.map_eq_some_iff] at hs
  obtain ⟨⟨m', l'⟩, hs, rfl⟩ := hs
  have hU : ∀ p, Treats W.c.mem (W.c.loc t) ch m' p :=
    treats_of_uses (lstep_keeps hs).uses (reach_grip hok hskip hl hr t) hx.2
  refine ⟨texts_step hU (reach_shaped hr) hx.2 hi.texts, ready_run hok hskip hl hr hx.2 hs hi.ready, fun k => ?_⟩
  have hgath := reach_gath (k := k) hok hskip hl hr
  have hgath' := reach_gath (k := k) hok hskip hl (.step hr hx.1 hstep)
  obtain ⟨P, hP⟩ := hi.out k
  dsimp only
  rw [Function.update_self]
  -- a packet that waits or is being sent keeps its frame and its text
  have hkeep : ∀ y : Entry, 0 < owners W.c y.pkt → (W.c.mem.packet y.pkt).isEncode = true →
      Cipher.wire (m'.packet y.pkt) = Cipher.wire (W.c.mem.packet y.pkt) ∧
        noteText W.text W.c.mem (W.c.loc t).api ch y.pkt = W.text y.pkt := fun y ho he =>
    ⟨(frozen_of_owned hok hskip hl hr hx.2 hs ho he).wire, noteText_of_coded he _ _⟩
  have hslot : ∀ y, y ∈ (W.c.mem.sess k).sendQ ∨ y ∈ (W.c.mem.hist k).owned →
      Cipher.wire (m'.packet y.pkt) = Cipher.wire (W.c.mem.packet y.pkt) ∧
        noteText W.text W.c.mem (W.c.loc t).api ch y.pkt = W.text y.pkt :=
    fun y hy => hkeep y (owners_of_slot hok hskip hl hr hy) (hi.ready.slots k y hy)
  rcases lstep_seen ((reach_named hr).known t) hs k with ⟨e, -, hst⟩ | ⟨hv, hv'⟩
  · have hcoded : ∀ y ∈ (view W.c.mem k).h.gath, Coded (W.c.mem.packet y.pkt) (W.text y.pkt) :=
      fun y hy => hi.texts _ (hi.ready.slots k y (.inr (hgath y hy)))
    obtain ⟨P', hP'⟩ := sstep_inOrder hst (reach_joinedAt hok hskip hl hr t)
      ((reach_sends (k := k) hok hskip hl hr).data t) (reach_sends (k := k) hok hskip hl hr).blank
      (hi.ready.sizes t k) hcoded hP
    refine ⟨P', hP'.congr rfl rfl fun y hy => ?_⟩
    have hy' : y ∈ (view m' k).s.sendQ ∨ y ∈ (view m' k).h.owned :=
      hy.imp id fun h => h.elim id fun h => hgath' y h
    rcases sstep_entries hst hy' with hy | ⟨id, ha⟩
    · exact hslot y hy
    · exact hkeep y (owners_of_call (api_on ha)) (hi.ready.calls t k id _ (api_on ha))
  · rw [hv, note_self]
    have hs' : (view m' k).s = (view W.c.mem k).s ∧ (view m' k).h = (view W.c.mem k).h := by
      rcases hv' with hv' | ⟨_, hv'⟩ <;> rw [hv'] <;> exact ⟨rfl, rfl⟩
    exact ⟨P, hP.congr hs'.1 hs'.2 fun y hy => hslot y (hy.imp id fun h => h.elim id fun h => hgath y h)⟩

omit [Fintype τ] in
lemma followed_complete {io : IoReq} {n : ℕ} {d : List UInt8} {W' : Watched τ}
    (hs : watch W (.complete io n d) = some W') (hi : Followed W) : Followed W' := by
  simp only [watch, Option.map_eq_some_iff, step] at hs
  obtain ⟨c', hs, rfl⟩ := hs
  split at hs <;> simp only [Option.some.injEq, reduceCtorEq] at hs
  subst hs
  refine ⟨hi.texts, ⟨hi.ready.slots, hi.ready.calls, hi.ready.sizes⟩, fun k => ?_⟩
  obtain ⟨P, hP⟩ := hi.out k
  exact ⟨P, hP.congr rfl rfl fun _ _ => ⟨rfl, rfl⟩⟩

omit [Fintype τ] in
lemma followed_give {t u : τ} {p : ℕ} {W' : Watched τ} (hs : watch W (.give t u p) = some W') (hi : Followed W) :
    Followed W' := by
  simp only [watch, Option.map_eq_some_iff, step] at hs
  obtain ⟨c', hs, rfl⟩ := hs
  split at hs <;> simp only [Option.some.injEq, reduceCtorEq] at hs
  subst hs
  have hloc : ∀ v, (Function.update (Function.update W.c.loc t
      { (W.c.loc t) with holds := (W.c.loc t).holds.erase p }) u
      { (W.c.loc u) with holds := p :: (W.c.loc u).holds } v).api = (W.c.loc v).api ∧
      (Function.update (Function.update W.c.loc t { (W.c.loc t) with holds := (W.c.loc t).holds.erase p }) u
        { (W.c.loc u) with holds := p :: (W.c.loc u).holds } v).pc = (W.c.loc v).pc := by
    intro v
    by_cases hv : v = u
    · subst hv
      rw [Function.update_self]
      exact ⟨rfl, rfl⟩
    · rw [Function.update_of_ne hv]
      by_cases hv' : v = t
      · subst hv'
        rw [Function.update_self]
        exact ⟨rfl, rfl⟩
      · rw [Function.update_of_ne hv']
        exact ⟨rfl, rfl⟩
  refine ⟨hi.texts, ⟨hi.ready.slots, fun v i id r ha => ?_, fun v k z hz => ?_⟩, hi.out⟩
  · dsimp only at ha
    rw [(hloc v).1] at ha
    exact hi.ready.calls v i id r ha
  · dsimp only at hz
    rw [LV.bufs, lview, (hloc v).2] at hz
    exact hi.ready.sizes v k z hz

omit [Fintype τ] in
lemma followed_boot : Followed (unwatched (boot b a w)) := by
  refine ⟨fun p hp => by (cases hp), ⟨fun k y hy => ?_, fun t i id p ha => by (cases ha), fun t k z hz => ?_⟩,
    fun k => ⟨[], ⟨⟨[], fun _ hf => ?_, rfl, rfl⟩, List.nil_prefix⟩, fun _ _ => rfl, fun _ => List.nil_suffix⟩⟩
  · exact hy.elim (fun h => absurd h List.not_mem_nil) fun h => absurd h List.not_mem_nil
  · have hrole : lview ((boot b a w).loc t) k = ⟨.none, none⟩ := (fresh_boot b a w k).idle t
    change z ∈ LV.bufs (lview ((boot b a w).loc t) k) at hz
    rw [hrole] at hz
    exact absurd hz List.not_mem_nil
  · exact absurd hf List.not_mem_nil

theorem reach_followed (hok : .ok ∉ bad) (hskip : .skipRelease ∈ bad) (hl : .lateEnter ∈ bad)
    (h : Reach watch (heeds bad) (unwatched (boot b a w)) W) : Followed W := by
  refine Reach.inv (I := Followed) followed_boot (fun W W' x hr hi hx hs => ?_) h
  cases x with
  | run t ch => exact followed_run hok hskip hl (reach_of_watch hok hr) hx hs hi
  | complete io n d => exact followed_complete hs hi
  | give t u p => exact followed_give hs hi

end Watched

instance {τ : Type*} {B : List Ev} {W : Watched τ} : (x : Act τ) → Decidable (heeds B W x)
  | .run _ _ => inferInstanceAs (Decidable (_ ∧ _))
  | .complete _ _ _ => .isTrue trivial
  | .give _ _ _ => .isTrue trivial

/-- Two bytes are written to a packet, and it is sent. -/
def written : List (Act (Fin 4)) :=
  accepted 0x1A4 ++ [.run 3 (.alloc 0), .run 3 (.edit 0 (.setData [65, 66])), .run 3 (.sendPacket firstID 0)] ++
    ticks 3 4 ++ [.run 3 (.key 7)] ++ queued ++ ticks 1 10 ++ [.run 1 (.io .done)]

end LoginServerChat.SendStream
