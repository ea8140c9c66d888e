import LoginServerChat.Cipher
import LoginServerChat.PacketStep
import LoginServerChat.RecvRoom

/-!
The shape of the packets in every run: a buffer of the default size, with its two positions in order
behind the header. So no `Encode` leaves a buffer; and of the packets of the pool a run has touched
finitely many.
-/

namespace LoginServerChat.PacketShape

open NetPacket Packet Cipher NetState NetStep SlotRun AcceptBooks RecvRoom Runs

/-- A packet of the default size. -/
structure Shaped (q : Packet) : Prop where
  length : q.pBuffer.length = defaultSize
  header : headerSize ≤ q.readPos
  order : q.readPos ≤ q.writePos
  write : q.writePos ≤ defaultSize

variable {q q' : Packet}

lemma Shaped.setData (h : Shaped q) (src : List UInt8) : Shaped (q.setData src).2 := by
  obtain ⟨h1, h2, h3, h4⟩ := h
  obtain ⟨d, hd⟩ : ∃ d, src.take (q.getBufferSize - q.writePos) = d := ⟨_, rfl⟩
  have hlen : d.length ≤ defaultSize - q.writePos := by
    rw [← hd, List.length_take, getBufferSize, h1]
    exact Nat.min_le_left _ _
  simp only [Packet.setData, hd]
  refine ⟨?_, h2, Nat.le_trans h3 (Nat.le_add_right _ _), by simp only; omega⟩
  simp only [List.length_append, List.length_take, List.length_drop, h1]
  omega

lemma Shaped.read (h : Shaped q) {n : ℕ} (hn : n ≤ q.getPayloadSize) :
    Shaped { q with readPos := q.readPos + n } := by
  obtain ⟨h1, h2, h3, h4⟩ := h
  rw [getPayloadSize] at hn
  exact ⟨h1, Nat.le_trans h2 (Nat.le_add_right _ _), by simp only; omega, h4⟩

lemma Shaped.moveWritePos (h : Shaped q) (n : ℕ) : Shaped (q.moveWritePos n).2 := by
  obtain ⟨h1, h2, h3, h4⟩ := h
  refine ⟨h1, h2, Nat.le_trans h3 (Nat.le_add_right _ _), ?_⟩
  simp only [Packet.moveWritePos, getBufferSize, getTotalSize, h1]
  omega

lemma Shaped.clear (h : Shaped q) : Shaped q.clear :=
  ⟨h.length, Nat.le_refl _, Nat.le_refl _, show headerSize ≤ defaultSize by decide⟩

lemma Shaped.apply (h : Shaped q) (op : PacketOp) : Shaped (op.apply q) := by
  cases op with
  | setData d => exact h.setData d
  | getData n => exact h.read (Nat.min_le_right _ _)
  | moveWritePos n => exact h.moveWritePos n
  | moveReadPos n => exact h.read (Nat.min_le_right _ _)
  | clear => exact h.clear

/-- `Encode` stays in the buffer. -/
lemma Shaped.encode (h : Shaped q) (k : UInt8) : ∃ q', q.encode k = some q' ∧ Shaped q' := by
  by_cases he : q.isEncode = true
  · exact ⟨q, by rw [Packet.encode, if_pos he], h⟩
  obtain ⟨h1, h2, h3, h4⟩ := h
  unfold headerSize defaultSize at *
  have hn : 5 + q.getPayloadSize % 65536 ≤ q.pBuffer.length := by
    have := Nat.mod_le q.getPayloadSize 65536
    rw [getPayloadSize] at this ⊢
    omega
  refine ⟨_, encode_eq k (Bool.eq_false_of_not_eq_true he) rfl hn, ?_, h2, h3, h4⟩
  simp only [List.length_append, length_frame, List.length_take, List.length_drop, headerSize]
  unfold defaultSize
  omega

lemma length_poke {b b' d : List UInt8} {i : ℕ} (h : poke b i d = some b') : b'.length = b.length := by
  unfold poke at h
  split at h
  · obtain rfl := Option.some.inj h
    simp only [List.length_append, List.length_take, List.length_drop]
    omega
  · cases h

lemma length_decodeFrom {k : UInt8} {n i : ℕ} {x y : UInt8} {b b' : List UInt8}
    (h : decodeFrom k n i x y b = some b') : b'.length = b.length := by
  induction n generalizing i x y b with
  | zero =>
    obtain rfl := Option.some.inj h
    rfl
  | succ n ih =>
    simp only [decodeFrom, Option.bind_eq_some_iff] at h
    obtain ⟨v, -, h⟩ := h
    rw [ih h, List.length_set]

lemma Shaped.decode (h : Shaped q) {r : Bool} (hd : q.decode = some (r, q')) : Shaped q' := by
  simp only [Packet.decode, Option.bind_eq_some_iff, Option.map_eq_some_iff] at hd
  obtain ⟨b, hb, s, -, he⟩ := hd
  obtain ⟨-, rfl⟩ := Prod.mk.inj he
  exact ⟨(length_decodeFrom hb).trans h.length, h.header, h.order, h.write⟩

/-! ### The steps of the server -/

/-- What a step does to the packets. -/
inductive Uses (m : Mem) (l : Local) (ch : Choice) (m' : Mem) : Prop
  | same (hq : m'.packet = m.packet)
  | count (p : ℕ) (n : ℤ) (hq : m'.packet = Function.update m.packet p { m.packet p with refCount := n })
  | edit (p : ℕ) (op : PacketOp) (hch : ch = .edit p op)
      (hq : m'.packet = Function.update m.packet p (op.apply (m.packet p)))
  | encode (i : ℕ) (id : SessionID) (p : ℕ) (k : UInt8) (q : Packet) (ha : l.api = .on i id (.encode p))
      (hch : ch = .key k) (he : (m.packet p).encode k = some q) (hq : m'.packet = Function.update m.packet p q)
  | fill (i : ℕ) (h : NetHeader) (p : ℕ) (b : List UInt8) (hp : l.pc = .work i (.recv (.dequeue h p)))
      (hb : b.length = (m.packet p).pBuffer.length)
      (hq : m'.packet = Function.update m.packet p
        (Packet.moveWritePos { m.packet p with pBuffer := b } h.len).2)
  | decode (i p : ℕ) (r : Bool) (q : Packet) (hp : l.pc = .work i (.recv (.decode p)))
      (hd : (m.packet p).decode = some (r, q)) (hq : m'.packet = Function.update m.packet p q)
  | clear (p : ℕ) (hd : l.drop = some p) (hq : m'.packet = Function.update m.packet p (m.packet p).clear)

/-- With the pool as a whole. -/
structure Keeps (m : Mem) (l : Local) (ch : Choice) (m' : Mem) : Prop where
  uses : Uses m l ch m'
  pool : ∃ q, ∀ p ≠ q, m'.pool p = m.pool p

variable {m m' : Mem} {l l' : Local} {i : ℕ} {ch : Choice}

lemma Keeps.same (hq : m'.packet = m.packet) (hp : m'.pool = m.pool) : Keeps m l ch m' :=
  ⟨.same hq, 0, fun _ _ => by rw [hp]⟩

lemma Keeps.of (h : Uses m l ch m') (hp : m'.pool = m.pool) : Keeps m l ch m' := ⟨h, 0, fun _ _ => by rw [hp]⟩

lemma Uses.shaped (h : Uses m l ch m') (hm : ∀ p, Shaped (m.packet p)) (p : ℕ) : Shaped (m'.packet p) := by
  have hset : ∀ (r : ℕ) (v : Packet), m'.packet = Function.update m.packet r v → (Shaped (m.packet r) → Shaped v) →
      Shaped (m'.packet p) := by
    intro r v hq hv
    rw [hq]
    by_cases hp : p = r
    · subst hp
      rw [Function.update_self]
      exact hv (hm p)
    · rw [Function.update_of_ne hp]
      exact hm p
  cases h with
  | same hq => exact hq ▸ hm p
  | count r n hq => exact hset r _ hq fun h => ⟨h.length, h.header, h.order, h.write⟩
  | edit r op _ hq => exact hset r _ hq fun h => h.apply op
  | encode i id r k q _ _ he hq =>
    refine hset r _ hq fun h => ?_
    obtain ⟨q', he', hs⟩ := h.encode k
    obtain rfl := Option.some.inj (he.symm.trans he')
    exact hs
  | fill i h r b _ hb hq =>
    refine hset r _ hq fun hr => ?_
    have hs : Shaped { m.packet r with pBuffer := b } := ⟨hb.trans hr.length, hr.header, hr.order, hr.write⟩
    exact hs.moveWritePos _
  | decode i r x q _ hd hq => exact hset r _ hq fun h => h.decode hd
  | clear r _ hq => exact hset r _ hq Shaped.clear

lemma allocPacket_keeps {j : Local} {p : ℕ} (h : allocPacket m j p = some (m', l')) : Keeps m l ch m' := by
  unfold allocPacket at h
  split at h
  · obtain ⟨rfl, rfl⟩ := Prod.mk.inj (Option.some.inj h)
    exact ⟨.count p _ rfl, p, fun r hr => Function.update_of_ne hr _ _⟩
  · cases h

lemma freePacket_keeps {n : Mem} {j : Local} {p : ℕ} (h : freePacket n j p = (m', l')) (hq : n.packet = m.packet)
    (hp : n.pool = m.pool) : Keeps m l ch m' := by
  obtain ⟨rfl, -⟩ := Prod.mk.inj h
  refine .of (.count p ((m.packet p).refCount - 1) ?_) hp
  rw [← hq]
  rfl

lemma contentsStep_keeps (h : contentsStep m l ch = some (m', l')) : Keeps m l ch m' := by
  revert h
  fun_cases contentsStep m l ch
  case case1 => exact allocPacket_keeps
  all_goals
    intro h
    simp only [Option.some.injEq, Prod.mk.injEq, reduceCtorEq] at h
  case case2 => exact freePacket_keeps h rfl rfl
  all_goals obtain ⟨rfl, rfl⟩ := h
  case case4 p op _ => exact .of (.edit p op rfl rfl) rfl
  all_goals exact .same rfl rfl

lemma apiStep_keeps {id : SessionID} {p : ApiPc} (ha : l.api = .on i id p) (h : apiStep m l i id p ch = some (m', l')) : Keeps m l ch m' := by
  revert h
  fun_cases apiStep m l i id p ch
  all_goals
    intro h
    simp only [Option.some.injEq, Prod.mk.injEq, reduceCtorEq] at h
  all_goals obtain ⟨rfl, rfl⟩ := h
  case case7 p => exact .of (.count p _ rfl) rfl
  case case8 p k q hq => exact .of (.encode i id p k q ha rfl hq rfl) rfl
  all_goals exact .same rfl rfl

lemma sendStep_keeps {p : SendPc} (h : sendStep m l i p ch = some (m', l')) : Keeps m l ch m' := by
  revert h
  fun_cases sendStep m l i p ch
  all_goals
    intro h
    simp only [Option.some.injEq, Prod.mk.injEq, reduceCtorEq] at h
  all_goals
    obtain ⟨rfl, rfl⟩ := h
    exact .same rfl rfl

lemma postStep_keeps {p : PostPc} (h : postStep m l i p ch = some (m', l')) : Keeps m l ch m' := by
  revert h
  fun_cases postStep m l i p ch
  all_goals
    intro h
    simp only [Option.some.injEq, Prod.mk.injEq, reduceCtorEq] at h
  all_goals
    obtain ⟨rfl, rfl⟩ := h
    exact .same rfl rfl

lemma recvStep_keeps {p : RecvPc} (hp : l.pc = .work i (.recv p)) (h : recvStep m l i p ch = some (m', l')) : Keeps m l ch m' := by
  revert h
  fun_cases recvStep m l i p ch
  case case9 => exact allocPacket_keeps
  case case16 => exact contentsStep_keeps
  all_goals
    intro h
    simp only [Option.some.injEq, Prod.mk.injEq, reduceCtorEq] at h
  case case17 | case18 => exact freePacket_keeps h rfl rfl
  all_goals obtain ⟨rfl, rfl⟩ := h
  case case10 hd p b hb => exact .of (.fill i hd p b hp (length_poke hb) rfl) rfl
  case case12 p q hq | case13 p q hq => exact .of (.decode i p _ q hp hq rfl) rfl
  all_goals exact .same rfl rfl

lemma workStep_keeps {p : WorkPc} (hp : l.pc = .work i p) (h : workStep m l i p ch = some (m', l')) : Keeps m l ch m' := by
  revert h
  fun_cases workStep m l i p ch
  case case8 => exact sendStep_keeps
  case case9 => exact recvStep_keeps hp
  case case10 => exact postStep_keeps
  all_goals
    intro h
    simp only [Option.some.injEq, Prod.mk.injEq, reduceCtorEq] at h
  case case5 => exact freePacket_keeps h rfl rfl
  all_goals obtain ⟨rfl, rfl⟩ := h
  case case2 j _ => cases j <;> exact .same rfl rfl
  all_goals exact .same rfl rfl

lemma relStep_keeps {p : RelPc} {x : Bool} (h : relStep m l i x p ch = some (m', l')) : Keeps m l ch m' := by
  revert h
  fun_cases relStep m l i x p ch
  case case12 => exact contentsStep_keeps
  all_goals
    intro h
    simp only [Option.some.injEq, Prod.mk.injEq, reduceCtorEq] at h
  case case5 | case7 => exact freePacket_keeps h rfl rfl
  all_goals
    obtain ⟨rfl, rfl⟩ := h
    exact .same rfl rfl

lemma acceptStep_keeps {p : AccPc} (h : acceptStep m l p ch = some (m', l')) : Keeps m l ch m' := by
  revert h
  fun_cases acceptStep m l p ch
  case case8 => exact contentsStep_keeps
  all_goals
    intro h
    simp only [Option.some.injEq, Prod.mk.injEq, reduceCtorEq] at h
  all_goals
    obtain ⟨rfl, rfl⟩ := h
    exact .same rfl rfl

lemma accOnStep_keeps {p : AccOn} (h : accOnStep m l i p ch = some (m', l')) : Keeps m l ch m' := by
  revert h
  fun_cases accOnStep m l i p ch
  case case6 => exact contentsStep_keeps
  all_goals
    intro h
    simp only [Option.some.injEq, Prod.mk.injEq, reduceCtorEq] at h
  case case1 p =>
    cases p
    all_goals
      obtain ⟨rfl, rfl⟩ := Prod.mk.inj h
      exact .same rfl rfl
  all_goals
    obtain ⟨rfl, rfl⟩ := h
    exact .same rfl rfl

/-- **A step of the server on the packets.** -/
theorem lstep_keeps (h : lstep m l ch = some (m', l')) : Keeps m l ch m' := by
  unfold lstep at h
  split at h
  case h_1 p hd =>
    split at h
    · obtain ⟨rfl, rfl⟩ := Prod.mk.inj (Option.some.inj h)
      exact ⟨.clear p hd rfl, p, fun r hr => Function.update_of_ne hr _ _⟩
    · cases h
  case h_2 =>
    split at h
    case h_1 ha => exact apiStep_keeps ha h
    case h_2 =>
      split at h
      case h_1 => exact contentsStep_keeps h
      case h_2 => exact acceptStep_keeps h
      case h_3 => exact accOnStep_keeps h
      case h_4 =>
        split at h
        · obtain ⟨rfl, rfl⟩ := Prod.mk.inj (Option.some.inj h)
          exact .same rfl rfl
        · cases h
      case h_5 hp => exact workStep_keeps hp h
      case h_6 => exact relStep_keeps h

variable {τ : Type*} [DecidableEq τ] {b : Boot} {a : τ} {w : τ → Bool} {c c' : Config τ}
  {ok : Config τ → Act τ → Prop}

/-- An action that is not a step of a thread leaves packets and pool alone. -/
lemma step_packet {x : Act τ} (h : step c x = some c') : c'.mem.packet = c.mem.packet ∧
    c'.mem.pool = c.mem.pool ∨ ∃ t ch, x = .run t ch ∧ Keeps c.mem (c.loc t) ch c'.mem := by
  cases x with
  | run t ch =>
    simp only [step, Option.map_eq_some_iff] at h
    obtain ⟨⟨m, l⟩, h, rfl⟩ := h
    exact .inr ⟨t, ch, rfl, lstep_keeps h⟩
  | complete io n d =>
    simp only [step] at h
    split at h <;> simp only [Option.some.injEq, reduceCtorEq] at h
    subst h
    exact .inl ⟨rfl, rfl⟩
  | give t u p =>
    simp only [step] at h
    split at h <;> simp only [Option.some.injEq, reduceCtorEq] at h
    subst h
    exact .inl ⟨rfl, rfl⟩

theorem reach_shaped (h : Reach step ok (boot b a w) c) (p : ℕ) : Shaped (c.mem.packet p) := by
  refine Reach.inv (I := fun c => ∀ p, Shaped (c.mem.packet p)) (fun p => ?_)
    (fun c c' x _ hi _ hs => ?_) h p
  · exact ⟨b.bytes_length p, Nat.le_refl _, Nat.le_refl _, show headerSize ≤ defaultSize by decide⟩
  · rcases step_packet hs with ⟨hq, -⟩ | ⟨t, ch, -, hK⟩
    · exact hq ▸ hi
    · exact hK.uses.shaped hi

/-- The pool has a packet left. -/
theorem reach_pool (h : Reach step ok (boot b a w) c) : ∃ p, 0 < c.mem.pool p := by
  obtain ⟨n, hn⟩ : ∃ n, ∀ p ≥ n, c.mem.pool p = 1 := by
    refine Reach.inv (I := fun c => ∃ n, ∀ p ≥ n, c.mem.pool p = 1) ⟨0, fun _ _ => rfl⟩
      (fun c c' x _ hi _ hs => ?_) h
    obtain ⟨n, hn⟩ := hi
    rcases step_packet hs with ⟨-, hp⟩ | ⟨t, ch, -, hK⟩
    · exact ⟨n, fun p hp' => hp ▸ hn p hp'⟩
    · obtain ⟨q, hq⟩ := hK.pool
      exact ⟨max n (q + 1), fun p hp => (hq p (by omega)).trans (hn p (by omega))⟩
  exact ⟨n, by rw [hn n (Nat.le_refl n)]; exact Nat.one_pos⟩

end LoginServerChat.PacketShape
