import LoginServerChat.Cipher

/-!
The life of a packet between `Alloc` and `SendPost`: writes, reads and sends in any order. The
length in the header comes from the write and the read position, the enciphered bytes are counted
from the start of the buffer, the size that `SendPost` hands over comes from the write position,
and `Encode` runs once.
-/

namespace LoginServerChat.PacketHistory

open NetPacket Packet Cipher

/-- A call on the packet. The operators `<<` and `>>` are `SetData` and `GetData` on the bytes of
their argument. -/
inductive Op
  | setData (src : List UInt8)
  | getData (size : ℕ)
  | moveReadPos (size : ℕ)
  /-- `SendPacket`, whether `EnterSession` let it in, and what `rand() % 256` gave. -/
  | sendPacket (entered : Bool) (k : UInt8)
  /-- A worker takes the packet from a `sendQ` and hands it over. -/
  | sendPost

/-- The packet, the bytes that have been written to it, and in how many queues it waits. -/
structure Life where
  pkt : Packet
  written : List UInt8
  queued : ℕ

def alloc (p : Packet) : Life := ⟨p.addRefCount, [], 0⟩

def step (l : Life) : Op → Option Life
  | .setData src => some ⟨(l.pkt.setData src).2, l.written ++ src.take (l.pkt.setData src).1, l.queued⟩
  | .getData n => some { l with pkt := (l.pkt.getData n).2 }
  | .moveReadPos n => some { l with pkt := (l.pkt.moveReadPos n).2 }
  | .sendPacket entered k =>
    if entered then (l.pkt.addRefCount.encode k).map fun p => ⟨p, l.written, l.queued + 1⟩ else some l
  | .sendPost => if 0 < l.queued then some { l with queued := l.queued - 1 } else none

def history (l : Life) : List Op → Option Life
  | [] => some l
  | x :: xs => (step l x).bind fun l' => history l' xs

/-- A receiver that is handed the packet's bytes gets what was written to the packet. -/
def Consistent (l : Life) : Prop :=
  (wire l.pkt).length = headerSize + (NetHeader.ofBytes (wire l.pkt)).len ∧
    ∀ q, Fresh q → decoded q (wire l.pkt) = some (true, l.written)

/-- Before `Encode` nothing is read from the packet, after it nothing is written to it. -/
def Careful (p : Packet) : Op → Prop
  | .setData src => p.isEncode = true → src = [] ∨ p.writePos = p.getBufferSize
  | .getData n | .moveReadPos n => p.isEncode = true ∨ n = 0 ∨ p.getPayloadSize = 0
  | .sendPacket _ _ | .sendPost => True

def CarefulRun (l : Life) : List Op → Prop
  | [] => True
  | x :: xs => Careful l.pkt x ∧ ∀ l', step l x = some l' → CarefulRun l' xs

instance : (p : Packet) → (x : Op) → Decidable (Careful p x)
  | _, .setData _ => inferInstanceAs (Decidable (_ → _))
  | _, .getData _ => inferInstanceAs (Decidable (_ ∨ _))
  | _, .moveReadPos _ => inferInstanceAs (Decidable (_ ∨ _))
  | _, .sendPacket _ _ => .isTrue trivial
  | _, .sendPost => .isTrue trivial

instance carefulRunDecidable : (l : Life) → (xs : List Op) → Decidable (CarefulRun l xs)
  | _, [] => .isTrue trivial
  | l, x :: xs =>
    match h : step l x with
    | none => decidable_of_iff (Careful l.pkt x)
        ⟨fun hx => ⟨hx, fun l' h' => absurd (h.symm.trans h') (Option.some_ne_none l').symm⟩, And.left⟩
    | some l₁ =>
      have := carefulRunDecidable l₁ xs
      decidable_of_iff (Careful l.pkt x ∧ CarefulRun l₁ xs)
        ⟨fun hx => ⟨hx.1, fun _ h' => Option.some.inj (h.symm.trans h') ▸ hx.2⟩,
          fun hx => ⟨hx.1, hx.2 l₁ h⟩⟩

/-- A packet that has not been encoded; `Q` says that all calls so far were careful. -/
structure Plain (l : Life) (Q : Prop) : Prop where
  plain : l.pkt.isEncode = false
  length : l.pkt.pBuffer.length = 1024
  read : 5 ≤ l.pkt.readPos ∧ l.pkt.readPos ≤ l.pkt.writePos
  write : l.pkt.writePos = 5 + l.written.length ∧ l.pkt.writePos ≤ 1024
  bytes : (l.pkt.pBuffer.drop 5).take l.written.length = l.written
  queued : l.queued = 0
  quiet : Q ↔ l.pkt.readPos = 5

/-- A packet that has been encoded as the frame of `xs`. -/
structure Coded (l : Life) (Q : Prop) (k : UInt8) (xs : List UInt8) : Prop where
  coded : l.pkt.isEncode = true
  length : l.pkt.pBuffer.length = 1024
  bytes : l.pkt.pBuffer.take (5 + xs.length) = frame k xs
  write : 5 + xs.length ≤ l.pkt.writePos ∧ l.pkt.writePos ≤ 1024
  quiet : Q ↔ l.pkt.writePos = 5 + xs.length
  all : Q → xs = l.written

def Inv (l : Life) (Q : Prop) : Prop := Plain l Q ∨ ∃ k xs, Coded l Q k xs

variable {l l' : Life} {Q : Prop} {p : Packet}

lemma inv_alloc (hp : Fresh p) : Inv (alloc p) True := by
  obtain ⟨hl, hw, hr, he⟩ := hp
  simp only [headerSize, defaultSize] at hl hw hr
  refine .inl ⟨he, hl, ?_, ?_, rfl, rfl, ?_⟩
  · simp only [alloc, addRefCount]
    omega
  · simp only [alloc, addRefCount, List.length_nil]
    omega
  · simp only [alloc, addRefCount, true_iff]
    exact hr

/-- `SetData` adds what there is room for behind the write position. -/
lemma setData_eq (src : List UInt8) :
    ∃ d, d = src.take (p.getBufferSize - p.writePos) ∧ p.setData src = (d.length, { p with
      pBuffer := p.pBuffer.take p.writePos ++ d ++ p.pBuffer.drop (p.writePos + d.length)
      writePos := p.writePos + d.length }) := ⟨_, rfl, rfl⟩

lemma inv_setData {src : List UInt8} (hi : Inv l Q) (h : step l (.setData src) = some l') :
    Inv l' (Q ∧ Careful l.pkt (.setData src)) := by
  obtain ⟨d, hd, he⟩ := setData_eq (p := l.pkt) src
  have hlen : d.length = min (l.pkt.getBufferSize - l.pkt.writePos) src.length := by
    rw [hd, List.length_take]
  have htake : src.take d.length = d := by
    rw [hlen, hd, ← List.take_eq_take_min]
  simp only [step, he, htake, Option.some.injEq] at h
  subst h
  rcases hi with ⟨h1, h2, h3, h4, h5, h6, h7⟩ | ⟨k, xs, h1, h2, h3, h4, h5, h6⟩
  · rw [getBufferSize, h2] at hlen
    refine .inl ⟨h1, ?_, ?_, ?_, ?_, h6, ?_⟩
    · simp only [List.length_append, List.length_take, List.length_drop]
      omega
    · dsimp only
      omega
    · simp only [List.length_append]
      omega
    · have hw : (l.pkt.pBuffer.take l.pkt.writePos).drop 5 = l.written := by
        rw [List.drop_take, h4.1, Nat.add_sub_cancel_left]
        exact h5
      have h5' : 5 ≤ (l.pkt.pBuffer.take l.pkt.writePos).length := by
        rw [List.length_take]
        omega
      dsimp only
      rw [List.append_assoc, List.drop_append_of_le_length h5', hw, ← List.append_assoc,
        List.take_left]
    · simp only [Careful, h1, Bool.false_eq_true, false_implies, and_true]
      exact h7
  · rw [getBufferSize, h2] at hlen
    refine .inr ⟨k, xs, h1, ?_, ?_, ?_, ?_, ?_⟩
    · simp only [List.length_append, List.length_take, List.length_drop]
      omega
    · rw [List.append_assoc, List.take_append_of_le_length (by rw [List.length_take]; omega),
        List.take_take, min_eq_left h4.1, h3]
    · dsimp only
      omega
    · simp only [Careful, h1, true_implies, getBufferSize, h2, h5]
      constructor
      · rintro ⟨h, rfl | hf⟩
        · simp only [List.length_nil] at hlen
          omega
        · omega
      · intro h
        have h0 : d.length = 0 := by omega
        refine ⟨by omega, ?_⟩
        rcases Nat.eq_zero_or_pos src.length with hs | hs
        · exact .inl (List.eq_nil_of_length_eq_zero hs)
        · exact .inr (by omega)
    · rintro ⟨hQ, hc⟩
      have hx := h6 hQ
      have h0 : d.length = 0 := by
        rcases hc h1 with rfl | hf
        · simpa using hlen
        · rw [getBufferSize, h2] at hf
          omega
      dsimp only
      rw [List.eq_nil_of_length_eq_zero h0, List.append_nil, hx]

/-- A read moves the read position only. -/
lemma inv_read {n : ℕ} (hi : Inv l Q)
    (h : l' = { l with pkt := { l.pkt with readPos := l.pkt.readPos + min n l.pkt.getPayloadSize } }) :
    Inv l' (Q ∧ (l.pkt.isEncode = true ∨ n = 0 ∨ l.pkt.getPayloadSize = 0)) := by
  subst h
  rcases hi with ⟨h1, h2, h3, h4, h5, h6, h7⟩ | ⟨k, xs, h1, h2, h3, h4, h5, h6⟩
  · refine .inl ⟨h1, h2, ?_, h4, h5, h6, ?_⟩
    · simp only [getPayloadSize]
      omega
    · simp only [h7, h1, getPayloadSize, Bool.false_eq_true, false_or]
      omega
  · refine .inr ⟨k, xs, h1, h2, h3, h4, ?_, ?_⟩
    · simpa only [h1, true_or, and_true] using h5
    · exact fun h => h6 h.1

lemma inv_sendPacket {k : UInt8} (hi : Inv l Q) (h : step l (.sendPacket true k) = some l') :
    Inv l' Q := by
  simp only [step, if_true] at h
  rcases hi with ⟨h1, h2, h3, h4, h5, h6, h7⟩ | ⟨k', xs, h1, h2, h3, h4, h5, h6⟩
  · obtain ⟨n, hn⟩ : ∃ n, l.pkt.getPayloadSize % 65536 = n := ⟨_, rfl⟩
    have hn' : n = l.pkt.writePos - l.pkt.readPos := by
      rw [getPayloadSize] at hn
      omega
    rw [encode_eq (p := l.pkt.addRefCount) k h1 hn (by simp only [addRefCount]; omega)] at h
    simp only [addRefCount, Option.map_some, Option.some.injEq] at h
    subst h
    have hx : ((l.pkt.pBuffer.drop 5).take n).length = n := by
      rw [List.length_take, List.length_drop]
      omega
    have hf := length_frame k ((l.pkt.pBuffer.drop 5).take n)
    rw [headerSize, hx] at hf
    refine .inr ⟨k, (l.pkt.pBuffer.drop 5).take n, rfl, ?_, ?_, ?_, ?_, ?_⟩
    · simp only [List.length_append, List.length_drop, hf]
      omega
    · rw [hx, List.take_append_of_le_length hf.ge, List.take_of_length_le hf.le]
    · rw [hx]
      dsimp only
      omega
    · rw [h7, hx]
      dsimp only
      omega
    · intro hQ
      have := h7.mp hQ
      rw [show n = l.written.length by omega]
      exact h5
  · simp only [encode, addRefCount, h1, if_true, Option.map_some, Option.some.injEq] at h
    subst h
    exact .inr ⟨k', xs, rfl, h2, h3, h4, h5, h6⟩

/-- **One call** keeps the invariant. -/
lemma step_inv {x : Op} (hi : Inv l Q) (h : step l x = some l') : Inv l' (Q ∧ Careful l.pkt x) := by
  cases x with
  | setData src => exact inv_setData hi h
  | getData n => exact inv_read hi (Option.some.inj h).symm
  | moveReadPos n => exact inv_read hi (Option.some.inj h).symm
  | sendPacket entered k =>
    simp only [Careful, and_true]
    cases entered with
    | true => exact inv_sendPacket hi h
    | false =>
      obtain rfl : l = l' := Option.some.inj h
      exact hi
  | sendPost =>
    simp only [Careful, and_true]
    simp only [step] at h
    split at h
    · obtain rfl := Option.some.inj h
      rcases hi with ⟨h1, h2, h3, h4, h5, h6, h7⟩ | ⟨k, xs, h1, h2, h3, h4, h5, h6⟩
      · exact .inl ⟨h1, h2, h3, h4, h5, by simp only [h6], h7⟩
      · exact .inr ⟨k, xs, h1, h2, h3, h4, h5, h6⟩
    · exact absurd h.symm (Option.some_ne_none l')

/-- Only `SendPost` has to wait, for a packet in its queue. -/
lemma step_total {x : Op} (hi : Inv l Q) (hx : x = .sendPost → 0 < l.queued) :
    ∃ l', step l x = some l' := by
  cases x with
  | setData src => exact ⟨_, rfl⟩
  | getData n => exact ⟨_, rfl⟩
  | moveReadPos n => exact ⟨_, rfl⟩
  | sendPost => exact ⟨_, if_pos (hx rfl)⟩
  | sendPacket entered k =>
    cases entered with
    | false => exact ⟨_, rfl⟩
    | true =>
      rcases hi with ⟨h1, h2, h3, h4, -, -, -⟩ | ⟨k', xs, h1, -⟩
      · have := encode_eq (p := l.pkt.addRefCount) k h1 rfl
          (by simp only [addRefCount, getPayloadSize]; omega)
        exact ⟨_, by rw [step, if_pos rfl, this]; rfl⟩
      · exact ⟨⟨l.pkt.addRefCount, l.written, l.queued + 1⟩, by simp [step, encode, addRefCount, h1]⟩

lemma history_inv {xs : List Op} (hi : Inv l Q) (h : history l xs = some l') :
    Inv l' (Q ∧ CarefulRun l xs) := by
  induction xs generalizing l Q with
  | nil =>
    obtain rfl := Option.some.inj h
    simpa only [CarefulRun, and_true] using hi
  | cons x xs ih =>
    simp only [history, Option.bind_eq_some_iff] at h
    obtain ⟨l₁, h1, h2⟩ := h
    have := ih (step_inv hi h1) h2
    simp only [CarefulRun, h1, Option.some.injEq, forall_eq']
    rwa [and_assoc] at this

/-- A packet that waits in a queue is consistent if all calls so far were careful, and not
otherwise. -/
lemma consistent_iff (hi : Inv l Q) (hq : 0 < l.queued) : Consistent l ↔ Q := by
  rcases hi with ⟨h1, h2, h3, h4, h5, h6, h7⟩ | ⟨k, xs, h1, h2, h3, h4, h5, h6⟩
  · omega
  have hx : xs.length < 65536 := by omega
  have hf := length_frame k xs
  rw [headerSize] at hf
  obtain ⟨c, hc⟩ := ofBytes_frame (k := k) hx
  have hw : wire l.pkt = frame k xs ++ (l.pkt.pBuffer.take l.pkt.writePos).drop (5 + xs.length) := by
    have ht : (l.pkt.pBuffer.take l.pkt.writePos).take (5 + xs.length) = frame k xs := by
      rw [List.take_take, min_eq_left h4.1, h3]
    rw [← ht, List.take_append_drop, wire, getTotalSize]
  have hhead : (NetHeader.ofBytes (wire l.pkt)).len = xs.length := by
    rw [hw, ofBytes_append (by rw [hf, headerSize]; omega), hc]
  have hlen : (wire l.pkt).length = l.pkt.writePos := by
    rw [wire, getTotalSize, List.length_take]
    omega
  rw [Consistent, hhead, hlen, headerSize, h5]
  constructor
  · exact fun h => h.1
  · intro hp
    refine ⟨hp, fun q hq => ?_⟩
    have hall : wire l.pkt = frame k xs := by
      rw [hw, List.drop_of_length_le (by rw [List.length_take]; omega), List.append_nil]
    have hfit : xs.length ≤ 1019 := by omega
    have hff := frame_isFrame (k := k) hfit
    rw [hall, decoded_eq hq hff.whole hff.fits, payload_frame hx, decide_eq_true (agrees_frame hx),
      h6 (h5.mpr hp)]

/-- **Wire frames.** When a worker hands a packet over, the receiver gets what was written to it
exactly if nothing was read from it before it was first sent and nothing written to it since. -/
theorem wire_consistent (hp : Fresh p) {xs : List Op} (h : history (alloc p) xs = some l)
    (hq : 0 < l.queued) : Consistent l ↔ CarefulRun (alloc p) xs := by
  rw [consistent_iff (history_inv (inv_alloc hp) h) hq, true_and]

/-- A packet of two bytes is sent to two sessions and read in between. -/
def sentTwice : List Op :=
  [.setData [1, 2], .sendPacket true 7, .getData 1, .sendPacket true 9, .sendPost]

theorem wire_consistent_two : ∃ l, history (alloc blank) sentTwice = some l ∧ 0 < l.queued ∧
    Consistent l := by
  have h : (history (alloc blank) sentTwice).map (·.queued) = some 1 := by decide +kernel
  obtain ⟨l, hl, hq⟩ := Option.map_eq_some_iff.mp h
  have hq' : 0 < l.queued := by omega
  exact ⟨l, hl, hq', (wire_consistent blank_fresh hl hq').mpr (by decide +kernel)⟩

/-- One of two bytes is read before the packet is sent: the header counts one, two are sent. -/
theorem wire_inconsistent : ∃ l,
    history (alloc blank) [.setData [1, 2], .getData 1, .sendPacket true 7] = some l ∧
      0 < l.queued ∧ (wire l.pkt).length = 7 ∧ (NetHeader.ofBytes (wire l.pkt)).len = 1 ∧
      ¬ Consistent l := by
  have h : (history (alloc blank) [.setData [1, 2], .getData 1, .sendPacket true 7]).map
      (fun l => (l.queued, (wire l.pkt).length, (NetHeader.ofBytes (wire l.pkt)).len)) =
      some (1, 7, 1) := by decide +kernel
  obtain ⟨l, hl, hq⟩ := Option.map_eq_some_iff.mp h
  simp only [Prod.mk.injEq] at hq
  obtain ⟨h1, h2, h3⟩ := hq
  refine ⟨l, hl, by omega, h2, h3, fun hc => ?_⟩
  have := hc.1
  rw [h2, h3, headerSize] at this
  omega

end LoginServerChat.PacketHistory
