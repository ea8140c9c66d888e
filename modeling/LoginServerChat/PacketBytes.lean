import LoginServerChat.Cipher

/-!
The packet as a buffer of bytes: `SetData` and `MoveWritePos` put bytes in, `GetData` and
`MoveReadPos` take them out, in any order and of any size, until `Clear` starts again.
-/

namespace LoginServerChat.PacketBytes

open NetPacket Packet

inductive Call
  | setData (src : List UInt8)
  | getData (size : ℕ)
  | moveWritePos (size : ℕ)
  | moveReadPos (size : ℕ)
  | clear

/-- What a call returns. -/
def returned (p : Packet) : Call → ℕ
  | .setData src => (p.setData src).1
  | .getData n => (p.getData n).1.length
  | .moveWritePos n => (p.moveWritePos n).1
  | .moveReadPos n => (p.moveReadPos n).1
  | .clear => 0

/-- The packet after a call. -/
def after (p : Packet) : Call → Packet
  | .setData src => (p.setData src).2
  | .getData n => (p.getData n).2
  | .moveWritePos n => (p.moveWritePos n).2
  | .moveReadPos n => (p.moveReadPos n).2
  | .clear => p.clear

/-- The bytes that a call accepts, or that it exposes. -/
def accepted (p : Packet) (x : Call) : List UInt8 :=
  match x with
  | .setData src => src.take (returned p x)
  | .moveWritePos _ => (p.pBuffer.drop p.writePos).take (returned p x)
  | .getData _ | .moveReadPos _ | .clear => []

/-- The bytes that a call hands out, or that it skips. -/
def consumed (p : Packet) (x : Call) : List UInt8 :=
  match x with
  | .getData n => (p.getData n).1
  | .moveReadPos _ => (p.pBuffer.drop p.readPos).take (returned p x)
  | .setData _ | .moveWritePos _ | .clear => []

/-- A packet, with what has gone in and what has come out since the last `Clear`. -/
structure Life where
  pkt : Packet
  entered : List UInt8
  left : List UInt8

def step (l : Life) (x : Call) : Life :=
  match x with
  | .clear => ⟨l.pkt.clear, [], []⟩
  | x => ⟨after l.pkt x, l.entered ++ accepted l.pkt x, l.left ++ consumed l.pkt x⟩

/-- The life of a packet whose buffer is the memory `mem`. -/
def life (mem : List UInt8) (xs : List Call) : Life := xs.foldl step ⟨construct mem, [], []⟩

/-- What holds of the packet at all times. -/
structure Lawful (mem : List UInt8) (l : Life) : Prop where
  positions : 5 ≤ l.pkt.readPos ∧ l.pkt.readPos ≤ l.pkt.writePos ∧ l.pkt.writePos ≤ 1024
  order : l.left <+: l.entered
  header : l.pkt.pBuffer.take 5 = mem.take 5

/-- What a call returns is how far it moved its position, and that is as far as there is room or
payload; the other position stays. -/
def Exact (p : Packet) (x : Call) : Prop :=
  let q := after p x
  let n := returned p x
  match x with
  | .setData src => n = min src.length (1024 - p.writePos) ∧ q.writePos = p.writePos + n ∧
      q.readPos = p.readPos
  | .moveWritePos size => n = min size (1024 - p.writePos) ∧ q.writePos = p.writePos + n ∧
      q.readPos = p.readPos
  | .getData size | .moveReadPos size => n = min size p.getPayloadSize ∧
      q.readPos = p.readPos + n ∧ q.writePos = p.writePos
  | .clear => n = 0 ∧ q.writePos = 5 ∧ q.readPos = 5

/-- The buffer behind the header, up to the two positions, is what went in and what came out. -/
structure Inv (mem : List UInt8) (l : Life) : Prop where
  length : l.pkt.pBuffer.length = 1024
  positions : 5 ≤ l.pkt.readPos ∧ l.pkt.readPos ≤ l.pkt.writePos ∧ l.pkt.writePos ≤ 1024
  header : l.pkt.pBuffer.take 5 = mem.take 5
  entered : (l.pkt.pBuffer.take l.pkt.writePos).drop 5 = l.entered
  left : (l.pkt.pBuffer.take l.pkt.readPos).drop 5 = l.left

variable {mem : List UInt8} {l : Life} {p : Packet} {n : ℕ} {x : Call}

/-- Moving a position over `n` bytes adds them to what lies before it. -/
lemma take_add_drop {b : List UInt8} {i : ℕ} (hi : 5 ≤ i) (hb : i ≤ b.length) :
    (b.take (i + n)).drop 5 = (b.take i).drop 5 ++ (b.drop i).take n := by
  have hlen : 5 ≤ (b.take i).length := by
    rw [List.length_take]
    omega
  rw [List.take_add, List.drop_append_of_le_length hlen]

/-- What `SetData` writes lies behind the write position. -/
lemma setData_buffer (hl : p.pBuffer.length = 1024) (src : List UInt8) :
    ∃ d, d = src.take (returned p (.setData src)) ∧
      d.length = min src.length (1024 - p.writePos) ∧
      (after p (.setData src)).pBuffer =
        p.pBuffer.take p.writePos ++ (d ++ p.pBuffer.drop (p.writePos + d.length)) ∧
      (after p (.setData src)).writePos = p.writePos + d.length ∧
      (after p (.setData src)).readPos = p.readPos := by
  have hlen : (src.take (1024 - p.writePos)).length = min src.length (1024 - p.writePos) := by
    rw [List.length_take, min_comm]
  refine ⟨src.take (1024 - p.writePos), ?_, hlen, ?_⟩
  · unfold returned setData
    dsimp only
    rw [getBufferSize, hl, List.length_take, ← List.take_eq_take_min]
  · unfold after setData
    dsimp only
    rw [getBufferSize, hl, List.append_assoc]
    exact ⟨rfl, rfl, rfl⟩

lemma returned_getData (hl : p.pBuffer.length = 1024) (hw : p.writePos ≤ 1024) :
    returned p (.getData n) = min n p.getPayloadSize := by
  unfold returned getData
  dsimp only
  rw [List.length_take, List.length_drop, getPayloadSize]
  omega

lemma inv_setData (h : Inv mem l) (src : List UInt8) : Inv mem (step l (.setData src)) := by
  obtain ⟨h1, h2, h3, h4, h5⟩ := h
  obtain ⟨d, hd, hn, hb, hw, hr⟩ := setData_buffer h1 src
  have hlen : (l.pkt.pBuffer.take l.pkt.writePos).length = l.pkt.writePos := by
    rw [List.length_take]
    omega
  refine ⟨?_, ?_, ?_, ?_, ?_⟩ <;> dsimp only [step]
  · rw [hb, List.length_append, List.length_append, List.length_drop, hlen]
    omega
  · rw [hw, hr]
    omega
  · rw [hb, List.take_append_of_le_length (by omega), List.take_take, min_eq_left (by omega), h3]
  · have htake : (l.pkt.pBuffer.take l.pkt.writePos ++
        (d ++ l.pkt.pBuffer.drop (l.pkt.writePos + d.length))).take (l.pkt.writePos + d.length) =
        l.pkt.pBuffer.take l.pkt.writePos ++ d := by
      rw [← List.append_assoc]
      exact List.take_left' (by rw [List.length_append, hlen])
    rw [hb, hw, htake, List.drop_append_of_le_length (by omega), h4, hd]
    rfl
  · rw [hb, hr, List.take_append_of_le_length (by omega), List.take_take, min_eq_left (by omega), h5]
    exact (List.append_nil _).symm

lemma inv_write (h : Inv mem l) (size : ℕ) : Inv mem (step l (.moveWritePos size)) := by
  obtain ⟨h1, h2, h3, h4, h5⟩ := h
  have hn : returned l.pkt (.moveWritePos size) = min size (1024 - l.pkt.writePos) := by
    unfold returned moveWritePos
    dsimp only
    rw [getBufferSize, getTotalSize, h1]
  have hw : (after l.pkt (.moveWritePos size)).writePos =
      l.pkt.writePos + returned l.pkt (.moveWritePos size) := rfl
  have hr : (after l.pkt (.moveWritePos size)).readPos = l.pkt.readPos := rfl
  refine ⟨h1, ?_, h3, ?_, ?_⟩ <;> dsimp only [step]
  · rw [hw, hr, hn]
    omega
  · rw [hw, ← h4]
    exact take_add_drop (b := l.pkt.pBuffer) (by omega) (by omega)
  · exact h5.trans (List.append_nil _).symm

lemma inv_read (h : Inv mem l) (hx : (∃ size, x = .getData size) ∨ ∃ size, x = .moveReadPos size) :
    Inv mem (step l x) := by
  obtain ⟨h1, h2, h3, h4, h5⟩ := h
  -- both calls take out the same bytes and move the read position over them
  obtain ⟨n, hn, hp, hc, ha⟩ : ∃ n, n ≤ l.pkt.writePos - l.pkt.readPos ∧
      after l.pkt x = { l.pkt with readPos := l.pkt.readPos + n } ∧
      consumed l.pkt x = (l.pkt.pBuffer.drop l.pkt.readPos).take n ∧
      step l x = ⟨after l.pkt x, l.entered ++ [], l.left ++ consumed l.pkt x⟩ := by
    rcases hx with ⟨size, rfl⟩ | ⟨size, rfl⟩
    · exact ⟨_, min_le_right size _, rfl, rfl, rfl⟩
    · exact ⟨_, min_le_right size _, rfl, rfl, rfl⟩
  rw [ha, hp, hc, List.append_nil]
  refine ⟨h1, ?_, h3, h4, ?_⟩ <;> dsimp only
  · omega
  · rw [← h5]
    exact take_add_drop h2.1 (by omega)

lemma inv_clear (h : Inv mem l) : Inv mem (step l .clear) := by
  have h5 : (l.pkt.pBuffer.take 5).drop 5 = [] := by
    rw [List.drop_eq_nil_iff, List.length_take]
    exact min_le_left _ _
  refine ⟨h.length, ⟨le_refl _, le_refl _, ?_⟩, h.header, h5, h5⟩
  change 5 ≤ 1024
  omega

/-- **One call** keeps the invariant. -/
lemma step_inv (h : Inv mem l) (x : Call) : Inv mem (step l x) := by
  cases x with
  | setData src => exact inv_setData h src
  | getData n => exact inv_read h (.inl ⟨n, rfl⟩)
  | moveWritePos n => exact inv_write h n
  | moveReadPos n => exact inv_read h (.inr ⟨n, rfl⟩)
  | clear => exact inv_clear h

lemma life_inv (hm : mem.length = 1024) (xs : List Call) : Inv mem (life mem xs) := by
  induction xs using List.reverseRecOn with
  | nil =>
    have h5 : (mem.take 5).drop 5 = [] := by
      rw [List.drop_eq_nil_iff, List.length_take]
      exact min_le_left _ _
    refine ⟨hm, ⟨le_refl _, le_refl _, ?_⟩, rfl, h5, h5⟩
    change 5 ≤ 1024
    omega
  | append_singleton xs x ih =>
    unfold life at ih ⊢
    rw [List.foldl_append]
    exact step_inv ih x

lemma Inv.lawful (h : Inv mem l) : Lawful mem l := by
  refine ⟨h.positions, ?_, h.header⟩
  rw [← h.left, ← h.entered]
  exact (List.take_prefix_take_left h.positions.2.1).drop 5

lemma Inv.exact (h : Inv mem l) (x : Call) : Exact l.pkt x := by
  have h1 := h.length
  have h2 := h.positions
  unfold Exact
  cases x with
  | setData src =>
    obtain ⟨d, hd, hn, -, hw, hr⟩ := setData_buffer h1 src
    have hret : returned l.pkt (.setData src) = d.length := by
      rw [hn]
      unfold returned setData
      dsimp only
      rw [getBufferSize, h1, List.length_take, min_comm]
    dsimp only
    rw [hret]
    exact ⟨hn, hw, hr⟩
  | getData n =>
    dsimp only
    rw [returned_getData h1 h2.2.2]
    exact ⟨rfl, rfl, rfl⟩
  | moveWritePos n =>
    refine ⟨?_, rfl, rfl⟩
    unfold returned moveWritePos
    dsimp only
    rw [getBufferSize, getTotalSize, h1]
  | moveReadPos n => exact ⟨rfl, rfl, rfl⟩
  | clear => exact ⟨rfl, rfl, rfl⟩

/-- **The packet is a buffer.** After any calls on a packet of the default size its positions are in
order and the header is as it was; what has come out since the last `Clear` is the start of what has
gone in; and the next call moves its position by what it returns. -/
theorem packet_bytes (hm : mem.length = 1024) (xs : List Call) :
    Lawful mem (life mem xs) ∧ ∀ x, Exact (life mem xs).pkt x :=
  ⟨(life_inv hm xs).lawful, (life_inv hm xs).exact⟩

/-- A packet that is filled and read across a `Clear`, with calls that ask for too much. -/
theorem packet_bytes_short :
    let l := life (List.replicate 1024 9)
      [.setData [1, 2], .clear, .setData [3, 4], .getData 1, .moveWritePos 2, .moveReadPos 7]
    Lawful (List.replicate 1024 9) l ∧ Exact l.pkt (.getData 1) :=
  ⟨(packet_bytes List.length_replicate _).1, (packet_bytes List.length_replicate _).2 _⟩

end LoginServerChat.PacketBytes
