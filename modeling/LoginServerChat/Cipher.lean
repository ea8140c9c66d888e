import LoginServerChat.NetPacket
import LoginServerChat.Transducer

/-!
What `Encode` and `Decode` do to a frame as a whole. Both run over the checksum byte and the
payload behind it and carry the byte with one key on it and the byte with both, so that each
round of one undoes the round of the other.
-/

namespace LoginServerChat.Cipher

open NetPacket Packet Transducer

/-- The loop variable, the byte under the random key, and the byte under both keys. -/
structure Carry where
  i : ℕ
  rk : UInt8
  pk : UInt8

def encodeRound (k : UInt8) (s : Carry) (x : UInt8) : UInt8 × Carry :=
  let rk := x ^^^ (s.rk + k + UInt8.ofNat (s.i + 1))
  let pk := rk ^^^ (s.pk + packetKey + UInt8.ofNat (s.i + 1))
  (pk, ⟨s.i + 1, rk, pk⟩)

def decodeRound (k : UInt8) (s : Carry) (x : UInt8) : UInt8 × Carry :=
  let tmp := x ^^^ (s.pk + packetKey + UInt8.ofNat (s.i + 1))
  (tmp ^^^ (s.rk + k + UInt8.ofNat (s.i + 1)), ⟨s.i + 1, tmp, x⟩)

def encipher (k : UInt8) : List UInt8 → List UInt8 := transduce (encodeRound k) ⟨0, 0, 0⟩
def decipher (k : UInt8) : List UInt8 → List UInt8 := transduce (decodeRound k) ⟨0, 0, 0⟩

lemma decode_encodeRound (k : UInt8) (s : Carry) (x : UInt8) :
    decodeRound k s (encodeRound k s x).1 = (x, (encodeRound k s x).2) := by
  simp [decodeRound, encodeRound, UInt8.xor_assoc]

lemma encode_decodeRound (k : UInt8) (s : Carry) (x : UInt8) :
    encodeRound k s (decodeRound k s x).1 = (x, (decodeRound k s x).2) := by
  simp [decodeRound, encodeRound, UInt8.xor_assoc]

lemma decipher_encipher (k : UInt8) (xs : List UInt8) : decipher k (encipher k xs) = xs :=
  transduce_transduce (decode_encodeRound k) _ _

lemma encipher_decipher (k : UInt8) (xs : List UInt8) : encipher k (decipher k xs) = xs :=
  transduce_transduce (encode_decodeRound k) _ _

@[simp] lemma length_encipher (k : UInt8) (xs : List UInt8) : (encipher k xs).length = xs.length :=
  length_transduce ..

@[simp] lemma length_decipher (k : UInt8) (xs : List UInt8) : (decipher k xs).length = xs.length :=
  length_transduce ..

lemma encodeFrom_loop (k : UInt8) : IsLoop (encodeRound k) (fun s => headerSize - 1 + s.i)
    fun n s b => encodeFrom k n s.i s.rk s.pk b where
  zero _ _ := rfl
  succ _ _ _ := rfl
  next _ _ := rfl

lemma decodeFrom_loop (k : UInt8) : IsLoop (decodeRound k) (fun s => headerSize - 1 + s.i)
    fun n s b => decodeFrom k n s.i s.rk s.pk b where
  zero _ _ := rfl
  succ _ _ _ := rfl
  next _ _ := rfl

/-! ### The checksum -/

def signedSum (xs : List UInt8) : ℤ := (xs.map fun x => x.toInt8.toInt).sum

lemma sumFrom_eq {b : List UInt8} {n i : ℕ} (s : ℤ) (h : headerSize + i + n ≤ b.length) :
    sumFrom b n i s = some (s + signedSum ((b.drop (headerSize + i)).take n)) := by
  induction n generalizing i s with
  | zero => simp [sumFrom, signedSum]
  | succ n ih =>
    have hi : headerSize + i < b.length := by omega
    rw [sumFrom, List.getElem?_eq_getElem hi, Option.bind_some, ih _ (by omega),
      List.drop_eq_getElem_cons hi, List.take_succ_cons]
    simp only [signedSum, List.map_cons, List.sum_cons, Option.some.injEq]
    rw [show headerSize + (i + 1) = headerSize + i + 1 by omega]
    ring

/-! ### Frames -/

/-- The frame of a payload: the header, whose checksum is enciphered with the payload. -/
def frame (k : UInt8) (xs : List UInt8) : List UInt8 :=
  [packetCode, UInt8.ofNat xs.length, UInt8.ofNat (xs.length / 256), k] ++
    encipher k (chkByte (signedSum xs) :: xs)

lemma length_frame (k : UInt8) (xs : List UInt8) : (frame k xs).length = headerSize + xs.length := by
  simp [frame, headerSize]
  omega

/-- The checksum and the payload of a frame. -/
def opened (g : List UInt8) : List UInt8 := decipher (NetHeader.ofBytes g).randKey (g.drop 4)
def payload (g : List UInt8) : List UInt8 := (opened g).tail

def Agrees (g : List UInt8) : Prop := (opened g).headD 0 = chkByte (signedSum (payload g))

instance (g : List UInt8) : Decidable (Agrees g) := inferInstanceAs (Decidable (_ = _))

/-- `g` is as long as its header says. -/
def Whole (g : List UInt8) : Prop := g.length = headerSize + (NetHeader.ofBytes g).len

lemma ofBytes_append {g : List UInt8} (h : headerSize ≤ g.length) (rest : List UInt8) :
    NetHeader.ofBytes (g ++ rest) = NetHeader.ofBytes g := by
  match g, h with
  | _ :: _ :: _ :: _ :: _ :: _, _ => rfl

/-- Of the header of a deciphered frame only the checksum is new. -/
lemma ofBytes_opened {g c : List UInt8} (h : headerSize ≤ g.length) (hc : c ≠ []) (rest : List UInt8) :
    NetHeader.ofBytes (g.take 4 ++ c ++ rest) =
      { NetHeader.ofBytes g with chkSum := c.headD 0 } := by
  unfold headerSize at h
  obtain ⟨x, xs, rfl⟩ := List.exists_cons_of_ne_nil hc
  obtain ⟨a0, a1, a2, a3, t, rfl⟩ : ∃ a0 a1 a2 a3 t, g = a0 :: a1 :: a2 :: a3 :: t := by
    match g, h with
    | a0 :: a1 :: a2 :: a3 :: t, _ => exact ⟨a0, a1, a2, a3, t, rfl⟩
  rfl

lemma Whole.length_eq {g : List UInt8} (h : Whole g) : g.length = (NetHeader.ofBytes g).len + 5 := by
  rw [h, headerSize]
  omega

lemma length_opened {g : List UInt8} (h : Whole g) :
    (opened g).length = (NetHeader.ofBytes g).len + 1 := by
  have := h.length_eq
  rw [opened, length_decipher, List.length_drop]
  omega

lemma length_payload {g : List UInt8} (h : Whole g) :
    (payload g).length = (NetHeader.ofBytes g).len := by
  rw [payload, List.length_tail, length_opened h]
  omega

/-- The loop of `Decode` over a packet that begins with the frame `g`. -/
lemma decodeFrom_eq {g : List UInt8} (hg : Whole g) (rest : List UInt8) :
    decodeFrom (NetHeader.ofBytes g).randKey ((NetHeader.ofBytes g).len + 1) 0 0 0 (g ++ rest) =
      some (g.take 4 ++ opened g ++ rest) := by
  have h5 := hg.length_eq
  have hl := (decodeFrom_loop (NetHeader.ofBytes g).randKey).eq_some (s := ⟨0, 0, 0⟩)
    (n := (NetHeader.ofBytes g).len + 1) (b := g ++ rest)
    (by simp only [List.length_append, headerSize]; omega)
  simp only [headerSize, Nat.add_zero, Nat.add_one_sub_one] at hl
  have htake : ((g ++ rest).drop 4).take ((NetHeader.ofBytes g).len + 1) = g.drop 4 := by
    rw [List.drop_append_of_le_length (by omega), List.take_append_of_le_length
      (by rw [List.length_drop]; omega), List.take_of_length_le (by rw [List.length_drop]; omega)]
  have hdrop : (g ++ rest).drop (4 + ((NetHeader.ofBytes g).len + 1)) = rest := by
    rw [show 4 + ((NetHeader.ofBytes g).len + 1) = g.length by omega, List.drop_left]
  rw [hl, htake, hdrop, List.take_append_of_le_length (by omega)]
  rfl

/-- The payload of a deciphered frame, as `GetPayloadPtr` finds it. -/
lemma payload_eq {g : List UInt8} (hg : Whole g) (rest : List UInt8) :
    ((g.take 4 ++ opened g ++ rest).drop 5).take (NetHeader.ofBytes g).len = payload g := by
  have h5 := hg.length_eq
  have hlen := length_opened hg
  have h4 : (g.take 4).length = 4 := by
    rw [List.length_take]
    omega
  rw [List.append_assoc, List.drop_append, List.drop_of_length_le (by rw [h4]; decide), h4,
    List.nil_append, List.drop_append_of_le_length (by omega),
    List.take_append_of_le_length (by rw [List.length_drop]; omega),
    List.take_of_length_le (by rw [List.length_drop]; omega), payload, List.drop_one]

/-- **`Decode`** on a packet that begins with the frame `g`. -/
lemma decode_eq {p : Packet} {g rest : List UInt8} (hb : p.pBuffer = g ++ rest) (hg : Whole g) :
    p.decode = some (decide (Agrees g), { p with pBuffer := g.take 4 ++ opened g ++ rest }) := by
  have h5 := hg.length_eq
  have hlen := length_opened hg
  have hne : opened g ≠ [] := List.ne_nil_of_length_pos (by omega)
  have hh : headerSize ≤ g.length := by
    rw [headerSize]
    omega
  have hhead := ofBytes_opened hh hne rest
  have hsum : sumFrom (g.take 4 ++ opened g ++ rest) (NetHeader.ofBytes g).len 0 0 =
      some (signedSum (payload g)) := by
    rw [sumFrom_eq, zero_add]
    · exact congrArg (fun x => some (signedSum x)) (payload_eq hg rest)
    · simp only [List.length_append, List.length_take, hlen, headerSize]
      omega
  simp only [decode, hb, ofBytes_append hh, decodeFrom_eq hg, hhead, hsum, Option.bind_some,
    Option.map_some]
  rfl

/-- **`Encode`** on a packet whose first `n` payload bytes are counted by its header. -/
lemma encode_eq {p : Packet} (k : UInt8) {n : ℕ} (he : p.isEncode = false)
    (hn : p.getPayloadSize % 65536 = n) (hb : 5 + n ≤ p.pBuffer.length) :
    p.encode k = some { p with
      pBuffer := frame k ((p.pBuffer.drop 5).take n) ++ p.pBuffer.drop (5 + n)
      isEncode := true } := by
  obtain ⟨xs, hxs⟩ : ∃ xs, (p.pBuffer.drop 5).take n = xs := ⟨_, rfl⟩
  have hlen : xs.length = n := by
    rw [← hxs, List.length_take, List.length_drop]
    omega
  have hsum : sumFrom p.pBuffer n 0 0 = some (signedSum xs) := by
    rw [sumFrom_eq _ (by simpa only [headerSize] using hb), zero_add, ← hxs]
    rfl
  have hpoke : poke p.pBuffer 0 (NetHeader.toBytes ⟨packetCode, n, k, chkByte (signedSum xs)⟩) =
      some ([packetCode, UInt8.ofNat n, UInt8.ofNat (n / 256), k] ++
        (chkByte (signedSum xs) :: p.pBuffer.drop 5)) := by
    have h5 : 0 + (NetHeader.toBytes ⟨packetCode, n, k, chkByte (signedSum xs)⟩).length = 5 := rfl
    rw [poke, if_pos (by omega), h5]
    rfl
  have hl := (encodeFrom_loop k).eq_some (s := ⟨0, 0, 0⟩) (n := n + 1)
    (b := [packetCode, UInt8.ofNat n, UInt8.ofNat (n / 256), k] ++
      (chkByte (signedSum xs) :: p.pBuffer.drop 5))
    (by simp only [List.length_append, List.length_cons, List.length_nil, List.length_drop, headerSize]
        omega)
  have hframe : [packetCode, UInt8.ofNat n, UInt8.ofNat (n / 256), k] ++
      encipher k (chkByte (signedSum xs) :: xs) = frame k xs := by rw [frame, hlen]
  have hrest : ([packetCode, UInt8.ofNat n, UInt8.ofNat (n / 256), k] ++
      (chkByte (signedSum xs) :: p.pBuffer.drop 5)).drop (4 + (n + 1)) = p.pBuffer.drop (5 + n) := by
    rw [show 4 + (n + 1) = n + 1 + 4 by omega]
    simp only [List.cons_append, List.nil_append, List.drop_succ_cons, List.drop_drop]
  simp only [headerSize, Nat.add_zero, Nat.add_one_sub_one, hrest] at hl
  simp only [encode, he, Bool.false_eq_true, if_false, hn, hsum, hpoke, hl, hxs, Option.bind_some,
    Option.map_some, ← hframe]
  simp only [List.take_succ_cons, List.take_zero, List.drop_succ_cons, List.drop_zero,
    List.cons_append, List.nil_append, hxs, encipher]

/-! ### Encoding and decoding undo one another -/

/-- A frame with the server's code whose payload fits a packet. -/
structure IsFrame (g : List UInt8) : Prop where
  whole : Whole g
  code : (NetHeader.ofBytes g).code = packetCode
  fits : (NetHeader.ofBytes g).len ≤ 1019

variable {k : UInt8} {xs : List UInt8}

lemma ofBytes_frame (h : xs.length < 65536) :
    ∃ c, NetHeader.ofBytes (frame k xs) = ⟨packetCode, xs.length, k, c⟩ := by
  refine ⟨(frame k xs).getD 4 0, ?_⟩
  have hlen : (UInt8.ofNat xs.length).toNat + 256 * (UInt8.ofNat (xs.length / 256)).toNat =
      xs.length := by
    simp only [UInt8.toNat_ofNat']
    omega
  exact congrArg (NetHeader.mk packetCode · k _) hlen

lemma frame_whole (h : xs.length < 65536) : Whole (frame k xs) := by
  obtain ⟨c, hc⟩ := ofBytes_frame (k := k) h
  rw [Whole, length_frame, hc]

lemma frame_isFrame (h : xs.length ≤ 1019) : IsFrame (frame k xs) := by
  have hlt : xs.length < 65536 := by omega
  obtain ⟨c, hc⟩ := ofBytes_frame (k := k) hlt
  exact ⟨frame_whole hlt, by rw [hc], by rw [hc]; exact h⟩

lemma opened_frame (h : xs.length < 65536) :
    opened (frame k xs) = chkByte (signedSum xs) :: xs := by
  obtain ⟨c, hc⟩ := ofBytes_frame (k := k) h
  rw [opened, hc]
  exact decipher_encipher k _

lemma payload_frame (h : xs.length < 65536) : payload (frame k xs) = xs := by
  rw [payload, opened_frame h, List.tail_cons]

lemma agrees_frame (h : xs.length < 65536) : Agrees (frame k xs) := by
  rw [Agrees, payload_frame h, opened_frame h, List.headD_cons]

/-- A frame that `Decode` accepts is the frame of its payload. -/
lemma frame_payload {g : List UInt8} (hg : Whole g) (hc : (NetHeader.ofBytes g).code = packetCode)
    (ha : Agrees g) : frame (NetHeader.ofBytes g).randKey (payload g) = g := by
  have hlen := length_opened hg
  have hcons : chkByte (signedSum (payload g)) :: payload g = opened g := by
    rw [← ha, payload]
    exact List.cons_head?_tail (by
      cases hq : opened g with
      | nil => simp [hq] at hlen
      | cons x t => rfl)
  have h5 := hg.length_eq
  rw [frame, length_payload hg, hcons, opened, encipher_decipher]
  match g, h5 with
  | a :: lo :: hi :: r :: t, _ =>
    have hlo := lo.toNat_lt
    have hhi := hi.toNat_lt
    have e1 : UInt8.ofNat (lo.toNat + 256 * hi.toNat) = lo := by
      rw [← UInt8.toNat_inj, UInt8.toNat_ofNat']
      omega
    have e2 : UInt8.ofNat ((lo.toNat + 256 * hi.toNat) / 256) = hi := by
      rw [← UInt8.toNat_inj, UInt8.toNat_ofNat']
      omega
    have hc' : a = packetCode := hc
    simp [NetHeader.ofBytes, e1, e2, hc']

/-! ### On packets -/

/-- A packet as `Alloc` gives it out. -/
structure Fresh (p : Packet) : Prop where
  length : p.pBuffer.length = defaultSize
  write : p.writePos = headerSize
  read : p.readPos = headerSize
  plain : p.isEncode = false

/-- `GetTotalSize` bytes from `GetBufferPtr` on. -/
def wire (p : Packet) : List UInt8 := p.pBuffer.take p.getTotalSize

/-- The bytes between the read and the write position. -/
def held (p : Packet) : List UInt8 := (p.pBuffer.drop p.readPos).take p.getPayloadSize

/-- The frame that `Encode` makes of the packet `p` with `xs` written to it. -/
def encoded (k : UInt8) (p : Packet) (xs : List UInt8) : Option (List UInt8) :=
  ((p.setData xs).2.encode k).map wire

/-- A frame is moved into a packet, as the worker does with a received one. -/
def moveIn (p : Packet) (g : List UInt8) : Option Packet :=
  (poke p.pBuffer 0 g).map fun b =>
    (moveWritePos { p with pBuffer := b } (NetHeader.ofBytes g).len).2

/-- What `Decode` says of a frame in the packet `p`, and what the packet then holds. -/
def decoded (p : Packet) (g : List UInt8) : Option (Bool × List UInt8) :=
  (moveIn p g).bind fun q => q.decode.map fun r => (r.1, held r.2)

variable {p q : Packet} {g : List UInt8}

lemma encoded_eq (hp : Fresh p) (hx : xs.length ≤ 1019) : encoded k p xs = some (frame k xs) := by
  obtain ⟨hl, hw, hr, he⟩ := hp
  simp only [defaultSize, headerSize] at hl hw hr
  have htake : xs.take (p.getBufferSize - p.writePos) = xs :=
    List.take_of_length_le (by simp only [getBufferSize]; omega)
  have hset : (p.setData xs).2 = { p with
      pBuffer := p.pBuffer.take 5 ++ xs ++ p.pBuffer.drop (5 + xs.length)
      writePos := 5 + xs.length } := by
    simp only [setData, htake]
    rw [hw]
  have hdrop : ((p.pBuffer.take 5 ++ xs ++ p.pBuffer.drop (5 + xs.length)).drop 5).take xs.length =
      xs := by
    have h5 : (p.pBuffer.take 5).length = 5 := by
      rw [List.length_take]
      omega
    rw [List.append_assoc, List.drop_append, List.drop_of_length_le h5.le, h5, List.nil_append,
      Nat.sub_self, List.drop_zero, List.take_append_of_le_length (le_refl _),
      List.take_of_length_le (le_refl _)]
  have henc := encode_eq (p := (p.setData xs).2) k (n := xs.length) (by rw [hset]; exact he)
    (by rw [hset]; simp only [getPayloadSize, hr]; omega)
    (by rw [hset]; simp only [List.length_append, List.length_take, List.length_drop]; omega)
  rw [encoded, henc, Option.map_some, hset]
  simp only [hdrop, wire, getTotalSize]
  rw [List.take_append_of_le_length (by rw [length_frame, headerSize]),
    List.take_of_length_le (by rw [length_frame, headerSize])]

lemma moveIn_eq (hp : Fresh p) (hg : Whole g) (hn : (NetHeader.ofBytes g).len ≤ 1019) :
    moveIn p g = some { p with
      pBuffer := g ++ p.pBuffer.drop g.length
      writePos := 5 + (NetHeader.ofBytes g).len } := by
  obtain ⟨hl, hw, -, -⟩ := hp
  have h5 := hg.length_eq
  simp only [defaultSize, headerSize] at hl hw
  rw [moveIn, poke, if_pos (by omega)]
  simp only [moveWritePos, getBufferSize, getTotalSize, List.take_zero, List.nil_append, hw, zero_add,
    List.length_append, List.length_drop, Option.map_some, Option.some.injEq, Packet.mk.injEq, true_and,
    and_true]
  omega

lemma decoded_eq (hp : Fresh p) (hg : Whole g) (hn : (NetHeader.ofBytes g).len ≤ 1019) :
    decoded p g = some (decide (Agrees g), payload g) := by
  rw [decoded, moveIn_eq hp hg hn, Option.bind_some, decode_eq rfl hg, Option.map_some]
  simp only [held, getPayloadSize, hp.read, headerSize, Nat.add_sub_cancel_left]
  rw [payload_eq hg]

/-- **The frames are the payloads.** For each key, `Encode` and `Decode` undo one another, and the
frames that `Decode` accepts are those that `Encode` makes. -/
theorem encode_decode (hp : Fresh p) (hq : Fresh q) (k : UInt8) :
    (∀ xs : List UInt8, xs.length ≤ 1019 →
      ∃ g, encoded k p xs = some g ∧ decoded q g = some (true, xs)) ∧
    (∀ g xs, IsFrame g → (NetHeader.ofBytes g).randKey = k → decoded q g = some (true, xs) →
      encoded k p xs = some g) ∧
    (∀ g, IsFrame g → (NetHeader.ofBytes g).randKey = k →
      ((∃ xs, decoded q g = some (true, xs)) ↔ ∃ xs, xs.length ≤ 1019 ∧ encoded k p xs = some g)) ∧
    Set.BijOn (encoded k p) {xs | xs.length ≤ 1019} {g | ∃ g', g = some g' ∧ IsFrame g' ∧
      (NetHeader.ofBytes g').randKey = k ∧ ∃ xs, decoded q g' = some (true, xs)} := by
  have there : ∀ xs : List UInt8, xs.length ≤ 1019 →
      encoded k p xs = some (frame k xs) ∧ decoded q (frame k xs) = some (true, xs) := by
    intro xs hx
    have hlt : xs.length < 65536 := by omega
    have hf := frame_isFrame (k := k) hx
    refine ⟨encoded_eq hp hx, ?_⟩
    rw [decoded_eq hq hf.whole hf.fits, payload_frame hlt, decide_eq_true (agrees_frame hlt)]
  have back : ∀ g xs, IsFrame g → (NetHeader.ofBytes g).randKey = k → decoded q g = some (true, xs) →
      xs.length ≤ 1019 ∧ frame k xs = g := by
    intro g xs hg hk hd
    rw [decoded_eq hq hg.whole hg.fits, Option.some.injEq, Prod.mk.injEq, decide_eq_true_eq] at hd
    obtain ⟨ha, rfl⟩ := hd
    refine ⟨by rw [length_payload hg.whole]; exact hg.fits, ?_⟩
    rw [← hk]
    exact frame_payload hg.whole hg.code ha
  refine ⟨fun xs hx => ⟨_, there xs hx⟩, fun g xs hg hk hd => ?_, fun g hg hk => ⟨?_, ?_⟩, ?_, ?_, ?_⟩
  · obtain ⟨hx, rfl⟩ := back g xs hg hk hd
    exact (there xs hx).1
  · rintro ⟨xs, hd⟩
    obtain ⟨hx, rfl⟩ := back g xs hg hk hd
    exact ⟨xs, hx, (there xs hx).1⟩
  · rintro ⟨xs, hx, he⟩
    rw [(there xs hx).1, Option.some.injEq] at he
    exact ⟨xs, he ▸ (there xs hx).2⟩
  · intro xs hx
    have hlt : xs.length < 65536 := Nat.lt_of_le_of_lt hx (by decide)
    obtain ⟨c, hc⟩ := ofBytes_frame (k := k) hlt
    exact ⟨frame k xs, (there xs hx).1, frame_isFrame hx, by rw [hc], xs, (there xs hx).2⟩
  · intro xs hx ys hy he
    rw [(there xs hx).1, (there ys hy).1, Option.some.injEq] at he
    have h := (there xs hx).2
    rw [he, (there ys hy).2] at h
    simpa using h.symm
  · rintro _ ⟨g, rfl, hg, hk, xs, hd⟩
    obtain ⟨hx, rfl⟩ := back g xs hg hk hd
    exact ⟨xs, hx, (there xs hx).1⟩

/-! ### The bytes that a packet holds -/

lemma getData_held (h : p.pBuffer.length = defaultSize) (hw : p.writePos ≤ defaultSize)
    {a b : List UInt8} (hp : held p = a ++ b) :
    (p.getData a.length).1 = a ∧ held (p.getData a.length).2 = b := by
  have hlen : (held p).length = p.getPayloadSize := by
    rw [held, List.length_take, List.length_drop, h, getPayloadSize]
    omega
  have hn : a.length ≤ p.getPayloadSize := by
    rw [← hlen, hp, List.length_append]
    omega
  have hmin : min a.length p.getPayloadSize = a.length := min_eq_left hn
  constructor
  · rw [getData, hmin]
    have := congrArg (List.take a.length) hp
    rwa [held, List.take_take, hmin, List.take_left] at this
  · have := congrArg (List.drop a.length) hp
    rw [held, List.drop_take, List.drop_drop, List.drop_left] at this
    rw [getData, hmin, held]
    simp only [getPayloadSize] at this ⊢
    rwa [Nat.sub_sub] at this

lemma setData_held (h : p.pBuffer.length = defaultSize) (hr : p.readPos ≤ p.writePos) {d : List UInt8}
    (hd : p.writePos + d.length ≤ defaultSize) :
    held (p.setData d).2 = held p ++ d ∧ (p.setData d).2.pBuffer.length = defaultSize ∧
      (p.setData d).2.readPos = p.readPos ∧ (p.setData d).2.writePos = p.writePos + d.length := by
  have ht : d.take (p.getBufferSize - p.writePos) = d := by
    refine List.take_of_length_le ?_
    rw [getBufferSize, h]
    omega
  have hset : (p.setData d).2 = { p with
      pBuffer := p.pBuffer.take p.writePos ++ d ++ p.pBuffer.drop (p.writePos + d.length)
      writePos := p.writePos + d.length } := by
    simp only [setData, ht]
  rw [hset]
  refine ⟨?_, ?_, rfl, rfl⟩
  · have hl : (p.pBuffer.take p.writePos).length = p.writePos := by
      rw [List.length_take]
      omega
    simp only [held, getPayloadSize]
    rw [List.append_assoc, List.drop_append_of_le_length (by omega), List.drop_take,
      ← List.append_assoc, List.take_append_of_le_length, List.take_of_length_le]
    · rw [List.length_append, List.length_take, List.length_drop]
      omega
    · rw [List.length_append, List.length_take, List.length_drop]
      omega
  · simp only [List.length_append, List.length_take, List.length_drop]
    omega

def blank : Packet := construct (List.replicate defaultSize 0)

lemma blank_fresh : Fresh blank := ⟨List.length_replicate, rfl, rfl, rfl⟩

theorem encode_decode_hello : ∃ g, encoded 7 blank [104, 105] = some g ∧
    decoded blank g = some (true, [104, 105]) :=
  (encode_decode blank_fresh blank_fresh 7).1 [104, 105] (by decide)

end LoginServerChat.Cipher
