import LoginServerChat.Login

/-!
The operators `<<` and `>>` of a packet, for the twelve types that they are overloaded for. A value
goes over the wire as the bytes it has in memory, the lowest first; of a `float` and of a `double`
only the bits matter.
-/

namespace LoginServerChat.PacketTypes

open NetPacket Packet Cipher Login

/-! ### Values in memory -/

/-- The `n` lowest bytes of a number, from the lowest on. -/
def leBytes : ℕ → ℕ → List UInt8
  | 0, _ => []
  | n + 1, m => UInt8.ofNat m :: leBytes n (m / 256)

def leNat : List UInt8 → ℕ
  | [] => 0
  | x :: xs => x.toNat + 256 * leNat xs

@[simp] lemma length_leBytes (n m : ℕ) : (leBytes n m).length = n := by
  induction n generalizing m with
  | zero => rfl
  | succ n ih => rw [leBytes, List.length_cons, ih]

lemma leNat_leBytes (n m : ℕ) : leNat (leBytes n m) = m % 256 ^ n := by
  induction n generalizing m with
  | zero => rw [leBytes, leNat, pow_zero, Nat.mod_one]
  | succ n ih =>
    rw [leBytes, leNat, ih, pow_succ', Nat.mod_mul, UInt8.toNat_ofNat']

/-- A type whose values are `sizeof` bytes in memory. -/
structure Scalar (α : Type) where
  sizeof : ℕ
  toBits : α → BitVec (8 * sizeof)
  ofBits : BitVec (8 * sizeof) → α
  ofBits_toBits : ∀ v, ofBits (toBits v) = v

namespace Scalar

variable {α : Type} (s : Scalar α)

def toBytes (v : α) : List UInt8 := leBytes s.sizeof (s.toBits v).toNat
def ofBytes (b : List UInt8) : α := s.ofBits (BitVec.ofNat _ (leNat b))

@[simp] lemma length_toBytes (v : α) : (s.toBytes v).length = s.sizeof := length_leBytes _ _

lemma ofBytes_toBytes (v : α) : s.ofBytes (s.toBytes v) = v := by
  have hlt : (s.toBits v).toNat < 256 ^ s.sizeof := by
    have := (s.toBits v).isLt
    rwa [pow_mul] at this
  rw [ofBytes, toBytes, leNat_leBytes, Nat.mod_eq_of_lt hlt, BitVec.ofNat_toNat, BitVec.setWidth_eq,
    s.ofBits_toBits]

/-- `SetData((char*)&val, sizeof(val))`. -/
def put (p : Packet) (val : α) : Packet := (p.setData (s.toBytes val)).2

/-- `GetData((char*)&val, sizeof(val))`: what `val` holds then, and the packet. -/
def get (p : Packet) (val : α) : α × Packet :=
  let r := p.getData s.sizeof
  (s.ofBytes (overlay (s.toBytes val) r.1), r.2)

end Scalar

def char : Scalar Int8 := ⟨1, Int8.toBitVec, Int8.ofBitVec, fun _ => rfl⟩
def unsignedChar : Scalar UInt8 := ⟨1, UInt8.toBitVec, UInt8.ofBitVec, fun _ => rfl⟩
def short : Scalar Int16 := ⟨2, Int16.toBitVec, Int16.ofBitVec, fun _ => rfl⟩
def unsignedShort : Scalar UInt16 := ⟨2, UInt16.toBitVec, UInt16.ofBitVec, fun _ => rfl⟩
def int : Scalar Int32 := ⟨4, Int32.toBitVec, Int32.ofBitVec, fun _ => rfl⟩
def unsignedInt : Scalar UInt32 := ⟨4, UInt32.toBitVec, UInt32.ofBitVec, fun _ => rfl⟩
/-- Four bytes, unlike elsewhere. -/
def long : Scalar Int32 := ⟨4, Int32.toBitVec, Int32.ofBitVec, fun _ => rfl⟩
def unsignedLong : Scalar UInt32 := ⟨4, UInt32.toBitVec, UInt32.ofBitVec, fun _ => rfl⟩
def int64 : Scalar Int64 := ⟨8, Int64.toBitVec, Int64.ofBitVec, fun _ => rfl⟩
def unsignedInt64 : Scalar UInt64 := ⟨8, UInt64.toBitVec, UInt64.ofBitVec, fun _ => rfl⟩
def float : Scalar UInt32 := ⟨4, UInt32.toBitVec, UInt32.ofBitVec, fun _ => rfl⟩
def double : Scalar UInt64 := ⟨8, UInt64.toBitVec, UInt64.ofBitVec, fun _ => rfl⟩

/-! ### The overloads -/

def shlChar (p : Packet) (val : Int8) : Packet := char.put p val
def shlUnsignedChar (p : Packet) (val : UInt8) : Packet := unsignedChar.put p val
def shlShort (p : Packet) (val : Int16) : Packet := short.put p val
def shlUnsignedShort (p : Packet) (val : UInt16) : Packet := unsignedShort.put p val
def shlInt (p : Packet) (val : Int32) : Packet := int.put p val
def shlUnsignedInt (p : Packet) (val : UInt32) : Packet := unsignedInt.put p val
def shlLong (p : Packet) (val : Int32) : Packet := long.put p val
def shlUnsignedLong (p : Packet) (val : UInt32) : Packet := unsignedLong.put p val
def shlInt64 (p : Packet) (val : Int64) : Packet := int64.put p val
def shlUnsignedInt64 (p : Packet) (val : UInt64) : Packet := unsignedInt64.put p val
def shlFloat (p : Packet) (val : UInt32) : Packet := float.put p val
def shlDouble (p : Packet) (val : UInt64) : Packet := double.put p val

/-! Each `>>` takes the variable of its caller and gives what the variable holds afterwards. -/

def shrChar (p : Packet) (chValue : Int8) : Int8 × Packet := char.get p chValue
def shrUnsignedChar (p : Packet) (byValue : UInt8) : UInt8 × Packet := unsignedChar.get p byValue
def shrShort (p : Packet) (shValue : Int16) : Int16 × Packet := short.get p shValue
def shrUnsignedShort (p : Packet) (wValue : UInt16) : UInt16 × Packet := unsignedShort.get p wValue
def shrInt (p : Packet) (iValue : Int32) : Int32 × Packet := int.get p iValue
def shrUnsignedInt (p : Packet) (uiValue : UInt32) : UInt32 × Packet := unsignedInt.get p uiValue
/-- The parameter is a copy, the only one among the twelve: the variable of the caller stays. -/
def shrLong (p : Packet) (lValue : Int32) : Int32 × Packet := (lValue, (long.get p lValue).2)
def shrUnsignedLong (p : Packet) (ulValue : UInt32) : UInt32 × Packet := unsignedLong.get p ulValue
def shrInt64 (p : Packet) (iValue : Int64) : Int64 × Packet := int64.get p iValue
def shrUnsignedInt64 (p : Packet) (uiValue : UInt64) : UInt64 × Packet := unsignedInt64.get p uiValue
def shrFloat (p : Packet) (fValue : UInt32) : UInt32 × Packet := float.get p fValue
def shrDouble (p : Packet) (dValue : UInt64) : UInt64 × Packet := double.get p dValue

inductive CType
  | char | unsignedChar | short | unsignedShort | int | unsignedInt | long | unsignedLong
  | int64 | unsignedInt64 | float | double
  deriving DecidableEq

namespace CType

@[reducible] def Val : CType → Type
  | .char => Int8
  | .unsignedChar => UInt8
  | .short => Int16
  | .unsignedShort => UInt16
  | .int | .long => Int32
  | .unsignedInt | .unsignedLong | .float => UInt32
  | .int64 => Int64
  | .unsignedInt64 | .double => UInt64

def scalar : (t : CType) → Scalar t.Val
  | .char => PacketTypes.char
  | .unsignedChar => PacketTypes.unsignedChar
  | .short => PacketTypes.short
  | .unsignedShort => PacketTypes.unsignedShort
  | .int => PacketTypes.int
  | .unsignedInt => PacketTypes.unsignedInt
  | .long => PacketTypes.long
  | .unsignedLong => PacketTypes.unsignedLong
  | .int64 => PacketTypes.int64
  | .unsignedInt64 => PacketTypes.unsignedInt64
  | .float => PacketTypes.float
  | .double => PacketTypes.double

/-- The `<<` that the compiler picks for a type. -/
def shl : (t : CType) → Packet → t.Val → Packet
  | .char => shlChar
  | .unsignedChar => shlUnsignedChar
  | .short => shlShort
  | .unsignedShort => shlUnsignedShort
  | .int => shlInt
  | .unsignedInt => shlUnsignedInt
  | .long => shlLong
  | .unsignedLong => shlUnsignedLong
  | .int64 => shlInt64
  | .unsignedInt64 => shlUnsignedInt64
  | .float => shlFloat
  | .double => shlDouble

/-- The `>>` that it picks for a variable of the type. -/
def shr : (t : CType) → Packet → t.Val → t.Val × Packet
  | .char => shrChar
  | .unsignedChar => shrUnsignedChar
  | .short => shrShort
  | .unsignedShort => shrUnsignedShort
  | .int => shrInt
  | .unsignedInt => shrUnsignedInt
  | .long => shrLong
  | .unsignedLong => shrUnsignedLong
  | .int64 => shrInt64
  | .unsignedInt64 => shrUnsignedInt64
  | .float => shrFloat
  | .double => shrDouble

instance (t : CType) : DecidableEq t.Val := fun a b =>
  decidable_of_iff (t.scalar.toBits a = t.scalar.toBits b)
    (Function.LeftInverse.injective t.scalar.ofBits_toBits).eq_iff

lemma shl_eq (t : CType) (p : Packet) (v : t.Val) : t.shl p v = t.scalar.put p v := by
  cases t <;> rfl

lemma shr_snd (t : CType) (p : Packet) (x : t.Val) : (t.shr p x).2 = (t.scalar.get p x).2 := by
  cases t <;> rfl

lemma shr_fst (t : CType) (p : Packet) (x : t.Val) :
    (t.shr p x).1 = if t = .long then x else (t.scalar.get p x).1 := by
  cases t <;> rfl

end CType

/-! ### Writing and reading in turns -/

/-- A value of one of the types; also a variable, with what it holds. -/
structure Value where
  type : CType
  val : type.Val
  deriving DecidableEq

inductive Op
  | put (v : Value)
  | get (x : Value)

/-- What the variables hold after the calls, in the order of the reads. -/
def run (p : Packet) : List Op → List Value
  | [] => []
  | .put v :: ops => run (v.type.shl p v.val) ops
  | .get x :: ops =>
    let r := x.type.shr p x.val
    ⟨x.type, r.1⟩ :: run r.2 ops

def puts (ops : List Op) : List Value :=
  ops.filterMap fun
    | .put v => some v
    | .get _ => none

def gets (ops : List Op) : List Value :=
  ops.filterMap fun
    | .put _ => none
    | .get x => some x

/-- Every read is of a value that has been written before, in order and with its own type; `q` are
the types of the values written and not read yet. -/
def Matched : List CType → List Op → Prop
  | _, [] => True
  | q, .put v :: ops => Matched (q ++ [v.type]) ops
  | [], .get _ :: _ => False
  | t :: q, .get x :: ops => x.type = t ∧ Matched q ops

def sizes (vs : List Value) : ℕ := (vs.map fun v => v.type.scalar.sizeof).sum

/-- What a variable holds after a read of the value `v`. -/
def landed (x v : Value) : Value := if x.type = .long then x else v

/-- The bytes of some values one after another. -/
def image (vs : List Value) : List UInt8 := vs.flatMap fun v => v.type.scalar.toBytes v.val

/-- The packet holds the values `vs`, and `room` more bytes fit in. -/
structure Holds (p : Packet) (vs : List Value) (room : ℕ) : Prop where
  length : p.pBuffer.length = defaultSize
  read : p.readPos ≤ p.writePos
  write : p.writePos + room ≤ defaultSize
  held : held p = image vs

variable {p : Packet} {vs : List Value} {v x : Value} {n : ℕ} {ops : List Op}

lemma holds_put (h : Holds p vs (v.type.scalar.sizeof + n)) :
    Holds (v.type.shl p v.val) (vs ++ [v]) n := by
  have hw := h.write
  have hlen := v.type.scalar.length_toBytes v.val
  obtain ⟨h1, h2, h3, h4⟩ := setData_held h.length h.read (d := v.type.scalar.toBytes v.val)
    (by omega)
  rw [CType.shl_eq]
  unfold Scalar.put
  refine ⟨h2, ?_, ?_, ?_⟩
  · have := h.read
    omega
  · omega
  · rw [h1, h.held]
    simp [image]

/-- A read takes the first value out; only a `long` is not stored. -/
lemma holds_get (h : Holds p (v :: vs) n) {x : v.type.Val} :
    (v.type.shr p x).1 = (if v.type = .long then x else v.val) ∧ Holds (v.type.shr p x).2 vs n := by
  have hw := h.write
  have hr := h.read
  have hcons : held p = v.type.scalar.toBytes v.val ++ image vs := h.held
  obtain ⟨h1, h2⟩ := getData_held h.length (by omega) hcons
  rw [Scalar.length_toBytes] at h1 h2
  have hval : (v.type.scalar.get p x).1 = v.val := by
    unfold Scalar.get
    dsimp only
    rw [h1, overlay_full (by simp), Scalar.ofBytes_toBytes]
  refine ⟨by rw [CType.shr_fst, hval], ?_⟩
  rw [CType.shr_snd]
  refine ⟨h.length, ?_, hw, h2⟩
  unfold Scalar.get getData getPayloadSize
  dsimp only
  omega

/-- **A run.** Every variable holds the value that was written for it, except the `long`s, which
hold what they held before. -/
lemma run_eq (h : Holds p vs (sizes (puts ops))) (hm : Matched (vs.map (·.type)) ops) :
    run p ops = (gets ops).zipWith landed (vs ++ puts ops) := by
  induction ops generalizing p vs with
  | nil => rfl
  | cons op ops ih =>
    cases op with
    | put v =>
      have hput := holds_put (n := sizes (puts ops)) h
      have := ih hput (by rw [List.map_append]; exact hm)
      rw [run, this, List.append_assoc]
      rfl
    | get x =>
      match vs, h, hm with
      | v :: vs, h, hm =>
        obtain ⟨t, y⟩ := x
        obtain ⟨rfl, hops⟩ := hm
        obtain ⟨h1, h2⟩ := holds_get (x := y) h
        have := ih h2 hops
        rw [run]
        dsimp only
        rw [this, h1]
        change _ = landed ⟨v.type, y⟩ v :: (gets ops).zipWith landed (vs ++ puts ops)
        unfold landed
        dsimp only
        split_ifs <;> rfl

lemma length_gets (hm : Matched (vs.map (·.type)) ops) :
    (gets ops).length ≤ (vs ++ puts ops).length := by
  induction ops generalizing vs with
  | nil => exact Nat.zero_le _
  | cons op ops ih =>
    cases op with
    | put v =>
      have : (gets ops).length ≤ (vs ++ [v] ++ puts ops).length := ih (by rw [List.map_append]; exact hm)
      rwa [List.append_assoc] at this
    | get x =>
      match vs, hm with
      | v :: vs, hm => exact Nat.succ_le_succ (ih hm.2)

lemma zipWith_landed {xs vs : List Value} (h : xs.length ≤ vs.length) :
    xs.zipWith landed vs = vs.take xs.length ↔ ∀ y ∈ xs.zip vs, y.1.type = .long → y.1 = y.2 := by
  induction xs generalizing vs with
  | nil => simp
  | cons x xs ih =>
    match vs, h with
    | v :: vs, h =>
      have := ih (Nat.le_of_succ_le_succ h)
      simp only [List.zipWith_cons_cons, List.length_cons, List.take_succ_cons, List.cons.injEq,
        List.zip_cons_cons, List.forall_mem_cons, this]
      refine and_congr_left' ?_
      unfold landed
      split_ifs with hl
      · exact ⟨fun h _ => h, fun h => h hl⟩
      · exact ⟨fun _ h => absurd h hl, fun _ => rfl⟩

/-- **Round trip.** Reading into variables what has been written gives each variable its value,
exactly if the variables of type `long` held theirs before. -/
theorem typed_round_trip_iff (hp : Fresh p) (hm : Matched [] ops) (hs : sizes (puts ops) ≤ 1019) :
    run p ops = (puts ops).take (gets ops).length ↔
      ∀ y ∈ (gets ops).zip (puts ops), y.1.type = .long → y.1 = y.2 := by
  have hr := hp.read
  have hw := hp.write
  have hholds : Holds p [] (sizes (puts ops)) := by
    refine ⟨hp.length, by omega, ?_, ?_⟩
    · rw [hw, headerSize, defaultSize]
      omega
    · rw [held, getPayloadSize, hr, hw, Nat.sub_self, List.take_zero]
      rfl
  rw [run_eq hholds hm]
  have hlen : (gets ops).length ≤ ([] ++ puts ops).length := length_gets hm
  exact zipWith_landed hlen

/-- A `short`, the bits of a `float` and an `__int64`, the first of them read before the last is
written. -/
def threeValues : List Op :=
  [.put ⟨.short, -2⟩, .put ⟨.float, 0x3F800000⟩, .get ⟨.short, 0⟩, .put ⟨.int64, -7⟩,
    .get ⟨.float, 0⟩, .get ⟨.int64, 0⟩]

theorem typed_round_trip_three :
    run blank threeValues = [⟨.short, -2⟩, ⟨.float, 0x3F800000⟩, ⟨.int64, -7⟩] := by
  have hmatch : Matched [] threeValues := ⟨rfl, rfl, rfl, trivial⟩
  exact (typed_round_trip_iff blank_fresh hmatch (by decide)).mpr (by decide)

/-- A `long` that is written and read: its variable keeps the zero it held. -/
theorem typed_round_trip_long :
    Matched [] [.put ⟨.long, 5⟩, .get ⟨.long, 0⟩] ∧
      sizes (puts [.put ⟨.long, 5⟩, .get ⟨.long, 0⟩]) ≤ 1019 ∧
      run blank [.put ⟨.long, 5⟩, .get ⟨.long, 0⟩] = [⟨.long, 0⟩] ∧
      run blank [.put ⟨.long, 5⟩, .get ⟨.long, 0⟩] ≠ [⟨.long, 5⟩] := by
  have hrun : run blank [.put ⟨.long, 5⟩, .get ⟨.long, 0⟩] = [⟨.long, 0⟩] := rfl
  refine ⟨⟨rfl, trivial⟩, by decide, hrun, ?_⟩
  rw [hrun]
  decide

end LoginServerChat.PacketTypes
