import Mathlib.Tactic

/-!
The packet buffer of the server: the five header bytes, the payload behind them, and the
two passes that `Encode` and `Decode` make over a frame.

A buffer is a list of bytes and every access to it is checked, so that a pass which would
leave the buffer has no result. Positions are offsets from the start of the buffer.
-/

namespace LoginServerChat.NetPacket

/-- `sizeof(NetHeader)`: code, two bytes of length, the random key and the checksum. -/
def headerSize : ℕ := 5
def defaultSize : ℕ := 1024
def packetCode : UInt8 := 0x77
def packetKey : UInt8 := 0x32

structure NetHeader where
  code : UInt8
  len : ℕ
  randKey : UInt8
  chkSum : UInt8
  deriving DecidableEq, Repr

/-- The header that the first bytes of `b` spell; `len` is a little-endian `USHORT`. -/
def NetHeader.ofBytes (b : List UInt8) : NetHeader where
  code := b.getD 0 0
  len := (b.getD 1 0).toNat + 256 * (b.getD 2 0).toNat
  randKey := b.getD 3 0
  chkSum := b.getD 4 0

def NetHeader.toBytes (h : NetHeader) : List UInt8 :=
  [h.code, UInt8.ofNat h.len, UInt8.ofNat (h.len / 256), h.randKey, h.chkSum]

structure Packet where
  pBuffer : List UInt8
  writePos : ℕ
  readPos : ℕ
  refCount : ℤ
  isEncode : Bool
  deriving DecidableEq, Repr

namespace Packet

/-- A packet as its constructor leaves it, over the bytes `mem` of a fresh allocation. -/
def construct (mem : List UInt8) : Packet where
  pBuffer := mem
  writePos := headerSize
  readPos := headerSize
  refCount := 0
  isEncode := false

def clear (p : Packet) : Packet :=
  { p with writePos := headerSize, readPos := headerSize, isEncode := false }

def getBufferSize (p : Packet) : ℕ := p.pBuffer.length
def getPayloadSize (p : Packet) : ℕ := p.writePos - p.readPos
def getTotalSize (p : Packet) : ℕ := p.writePos

/-- `memcpy_s` into a buffer, from offset `off` on. -/
def poke (b : List UInt8) (off : ℕ) (d : List UInt8) : Option (List UInt8) :=
  if off + d.length ≤ b.length then some (b.take off ++ d ++ b.drop (off + d.length)) else none

def moveWritePos (p : Packet) (size : ℕ) : ℕ × Packet :=
  let n := min size (p.getBufferSize - p.getTotalSize)
  (n, { p with writePos := p.writePos + n })

def moveReadPos (p : Packet) (size : ℕ) : ℕ × Packet :=
  let n := min size p.getPayloadSize
  (n, { p with readPos := p.readPos + n })

def getData (p : Packet) (size : ℕ) : List UInt8 × Packet :=
  let n := min size p.getPayloadSize
  ((p.pBuffer.drop p.readPos).take n, { p with readPos := p.readPos + n })

def setData (p : Packet) (src : List UInt8) : ℕ × Packet :=
  let d := src.take (p.getBufferSize - p.writePos)
  (d.length, { p with
    pBuffer := p.pBuffer.take p.writePos ++ d ++ p.pBuffer.drop (p.writePos + d.length)
    writePos := p.writePos + d.length })

def addRefCount (p : Packet) : Packet := { p with refCount := p.refCount + 1 }

/-- The `InterlockedDecrement` of `Free`. -/
def decRefCount (p : Packet) : Packet := { p with refCount := p.refCount - 1 }

/-! ### The two passes -/

/-- `sumVal` after `n` further payload bytes, each added as a signed `char`. -/
def sumFrom (b : List UInt8) : ℕ → ℕ → ℤ → Option ℤ
  | 0, _, s => some s
  | n + 1, i, s => (b[headerSize + i]?).bind fun x => sumFrom b n (i + 1) (s + x.toInt8.toInt)

/-- `sumVal % 256` stored into a `BYTE`; the remainder has the sign of `sumVal`. -/
def chkByte (s : ℤ) : UInt8 := UInt8.ofInt (s.tmod 256)

/-- `n` further rounds of the loop of `Encode`; `cnt` is `i + 1` throughout. -/
def encodeFrom (randKey : UInt8) : ℕ → ℕ → UInt8 → UInt8 → List UInt8 → Option (List UInt8)
  | 0, _, _, _, b => some b
  | n + 1, i, befRk, befPk, b => (b[headerSize - 1 + i]?).bind fun x =>
    let rk := x ^^^ (befRk + randKey + UInt8.ofNat (i + 1))
    let pk := rk ^^^ (befPk + packetKey + UInt8.ofNat (i + 1))
    encodeFrom randKey n (i + 1) rk pk (b.set (headerSize - 1 + i) pk)

/-- `n` further rounds of the loop of `Decode`. The carries keep the source's names: `befRk`
is the byte read, `befPk` the byte with the fixed key taken off. -/
def decodeFrom (randKey : UInt8) : ℕ → ℕ → UInt8 → UInt8 → List UInt8 → Option (List UInt8)
  | 0, _, _, _, b => some b
  | n + 1, i, befPk, befRk, b => (b[headerSize - 1 + i]?).bind fun x =>
    let tmp := x ^^^ (befRk + packetKey + UInt8.ofNat (i + 1))
    decodeFrom randKey n (i + 1) tmp x
      (b.set (headerSize - 1 + i) (tmp ^^^ (befPk + randKey + UInt8.ofNat (i + 1))))

/-- `Encode`, with `k` what `rand() % 256` gave. -/
def encode (k : UInt8) (p : Packet) : Option Packet :=
  if p.isEncode then some p else
    let len := p.getPayloadSize % 65536
    (sumFrom p.pBuffer len 0 0).bind fun s =>
    (poke p.pBuffer 0 (NetHeader.toBytes ⟨packetCode, len, k, chkByte s⟩)).bind fun b =>
    (encodeFrom k (len + 1) 0 0 0 b).map fun b => { p with pBuffer := b, isEncode := true }

/-- `Decode`: the packet afterwards and whether the checksum agrees. The header is read again
after the loop, which has deciphered its checksum. -/
def decode (p : Packet) : Option (Bool × Packet) :=
  let h := NetHeader.ofBytes p.pBuffer
  (decodeFrom h.randKey (h.len + 1) 0 0 0 p.pBuffer).bind fun b =>
  (sumFrom b (NetHeader.ofBytes b).len 0 0).map fun s =>
    (decide ((NetHeader.ofBytes b).chkSum = chkByte s), { p with pBuffer := b })

end Packet

end LoginServerChat.NetPacket
