import LoginServerChat.Circular
import LoginServerChat.NetPacket

/-!
`CRingBuffer`. The bytes in use lie behind `iFront`, up to and including `iRear`, so that one byte
of the buffer is always free. Indices are integers and every access to the buffer is checked.

`Dequeue`, `Peek` and `MoveFront` walk over the same places, and so do `Enqueue` and `MoveRear`:
up to the end of the buffer or of what there is to walk over, then on from the start.
-/

namespace LoginServerChat.RingBuffer

open NetPacket Circular

structure CRingBuffer where
  buffer : List UInt8
  iFront : ℤ
  iRear : ℤ
  iTotalSize : ℤ

/-! ### Checked memory -/

/-- `n` bytes from offset `off` on. -/
def load (b : List UInt8) (off n : ℤ) : Option (List UInt8) :=
  if 0 ≤ off ∧ 0 ≤ n ∧ off + n ≤ b.length then some ((b.drop off.toNat).take n.toNat) else none

def store (b : List UInt8) (off : ℤ) (d : List UInt8) : Option (List UInt8) :=
  if 0 ≤ off then Packet.poke b off.toNat d else none

/-- The bytes of several places, given by offset and length. -/
def gather (b : List UInt8) : List (ℤ × ℤ) → Option (List UInt8)
  | [] => some []
  | (off, n) :: ps => (load b off n).bind fun d => (gather b ps).map (d ++ ·)

/-- Bytes spread over several places, as far as they go. -/
def scatter (b : List UInt8) : List (ℤ × ℤ) → List UInt8 → Option (List UInt8)
  | [], d => if d = [] then some b else none
  | (off, n) :: ps, d => (store b off (d.take n.toNat)).bind fun b' => scatter b' ps (d.drop n.toNat)

namespace CRingBuffer

/-- The constructor, over the memory it allocates. -/
def construct (mem : List UInt8) (iBufferSize : ℤ) : CRingBuffer := ⟨mem, 0, 0, iBufferSize + 1⟩

def getUseSize (r : CRingBuffer) : ℤ :=
  if r.iFront = r.iRear then 0
  else if r.iFront < r.iRear then r.iRear - r.iFront
  else r.iTotalSize - r.iFront + r.iRear

def getFreeSize (r : CRingBuffer) : ℤ :=
  if r.iFront = r.iRear then r.iTotalSize - 1
  else if r.iFront > r.iRear then r.iFront - r.iRear - 1
  else r.iTotalSize - 1 - r.iRear + r.iFront

/-- `(i + 1) % iTotalSize`. -/
def next (r : CRingBuffer) (i : ℤ) : ℤ := (i + 1).tmod r.iTotalSize

def directEnqueueSize (r : CRingBuffer) : ℤ :=
  let iBkupRear := r.next r.iRear
  if r.iFront < iBkupRear then r.iTotalSize - iBkupRear else r.iFront - iBkupRear

def directDequeueSize (r : CRingBuffer) : ℤ :=
  if r.iFront = r.iRear then 0
  else
    let iBkupFront := r.next r.iFront
    if iBkupFront > r.iRear then r.iTotalSize - iBkupFront else r.iRear - iBkupFront + 1

/-- `GetFrontBufferPtr` and `GetRearBufferPtr`, as offsets into the buffer. -/
def getFrontBufferPtr (r : CRingBuffer) : ℤ := r.next r.iFront
def getRearBufferPtr (r : CRingBuffer) : ℤ := r.next r.iRear

def getBufferSize (r : CRingBuffer) : ℤ := r.iTotalSize - 1

def clearBuffer (r : CRingBuffer) : CRingBuffer := { r with iFront := 0, iRear := 0 }

/-- `Resize`; `fresh` is what the new memory holds. There is none to be had for a size that is no
`int`. -/
def resize (r : CRingBuffer) (fresh : ℕ → UInt8) (iSize : ℤ) : Option CRingBuffer :=
  if iSize ≤ r.iTotalSize then some r
  else if iSize + 1 < 2 ^ 31 then
    let newbuffer := (List.range (iSize + 1).toNat).map fresh
    (load r.buffer 0 r.iTotalSize).bind fun d =>
    (store newbuffer 0 d).map fun b => { r with buffer := b, iTotalSize := iSize + 1 }
  else none

/-- The places a call walks over, where its index stops, and how many bytes that is. -/
structure Span where
  places : List (ℤ × ℤ)
  stop : ℤ
  size : ℤ

/-- `iDDEsize` for a front index behind which something is in use. -/
def ddeSize (r : CRingBuffer) (iBkupFront : ℤ) : ℤ :=
  if iBkupFront > r.iRear then r.iTotalSize - iBkupFront else r.iRear - iBkupFront + 1

/-- The way of `Dequeue`, `Peek` and `MoveFront`. -/
def frontSpan (r : CRingBuffer) (iSize : ℤ) : Span :=
  if r.iRear = r.iFront then ⟨[], r.iFront, 0⟩ else
    let f := r.next r.iFront
    let n := r.ddeSize f
    if iSize > n then
      let f₁ := f + n - 1
      if r.iRear = f₁ then ⟨[(f, n)], f₁, n⟩ else
        let f₂ := r.next f₁
        let n₂ := min (iSize - n) (r.ddeSize f₂)
        ⟨[(f, n), (f₂, n₂)], f₂ + n₂ - 1, n + n₂⟩
    else ⟨[(f, iSize)], f + iSize - 1, iSize⟩

/-- `iDEsize`, from the value it had before; there is no case for a full buffer. -/
def deSize (r : CRingBuffer) (iBkupRear iDEsize : ℤ) : ℤ :=
  if r.iFront < iBkupRear then r.iTotalSize - iBkupRear
  else if r.iFront > iBkupRear then r.iFront - iBkupRear
  else iDEsize

/-- The way of `Enqueue` and `MoveRear`. -/
def rearSpan (r : CRingBuffer) (iSize : ℤ) : Span :=
  let w := r.next r.iRear
  if r.iFront = w then ⟨[], r.iRear, 0⟩ else
    let n := r.deSize w 0
    if iSize > n then
      let w₁ := w + (n - 1)
      if r.next w₁ = r.iFront then ⟨[(w, n)], w₁, n⟩ else
        let w₂ := r.next w₁
        let n₂ := min (iSize - n) (r.deSize w₂ n)
        ⟨[(w, n), (w₂, n₂)], w₂ + (n₂ - 1), n + n₂⟩
    else ⟨[(w, iSize)], w + (iSize - 1), iSize⟩

/-- The bytes that are copied out, and the ring afterwards. -/
def dequeue (r : CRingBuffer) (iSize : ℤ) : Option (List UInt8 × CRingBuffer) :=
  (gather r.buffer (r.frontSpan iSize).places).map fun d =>
    (d, { r with iFront := (r.frontSpan iSize).stop })

def peek (r : CRingBuffer) (iSize : ℤ) : Option (List UInt8) :=
  gather r.buffer (r.frontSpan iSize).places

/-- How many bytes are taken in, and the ring afterwards. -/
def enqueue (r : CRingBuffer) (chpData : List UInt8) (iSize : ℤ) : Option (ℤ × CRingBuffer) :=
  let w := r.rearSpan iSize
  (load chpData 0 w.size).bind fun d =>
  (scatter r.buffer w.places d).map fun b => (w.size, { r with buffer := b, iRear := w.stop })

def moveFront (r : CRingBuffer) (iSize : ℤ) : ℤ × CRingBuffer :=
  ((r.frontSpan iSize).size, { r with iFront := (r.frontSpan iSize).stop })

def moveRear (r : CRingBuffer) (iSize : ℤ) : ℤ × CRingBuffer :=
  ((r.rearSpan iSize).size, { r with iRear := (r.rearSpan iSize).stop })

/-! ### The queue in the ring -/

structure WF (r : CRingBuffer) : Prop where
  total : r.iTotalSize = r.buffer.length
  front : 0 ≤ r.iFront ∧ r.iFront < r.iTotalSize
  rear : 0 ≤ r.iRear ∧ r.iRear < r.iTotalSize

/-- The bytes in use. -/
def contents (r : CRingBuffer) : List UInt8 :=
  window r.buffer (r.iFront + 1).toNat r.getUseSize.toNat

/-- What lies in the free bytes, from `GetRearBufferPtr` on. -/
def spare (r : CRingBuffer) : List UInt8 :=
  window r.buffer (r.iRear + 1).toNat r.getFreeSize.toNat

variable {r : CRingBuffer}

lemma next_eq {i : ℤ} (h0 : 0 ≤ i) (h : i < r.iTotalSize) :
    r.next i = if i + 1 = r.iTotalSize then 0 else i + 1 := by
  rw [next, Int.tmod_eq_emod_of_nonneg (by omega)]
  split
  · rename_i he
    rw [he, Int.emod_self]
  · exact Int.emod_eq_of_lt (by omega) (by omega)

/-- `iRear` is `GetUseSize` places behind `iFront`. -/
lemma useSize_spec (h : WF r) : 0 ≤ r.getUseSize ∧ r.getUseSize < r.iTotalSize ∧
    (r.iFront + r.getUseSize = r.iRear ∨ r.iFront + r.getUseSize = r.iRear + r.iTotalSize) := by
  obtain ⟨-, h1, h2⟩ := h
  unfold getUseSize
  split_ifs <;> omega

lemma useSize_unique (h : WF r) {u : ℤ} (h0 : 0 ≤ u) (h1 : u < r.iTotalSize)
    (h2 : r.iFront + u = r.iRear ∨ r.iFront + u = r.iRear + r.iTotalSize) : r.getUseSize = u := by
  obtain ⟨h3, h4, h5⟩ := useSize_spec h
  obtain ⟨-, h6, h7⟩ := h
  omega

lemma freeSize_eq (h : WF r) : r.getFreeSize = r.iTotalSize - 1 - r.getUseSize := by
  obtain ⟨-, h1, h2⟩ := h
  unfold getFreeSize getUseSize
  split_ifs <;> omega

lemma length_contents (h : WF r) : (r.contents.length : ℤ) = r.getUseSize := by
  obtain ⟨h0, h1, -⟩ := useSize_spec h
  have := h.total
  rw [contents, length_window (by omega)]
  omega

lemma load_eq {b : List UInt8} {off n : ℤ} (h0 : 0 ≤ off) (h1 : 0 ≤ n) (h : off + n ≤ b.length) :
    load b off n = some (window b off.toNat n.toNat) := by
  rw [load, if_pos ⟨h0, h1, h⟩, window_of_le (by omega)]

lemma store_eq {b d : List UInt8} {off : ℤ} (h0 : 0 ≤ off) (h : off + d.length ≤ b.length) :
    ∃ b', store b off d = some b' ∧ b' = b.take off.toNat ++ d ++ b.drop (off.toNat + d.length) := by
  refine ⟨_, ?_, rfl⟩
  rw [store, if_pos h0, Packet.poke, if_pos (by omega)]

/-- `ps` are the `n` places from `s` on, in one piece or in two. -/
inductive Arc (T s n : ℤ) : List (ℤ × ℤ) → Prop
  | none (h : n = 0) : Arc T s n []
  | one (h0 : 0 ≤ s) (hn : 0 ≤ n) (h : s + n ≤ T) : Arc T s n [(s, n)]
  | two (h0 : 0 ≤ s) (h : s ≤ T) (hT : T ≤ s + n) (hn : n ≤ T) : Arc T s n [(s, T - s), (0, s + n - T)]

variable {b d : List UInt8} {s n : ℤ} {ps : List (ℤ × ℤ)}

lemma Arc.gather (h : Arc b.length s n ps) : gather b ps = some (window b s.toNat n.toNat) := by
  cases h with
  | none h =>
    subst h
    simp [RingBuffer.gather, window]
  | one h0 hn h => simp [RingBuffer.gather, load_eq h0 hn h]
  | two h0 h hT hn =>
    have h1 := load_eq (b := b) h0 (by omega : 0 ≤ (b.length : ℤ) - s) (by omega)
    have h2 := load_eq (b := b) (le_refl 0) (by omega : 0 ≤ s + n - b.length) (by omega)
    simp only [RingBuffer.gather, h1, h2, Option.bind_some, Option.map_some]
    have e := window_of_lt (b := b) (s := s.toNat) (n := n.toNat) (by omega) (by omega) (by omega)
    rw [e, window_of_le (by omega), window_of_le (by omega),
      List.take_of_length_le (by rw [List.length_drop]; omega)]
    simp only [Int.toNat_zero, List.drop_zero, List.append_nil]
    congr 3
    omega

lemma Arc.scatter (h : Arc b.length s n ps) (hd : d.length ≤ n) :
    ∃ b', scatter b ps d = some b' ∧ Written b b' d s.toNat := by
  have hnil : ∀ c : List UInt8, store c 0 [] = some c := fun c => by simp [store, Packet.poke]
  cases h with
  | none h =>
    have : d = [] := List.eq_nil_of_length_eq_zero (by omega)
    subst this
    exact ⟨b, rfl, by simp [Written]⟩
  | one h0 hn h =>
    have ht : d.take n.toNat = d := List.take_of_length_le (by omega)
    have hr : d.drop n.toNat = [] := List.drop_of_length_le (by omega)
    obtain ⟨b', hb, rfl⟩ := store_eq (b := b) (d := d) h0 (by omega)
    refine ⟨_, ?_, written_of_le (by omega)⟩
    simp only [RingBuffer.scatter, ht, hr, hb, Option.bind_some, if_true]
  | two h0 h hT hn =>
    rcases le_or_gt (d.length : ℤ) (b.length - s) with hc | hc
    · have ht : d.take ((b.length : ℤ) - s).toNat = d := List.take_of_length_le (by omega)
      have hr : d.drop ((b.length : ℤ) - s).toNat = [] := List.drop_of_length_le (by omega)
      obtain ⟨b', hb, rfl⟩ := store_eq (b := b) (d := d) h0 (by omega)
      refine ⟨_, ?_, written_of_le (by omega)⟩
      simp only [RingBuffer.scatter, ht, hr, hb, hnil, List.take_nil, List.drop_nil,
        Option.bind_some, if_true]
    · have h1 : (d.take ((b.length : ℤ) - s).toNat).length = ((b.length : ℤ) - s).toNat := by
        rw [List.length_take]
        omega
      have h2 : (d.drop ((b.length : ℤ) - s).toNat).length ≤ s.toNat := by
        rw [List.length_drop]
        omega
      have ht : (d.drop ((b.length : ℤ) - s).toNat).take (s + n - b.length).toNat =
          d.drop ((b.length : ℤ) - s).toNat :=
        List.take_of_length_le (by rw [List.length_drop]; omega)
      have hr : (d.drop ((b.length : ℤ) - s).toNat).drop (s + n - b.length).toNat = [] :=
        List.drop_of_length_le (by rw [List.length_drop]; omega)
      obtain ⟨b₁, hb₁, e₁⟩ := store_eq (b := b) (d := d.take ((b.length : ℤ) - s).toNat) h0 (by omega)
      have e₁' : b₁ = b.take s.toNat ++ d.take ((b.length : ℤ) - s).toNat := by
        rw [e₁, List.drop_of_length_le (by omega), List.append_nil]
      obtain ⟨b₂, hb₂, e₂⟩ := store_eq (b := b₁) (d := d.drop ((b.length : ℤ) - s).toNat) (le_refl 0)
        (by rw [e₁', List.length_append, List.length_take]; omega)
      refine ⟨b₂, ?_, ?_⟩
      · simp only [RingBuffer.scatter, hb₁, hb₂, ht, hr, Option.bind_some, if_true]
      · have := written_of_lt (b := b) (w := s.toNat) (d := d.take ((b.length : ℤ) - s).toNat)
          (e := d.drop ((b.length : ℤ) - s).toNat) (by omega) h2
        rw [List.take_append_drop] at this
        rw [e₂, e₁']
        simpa using this

/-- What a walk over `n` places from behind index `i` on gives. -/
structure Walk (r : CRingBuffer) (i n : ℤ) (w : Span) : Prop where
  size : w.size = n
  arc : Arc r.iTotalSize (r.next i) n w.places
  stop : 0 ≤ w.stop ∧ w.stop < r.iTotalSize
  moved : i + n = w.stop ∨ i + n = w.stop + r.iTotalSize

lemma frontSpan_spec (h : WF r) (hn : 1 ≤ n) :
    Walk r r.iFront (min n r.getUseSize) (r.frontSpan n) := by
  obtain ⟨-, ⟨hf0, hf1⟩, ⟨hr0, hr1⟩⟩ := h
  by_cases he : r.iRear = r.iFront
  · have hu : r.getUseSize = 0 := by rw [getUseSize, if_pos he.symm]
    rw [frontSpan, if_pos he, hu, min_eq_right (by omega)]
    exact ⟨rfl, .none rfl, ⟨hf0, hf1⟩, .inl (by dsimp only; omega)⟩
  have hnext := next_eq hf0 hf1
  have hf : 0 ≤ r.next r.iFront ∧ r.next r.iFront < r.iTotalSize := by
    rw [hnext]
    split_ifs <;> omega
  -- the first piece goes to the end of what is in use, or to the end of the buffer
  have hd : r.ddeSize (r.next r.iFront) = min r.getUseSize (r.iTotalSize - r.next r.iFront) := by
    rw [ddeSize, getUseSize, if_neg (Ne.symm he), hnext]
    split_ifs <;> omega
  have hu : 1 ≤ r.getUseSize ∧ r.getUseSize < r.iTotalSize := by
    rw [getUseSize, if_neg (Ne.symm he)]
    split_ifs <;> omega
  have huse : r.iFront + r.getUseSize = r.iRear ∨
      r.iFront + r.getUseSize = r.iRear + r.iTotalSize := by
    rw [getUseSize, if_neg (Ne.symm he)]
    split_ifs <;> omega
  have hback : r.next r.iFront = r.iFront + 1 ∨
      r.next r.iFront = 0 ∧ r.iFront + 1 = r.iTotalSize := by
    rw [hnext]
    split_ifs <;> omega
  rw [frontSpan, if_neg he]
  simp only [hd]
  obtain ⟨f, hfe⟩ : ∃ f, r.next r.iFront = f := ⟨_, rfl⟩
  rw [hfe] at hf hd hback ⊢
  by_cases hs : n > min r.getUseSize (r.iTotalSize - f)
  · rw [if_pos hs]
    by_cases hl : r.iRear = f + min r.getUseSize (r.iTotalSize - f) - 1
    · rw [if_pos hl]
      have hm : min n r.getUseSize = min r.getUseSize (r.iTotalSize - f) := by omega
      rw [hm]
      exact ⟨rfl, by rw [hfe]; exact .one hf.1 (by omega) (by omega), ⟨by dsimp only; omega, by dsimp only; omega⟩,
        by dsimp only; omega⟩
    · rw [if_neg hl]
      have hm : min r.getUseSize (r.iTotalSize - f) = r.iTotalSize - f := by omega
      rw [hm]
      have h0 : r.next (f + (r.iTotalSize - f) - 1) = 0 := by
        rw [next_eq (by omega) (by omega), if_pos (by omega)]
      have hd0 : r.ddeSize 0 = r.iRear + 1 := by
        rw [ddeSize, if_neg (by omega)]
        omega
      rw [h0, hd0]
      have hn2 : min (n - (r.iTotalSize - f)) (r.iRear + 1) =
          f + min n r.getUseSize - r.iTotalSize := by omega
      rw [hn2]
      exact ⟨by dsimp only; omega, by rw [hfe]; exact .two hf.1 (by omega) (by omega) (by omega),
        ⟨by dsimp only; omega, by dsimp only; omega⟩, by dsimp only; omega⟩
  · rw [if_neg hs]
    have hm : min n r.getUseSize = n := by omega
    rw [hm]
    exact ⟨rfl, by rw [hfe]; exact .one hf.1 (by omega) (by omega), ⟨by dsimp only; omega, by dsimp only; omega⟩,
      by dsimp only; omega⟩

lemma rearSpan_spec (h : WF r) (hn : 1 ≤ n) :
    Walk r r.iRear (min n r.getFreeSize) (r.rearSpan n) := by
  have hfree := freeSize_eq h
  obtain ⟨hu0, hu1, huse⟩ := useSize_spec h
  obtain ⟨-, ⟨hf0, hf1⟩, ⟨hr0, hr1⟩⟩ := h
  obtain ⟨w, hwe⟩ : ∃ w, r.next r.iRear = w := ⟨_, rfl⟩
  have hw : 0 ≤ w ∧ w < r.iTotalSize ∧ (w = r.iRear + 1 ∨ w = 0 ∧ r.iRear + 1 = r.iTotalSize) := by
    rw [← hwe, next_eq hr0 hr1]
    split_ifs <;> omega
  rw [rearSpan, hwe]
  by_cases he : r.iFront = w
  · rw [if_pos he, min_eq_right (by omega), show r.getFreeSize = 0 by omega]
    exact ⟨rfl, .none rfl, ⟨hr0, hr1⟩, .inl (by dsimp only; omega)⟩
  rw [if_neg he]
  -- the first piece goes to the place before `iFront`, or to the end of the buffer
  have hd : r.deSize w 0 = min r.getFreeSize (r.iTotalSize - w) := by
    rw [deSize]
    split_ifs <;> omega
  simp only [hd]
  by_cases hs : n > min r.getFreeSize (r.iTotalSize - w)
  · rw [if_pos hs]
    have hnext := next_eq (r := r) (i := w + (min r.getFreeSize (r.iTotalSize - w) - 1))
      (by omega) (by omega)
    by_cases hl : r.next (w + (min r.getFreeSize (r.iTotalSize - w) - 1)) = r.iFront
    · rw [if_pos hl]
      have hm : min n r.getFreeSize = min r.getFreeSize (r.iTotalSize - w) := by
        rw [hl] at hnext
        split_ifs at hnext <;> omega
      rw [hm]
      exact ⟨rfl, by rw [hwe]; exact .one hw.1 (by omega) (by omega),
        ⟨by dsimp only; omega, by dsimp only; omega⟩, by dsimp only; omega⟩
    · rw [if_neg hl]
      have hm : min r.getFreeSize (r.iTotalSize - w) = r.iTotalSize - w := by
        rw [hnext] at hl
        split_ifs at hl <;> omega
      have h0 : r.next (w + (r.iTotalSize - w - 1)) = 0 := by
        rw [next_eq (by omega) (by omega), if_pos (by omega)]
      rw [hm, h0] at hl
      have hd0 : r.deSize 0 (r.iTotalSize - w) = r.iFront := by
        rw [deSize, if_neg (by omega), if_pos (by omega)]
        omega
      rw [hm, h0, hd0]
      have hn2 : min (n - (r.iTotalSize - w)) r.iFront = w + min n r.getFreeSize - r.iTotalSize := by
        omega
      rw [hn2]
      exact ⟨by dsimp only; omega, by rw [hwe]; exact .two hw.1 (by omega) (by omega) (by omega),
        ⟨by dsimp only; omega, by dsimp only; omega⟩, by dsimp only; omega⟩
  · rw [if_neg hs]
    have hm : min n r.getFreeSize = n := by omega
    rw [hm]
    exact ⟨rfl, by rw [hwe]; exact .one hw.1 (by omega) (by omega),
      ⟨by dsimp only; omega, by dsimp only; omega⟩, by dsimp only; omega⟩

/-- The two sizes are the way to the end of the buffer, or to the end of the free or used bytes. -/
lemma directEnqueueSize_eq (h : WF r) :
    r.directEnqueueSize = min r.getFreeSize (r.iTotalSize - r.getRearBufferPtr) := by
  have hfree := freeSize_eq h
  obtain ⟨hu0, hu1, huse⟩ := useSize_spec h
  obtain ⟨-, ⟨hf0, hf1⟩, ⟨hr0, hr1⟩⟩ := h
  rw [directEnqueueSize, getRearBufferPtr, next_eq hr0 hr1]
  split_ifs <;> omega

lemma directDequeueSize_eq (h : WF r) :
    r.directDequeueSize = min r.getUseSize (r.iTotalSize - r.getFrontBufferPtr) := by
  obtain ⟨hu0, hu1, huse⟩ := useSize_spec h
  obtain ⟨-, ⟨hf0, hf1⟩, ⟨hr0, hr1⟩⟩ := h
  rw [directDequeueSize, getFrontBufferPtr, next_eq hf0 hf1]
  dsimp only
  split_ifs <;> omega

lemma next_toNat (h : WF r) {i : ℤ} (h0 : 0 ≤ i) (hi : i < r.iTotalSize) :
    (r.next i).toNat = (i + 1).toNat % r.buffer.length := by
  have := h.total
  rw [next_eq h0 hi]
  split
  · rw [show (i + 1).toNat = r.buffer.length by omega, Nat.mod_self]
    rfl
  · rw [Nat.mod_eq_of_lt (by omega)]

/-- Places that agree up to a turn of the ring start the same windows. -/
lemma window_turn {b : List UInt8} {i j : ℕ} (h : i = j ∨ i = j + b.length) (n : ℕ) :
    window b i n = window b j n := by
  obtain rfl | rfl := h
  · rfl
  · rw [← window_mod, Nat.add_mod_right, window_mod]

/-- `iFront` moves over the first `k` bytes. -/
lemma drop_front (h : WF r) {k stop : ℤ} (h0 : 0 ≤ k) (hk : k ≤ r.getUseSize)
    (hs : 0 ≤ stop ∧ stop < r.iTotalSize)
    (hm : r.iFront + k = stop ∨ r.iFront + k = stop + r.iTotalSize) :
    WF { r with iFront := stop } ∧
      contents { r with iFront := stop } = r.contents.drop k.toNat := by
  obtain ⟨hu0, hu1, huse⟩ := useSize_spec h
  have hw : WF { r with iFront := stop } := ⟨h.total, hs, h.rear⟩
  refine ⟨hw, ?_⟩
  have hu : getUseSize { r with iFront := stop } = r.getUseSize - k := by
    apply useSize_unique hw (by omega)
    · dsimp only
      omega
    · have := h.rear
      have := h.front
      dsimp only
      omega
  have ht := h.total
  have hf := h.front
  rw [contents, contents, hu, drop_window (by omega) (by omega)]
  rw [window_turn (b := r.buffer) (i := (r.iFront + 1).toNat + k.toNat) (j := (stop + 1).toNat)
    (by omega)]
  congr 1
  omega

/-- `d` is written into the free bytes and `iRear` moves over it. -/
lemma append_rear (h : WF r) {b' d : List UInt8} {stop : ℤ} (hd : d.length ≤ r.getFreeSize)
    (hW : Written r.buffer b' d (r.next r.iRear).toNat) (hs : 0 ≤ stop ∧ stop < r.iTotalSize)
    (hm : r.iRear + d.length = stop ∨ r.iRear + d.length = stop + r.iTotalSize) :
    WF { r with buffer := b', iRear := stop } ∧
      contents { r with buffer := b', iRear := stop } = r.contents ++ d := by
  have hfree := freeSize_eq h
  obtain ⟨hu0, hu1, huse⟩ := useSize_spec h
  have ht := h.total
  have hf := h.front
  have hr := h.rear
  have hlen : b'.length = r.buffer.length := hW.length (by omega)
  have hw : WF { r with buffer := b', iRear := stop } := ⟨by dsimp only; omega, h.front, hs⟩
  refine ⟨hw, ?_⟩
  have hu : getUseSize { r with buffer := b', iRear := stop } = r.getUseSize + d.length := by
    apply useSize_unique hw (by omega)
    · dsimp only
      omega
    · dsimp only
      omega
  have hplace : (r.next r.iRear).toNat =
      ((r.iFront + 1).toNat + r.getUseSize.toNat) % r.buffer.length := by
    rw [next_toNat h hr.1 hr.2]
    rcases huse with he | he
    · congr 1
      omega
    · rw [show (r.iFront + 1).toNat + r.getUseSize.toNat = (r.iRear + 1).toNat + r.buffer.length by
        omega, Nat.add_mod_right]
  rw [hplace] at hW
  rw [contents, contents, hu, ← hW.window (by omega)]
  congr 1
  omega

/-! ### The operations -/

lemma gather_front (h : WF r) (hn : 1 ≤ n) :
    gather r.buffer (r.frontSpan n).places = some (r.contents.take n.toNat) := by
  have hs := frontSpan_spec h hn
  have hu := useSize_spec h
  have harc := hs.arc
  rw [h.total] at harc
  rw [harc.gather, next_toNat h h.front.1 h.front.2, window_mod, contents]
  rcases le_total n r.getUseSize with hc | hc
  · rw [min_eq_left hc, take_window (by omega)]
  · rw [min_eq_right hc, List.take_of_length_le]
    rw [length_window (by have := h.total; omega)]
    omega

lemma peek_eq (h : WF r) (hn : 1 ≤ n) : r.peek n = some (r.contents.take n.toNat) :=
  gather_front h hn

lemma moveFront_eq (h : WF r) (hn : 1 ≤ n) : (r.moveFront n).1 = min n r.getUseSize ∧
    WF (r.moveFront n).2 ∧ (r.moveFront n).2.contents = r.contents.drop n.toNat := by
  have hs := frontSpan_spec h hn
  have hu := useSize_spec h
  obtain ⟨h1, h2⟩ := drop_front h (by omega) (min_le_right _ _) hs.stop hs.moved
  refine ⟨hs.size, h1, ?_⟩
  rw [moveFront, h2]
  rcases le_total n r.getUseSize with hc | hc
  · rw [min_eq_left hc]
  · have := length_contents h
    rw [min_eq_right hc, List.drop_of_length_le (by omega), List.drop_of_length_le (by omega)]

lemma dequeue_eq (h : WF r) (hn : 1 ≤ n) :
    r.dequeue n = some (r.contents.take n.toNat, (r.moveFront n).2) := by
  rw [dequeue, gather_front h hn]
  rfl

lemma length_spare (h : WF r) : (r.spare.length : ℤ) = r.getFreeSize := by
  have h1 := freeSize_eq h
  obtain ⟨h2, h3, -⟩ := useSize_spec h
  have := h.total
  rw [spare, length_window (by omega)]
  omega

lemma moveRear_eq (h : WF r) (hn : 1 ≤ n) : (r.moveRear n).1 = min n r.getFreeSize ∧
    WF (r.moveRear n).2 ∧ (r.moveRear n).2.contents = r.contents ++ r.spare.take n.toNat := by
  have hs := rearSpan_spec h hn
  have hsp := length_spare h
  have hlen : ((r.spare.take n.toNat).length : ℤ) = min n r.getFreeSize := by
    rw [List.length_take]
    omega
  have hW : Written r.buffer r.buffer (r.spare.take n.toNat) (r.next r.iRear).toNat := by
    rw [Written, next_toNat h h.rear.1 h.rear.2, List.rotate_mod, spare]
    rcases le_total n.toNat r.getFreeSize.toNat with hc | hc
    · rw [take_window hc, window, List.length_take, List.length_rotate]
      have := freeSize_eq h
      have := useSize_spec h
      have := h.total
      rw [min_eq_left (by omega), List.take_append_drop]
    · have := freeSize_eq h
      have := useSize_spec h
      have := h.total
      rw [List.take_of_length_le (by rw [length_window] <;> omega), length_window (by omega), window,
        List.take_append_drop]
  obtain ⟨h1, h2⟩ := append_rear h (by omega) hW hs.stop (by rw [hlen]; exact hs.moved)
  exact ⟨hs.size, h1, h2⟩

lemma enqueue_eq (h : WF r) (hn : 1 ≤ n) (hd : n ≤ d.length) :
    ∃ r', r.enqueue d n = some (min n r.getFreeSize, r') ∧ WF r' ∧
      r'.iTotalSize = r.iTotalSize ∧
      r'.contents = r.contents ++ d.take (min n r.getFreeSize).toNat := by
  have hs := rearSpan_spec h hn
  have hfree := freeSize_eq h
  obtain ⟨hu0, hu1, -⟩ := useSize_spec h
  have hload : load d 0 (r.rearSpan n).size = some (d.take (min n r.getFreeSize).toNat) := by
    rw [hs.size, load, if_pos ⟨by omega, by omega, by omega⟩]
    rfl
  rw [hs.size] at hload
  have hlen : ((d.take (min n r.getFreeSize).toNat).length : ℤ) = min n r.getFreeSize := by
    rw [List.length_take]
    omega
  have harc := hs.arc
  rw [h.total] at harc
  obtain ⟨b', hb', hW⟩ := harc.scatter (d := d.take (min n r.getFreeSize).toNat) hlen.le
  obtain ⟨h1, h2⟩ := append_rear h (by omega) hW hs.stop (by rw [hlen]; exact hs.moved)
  refine ⟨_, ?_, h1, rfl, h2⟩
  rw [enqueue]
  simp only [hload, hb', Option.bind_some, Option.map_some, hs.size]

end CRingBuffer

end LoginServerChat.RingBuffer
