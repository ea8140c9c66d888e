import LoginServerChat.RingResize

/-!
Calls of size zero. Each of them puts an index at `start + size - 1`, where `start` is the place
behind the index, taken modulo the number of slots. For an index on the last slot that is `-1`.
-/

namespace LoginServerChat.RingZero

open NetPacket RingBuffer CRingBuffer RingFifo RingResize

/-- The four calls that move an index, of size zero. -/
def ZeroLength : Call → Prop
  | .enqueue _ n | .dequeue n | .moveRear n | .moveFront n => n = 0
  | .peek _ | .clearBuffer => False

def InRange (r : CRingBuffer) : Prop :=
  (0 ≤ r.iFront ∧ r.iFront < r.iTotalSize) ∧ 0 ≤ r.iRear ∧ r.iRear < r.iTotalSize

/-- The call returns 0 and leaves the queue as it was. -/
structure NoOp (r : CRingBuffer) (x : Call) (r' : CRingBuffer) : Prop where
  returns : call r x = some (⟨0, []⟩, r')
  range : InRange r'
  use : r'.getUseSize = r.getUseSize
  free : r'.getFreeSize = r.getFreeSize
  later : ∀ xs, (operateAll r' xs).map (·.1) = (operateAll r xs).map (·.1)

/-- The call is refused, or the index that it starts from is not on the last slot. -/
def Spared (r : CRingBuffer) : Call → Prop
  | .enqueue _ _ | .moveRear _ => r.iFront = r.next r.iRear ∨ r.iRear + 1 ≠ r.iTotalSize
  | .dequeue _ | .moveFront _ => r.iFront = r.iRear ∨ r.iFront + 1 ≠ r.iTotalSize
  | .peek _ | .clearBuffer => True

/-- What holds of a ring after any calls, of any size: no index gets past the last slot. -/
structure Loose (r : CRingBuffer) : Prop where
  total : r.iTotalSize = r.buffer.length
  front : r.iFront < r.iTotalSize
  rear : r.iRear < r.iTotalSize
  pos : 0 < r.iTotalSize

variable {r r' : CRingBuffer} {C : ℕ} {x : Call} {n : ℤ}

/-! ### Any calls -/

lemma next_lt (h : Loose r) (i : ℤ) : r.next i < r.iTotalSize := Int.tmod_lt_of_pos _ h.pos

lemma frontSpan_stop_lt (h : Loose r) : (r.frontSpan n).stop < r.iTotalSize := by
  have hf := h.front
  have hr := h.rear
  have hd : ∀ f, f < r.iTotalSize → f + r.ddeSize f ≤ r.iTotalSize := by
    intro f hlt
    unfold ddeSize
    split_ifs <;> omega
  unfold frontSpan
  split_ifs with he
  · exact hf
  · dsimp only
    have h1 := next_lt h r.iFront
    have h2 := hd _ h1
    split_ifs
    · dsimp only
      omega
    · dsimp only
      have h3 := next_lt h (r.next r.iFront + r.ddeSize (r.next r.iFront) - 1)
      have h4 := hd _ h3
      omega
    · dsimp only
      omega

lemma deSize_le (h : Loose r) {w : ℤ} (hw : w < r.iTotalSize) (hne : r.iFront ≠ w) (m : ℤ) :
    0 < r.deSize w m ∧ w + r.deSize w m ≤ r.iTotalSize := by
  have hf := h.front
  unfold deSize
  split_ifs <;> omega

lemma rearSpan_stop_lt (h : Loose r) : (r.rearSpan n).stop < r.iTotalSize := by
  unfold rearSpan
  dsimp only
  split_ifs with he h2 h3
  · exact h.rear
  all_goals have h1 := deSize_le h (next_lt h r.iRear) he 0
  · dsimp only
    omega
  · have h4 := deSize_le h (next_lt h (r.next r.iRear + (r.deSize (r.next r.iRear) 0 - 1)))
      (Ne.symm h3) (r.deSize (r.next r.iRear) 0)
    dsimp only
    omega
  · dsimp only
    omega

lemma length_store {b b' d : List UInt8} {off : ℤ} (h : store b off d = some b') :
    b'.length = b.length := by
  unfold store Packet.poke at h
  split_ifs at h
  obtain rfl := Option.some.inj h
  simp only [List.length_append, List.length_take, List.length_drop]
  omega

lemma length_scatter {ps : List (ℤ × ℤ)} {b b' d : List UInt8} (h : scatter b ps d = some b') :
    b'.length = b.length := by
  induction ps generalizing b d with
  | nil =>
    unfold scatter at h
    split_ifs at h
    exact congrArg List.length (Option.some.inj h).symm
  | cons p ps ih =>
    simp only [scatter, Option.bind_eq_some_iff] at h
    obtain ⟨b₁, h1, h2⟩ := h
    rw [ih h2, length_store h1]

lemma enqueue_loose (h : Loose r) {d : List UInt8} {k : ℤ} (he : r.enqueue d n = some (k, r')) :
    Loose r' := by
  simp only [enqueue, Option.bind_eq_some_iff, Option.map_eq_some_iff, Prod.mk.injEq] at he
  obtain ⟨e, -, b, hb, -, rfl⟩ := he
  have ht := h.total
  exact ⟨by rw [length_scatter hb]; exact ht, h.front, rearSpan_stop_lt h, h.pos⟩

lemma resize_loose (h : Loose r) {fresh : ℕ → UInt8} (hr : r.resize fresh n = some r') :
    Loose r' := by
  have hf := h.front
  have hre := h.rear
  have hp := h.pos
  unfold resize at hr
  split_ifs at hr with h1 h2
  · exact Option.some.inj hr ▸ h
  · simp only [Option.bind_eq_some_iff, Option.map_eq_some_iff] at hr
    obtain ⟨d, -, b, hb, rfl⟩ := hr
    have hlen := length_store hb
    rw [List.length_map, List.length_range] at hlen
    refine ⟨?_, ?_, ?_, ?_⟩ <;> dsimp only <;> omega

/-- **One call**, of any size. -/
lemma operate_loose (h : Loose r) {x : Op} {rep : Reply} (ho : operate r x = some (rep, r')) :
    Loose r' := by
  cases x with
  | resize fresh n =>
    simp only [operate, Option.map_eq_some_iff, Prod.mk.injEq] at ho
    obtain ⟨r₁, h1, -, rfl⟩ := ho
    exact resize_loose h h1
  | call x =>
    rw [operate] at ho
    cases x with
    | enqueue d n =>
      simp only [call, Option.map_eq_some_iff, Prod.mk.injEq] at ho
      obtain ⟨⟨k, r₁⟩, h1, -, rfl⟩ := ho
      exact enqueue_loose h h1
    | dequeue n =>
      simp only [call, dequeue, Option.map_map, Option.map_eq_some_iff, Function.comp_apply,
        Prod.mk.injEq] at ho
      obtain ⟨d, -, -, rfl⟩ := ho
      exact ⟨h.total, frontSpan_stop_lt h, h.rear, h.pos⟩
    | peek n =>
      simp only [call, Option.map_eq_some_iff, Prod.mk.injEq] at ho
      obtain ⟨d, -, -, rfl⟩ := ho
      exact h
    | moveRear n =>
      simp only [call, Option.some.injEq, Prod.mk.injEq] at ho
      obtain ⟨-, rfl⟩ := ho
      exact ⟨h.total, h.front, rearSpan_stop_lt h, h.pos⟩
    | moveFront n =>
      simp only [call, Option.some.injEq, Prod.mk.injEq] at ho
      obtain ⟨-, rfl⟩ := ho
      exact ⟨h.total, frontSpan_stop_lt h, h.rear, h.pos⟩
    | clearBuffer =>
      simp only [call, Option.some.injEq, Prod.mk.injEq] at ho
      obtain ⟨-, rfl⟩ := ho
      exact ⟨h.total, h.pos, h.pos, h.pos⟩

lemma operateAll_loose {xs : List Op} (h : Loose r) {out : List Reply}
    (ho : operateAll r xs = some (out, r')) : Loose r' := by
  induction xs generalizing r out with
  | nil =>
    rw [operateAll, Option.some.injEq, Prod.mk.injEq] at ho
    exact ho.2 ▸ h
  | cons x xs ih =>
    simp only [operateAll, Option.bind_eq_some_iff, Option.map_eq_some_iff] at ho
    obtain ⟨⟨rep, r₁⟩, h1, ⟨out₁, r₂⟩, h2, h3⟩ := ho
    rw [Prod.mk.injEq] at h3
    obtain ⟨-, rfl⟩ := h3
    exact ih (operate_loose h h1) h2

lemma construct_loose {mem : List UInt8} (hm : mem.length = C + 1) : Loose (construct mem C) := by
  have hT : (construct mem C).iTotalSize = C + 1 := rfl
  refine ⟨?_, ?_, ?_, ?_⟩
  · rw [hT, construct, hm]
    push_cast
    rfl
  · rw [hT, construct]
    dsimp only
    omega
  · rw [hT, construct]
    dsimp only
    omega
  · rw [hT]
    omega

/-! ### Calls of size zero -/

/-- The index stops one slot before the place that the call starts from. -/
lemma rearSpan_zero (h : Loose r) : r.rearSpan 0 =
    if r.iFront = r.next r.iRear then ⟨[], r.iRear, 0⟩
    else ⟨[(r.next r.iRear, 0)], r.next r.iRear - 1, 0⟩ := by
  unfold rearSpan
  dsimp only
  by_cases he : r.iFront = r.next r.iRear
  · rw [if_pos he, if_pos he]
  · have := deSize_le h (next_lt h r.iRear) he 0
    rw [if_neg he, if_neg he, if_neg (by omega), zero_sub, ← Int.sub_eq_add_neg]

lemma frontSpan_zero (h : Loose r) : r.frontSpan 0 =
    if r.iFront = r.iRear then ⟨[], r.iFront, 0⟩
    else ⟨[(r.next r.iFront, 0)], r.next r.iFront - 1, 0⟩ := by
  have hlt := next_lt h r.iFront
  unfold frontSpan
  by_cases he : r.iRear = r.iFront
  · rw [if_pos he, if_pos he.symm]
  · have : 0 < r.ddeSize (r.next r.iFront) := by
      unfold ddeSize
      split_ifs <;> omega
    rw [if_neg he, if_neg (Ne.symm he)]
    dsimp only
    rw [if_neg (by omega), add_zero]

/-- Where the index is when a call of size zero is over. -/
lemma next_sub_one {i : ℤ} (h0 : 0 ≤ i) (hi : i < r.iTotalSize) (hne : i + 1 ≠ r.iTotalSize) :
    r.next i - 1 = i := by
  rw [next_eq h0 hi, if_neg hne]
  omega

/-- An index is left in the buffer only if it was in the buffer, and not on the last slot. -/
lemma of_next_sub_one {i : ℤ} (h : 0 ≤ r.next i - 1) :
    0 ≤ i ∧ i + 1 ≠ r.iTotalSize := by
  unfold next at h
  refine ⟨?_, fun he => ?_⟩
  · by_contra hi
    have := Int.tmod_nonneg r.iTotalSize (show 0 ≤ -(i + 1) by omega)
    rw [Int.neg_tmod] at this
    omega
  · rw [he, Int.tmod_self] at h
    omega

lemma store_nil {b : List UInt8} {off : ℤ} (h0 : 0 ≤ off) (h : off ≤ b.length) :
    store b off [] = some b := by
  rw [store, if_pos h0, Packet.poke, if_pos (by rw [List.length_nil]; omega), List.append_nil,
    List.length_nil, Nat.add_zero, List.take_append_drop]

/-- At the rear, nothing is stored and the index stays. -/
lemma rear_still (h : Loose r) (hr : InRange r)
    (hs : r.iFront = r.next r.iRear ∨ r.iRear + 1 ≠ r.iTotalSize) :
    (r.rearSpan 0).size = 0 ∧ (r.rearSpan 0).stop = r.iRear ∧
      scatter r.buffer (r.rearSpan 0).places [] = some r.buffer := by
  rw [rearSpan_zero h]
  split_ifs with he
  · exact ⟨rfl, rfl, rfl⟩
  · have hne := hs.resolve_left he
    have hn := next_sub_one hr.2.1 hr.2.2 hne
    have ht := h.total
    have hr1 := hr.2
    refine ⟨rfl, hn, ?_⟩
    rw [scatter, List.take_nil, store_nil (by omega) (by omega)]
    rfl

/-- At the front, nothing is loaded and the index stays. -/
lemma front_still (h : Loose r) (hr : InRange r)
    (hs : r.iFront = r.iRear ∨ r.iFront + 1 ≠ r.iTotalSize) :
    (r.frontSpan 0).size = 0 ∧ (r.frontSpan 0).stop = r.iFront ∧
      gather r.buffer (r.frontSpan 0).places = some [] := by
  rw [frontSpan_zero h]
  split_ifs with he
  · exact ⟨rfl, rfl, rfl⟩
  · have hne := hs.resolve_left he
    have hn := next_sub_one hr.1.1 hr.1.2 hne
    have ht := h.total
    have hr1 := hr.1
    refine ⟨rfl, hn, ?_⟩
    rw [gather, load, if_pos (by omega)]
    rfl

/-- A call that is spared does nothing. -/
lemma call_spared (h : Loose r) (hz : ZeroLength x) (hr : InRange r) (hs : Spared r x) :
    call r x = some (⟨0, []⟩, r) := by
  cases x with
  | enqueue d n =>
    obtain rfl : n = 0 := hz
    obtain ⟨h1, h2, h3⟩ := rear_still h hr hs
    have hload : load d 0 0 = some [] := by
      rw [load, if_pos (by omega)]
      rfl
    rw [call, enqueue]
    rw [h1, hload, Option.bind_some, h3, h2]
    rfl
  | dequeue n =>
    obtain rfl : n = 0 := hz
    obtain ⟨h1, h2, h3⟩ := front_still h hr hs
    rw [call, dequeue, h1, h2, h3]
    rfl
  | moveRear n =>
    obtain rfl : n = 0 := hz
    obtain ⟨h1, h2, -⟩ := rear_still h hr hs
    rw [call, moveRear, h1, h2]
  | moveFront n =>
    obtain rfl : n = 0 := hz
    obtain ⟨h1, h2, -⟩ := front_still h hr hs
    rw [call, moveFront, h1, h2]
  | peek n => exact absurd hz id
  | clearBuffer => exact absurd hz id

/-- A call that leaves the rear index in the buffer found it there, and was spared. -/
lemma rear_spared (h : Loose r) (h0 : 0 ≤ (r.rearSpan 0).stop) :
    0 ≤ r.iRear ∧ (r.iFront = r.next r.iRear ∨ r.iRear + 1 ≠ r.iTotalSize) := by
  rw [rearSpan_zero h] at h0
  split_ifs at h0 with he
  · exact ⟨h0, .inl he⟩
  · obtain ⟨h1, h2⟩ := of_next_sub_one h0
    exact ⟨h1, .inr h2⟩

lemma front_spared (h : Loose r) (h0 : 0 ≤ (r.frontSpan 0).stop) :
    0 ≤ r.iFront ∧ (r.iFront = r.iRear ∨ r.iFront + 1 ≠ r.iTotalSize) := by
  rw [frontSpan_zero h] at h0
  split_ifs at h0 with he
  · exact ⟨h0, .inl he⟩
  · obtain ⟨h1, h2⟩ := of_next_sub_one h0
    exact ⟨h1, .inr h2⟩

lemma spared_of_range (h : Loose r) (hz : ZeroLength x) {rep : Reply}
    (hc : call r x = some (rep, r')) (hr : InRange r') : InRange r ∧ Spared r x := by
  have hf := h.front
  have hre := h.rear
  cases x with
  | enqueue d n =>
    obtain rfl : n = 0 := hz
    simp only [call, enqueue, Option.map_eq_some_iff, Option.bind_eq_some_iff, Prod.mk.injEq] at hc
    obtain ⟨⟨k, r₁⟩, ⟨e, -, b, -, -, rfl⟩, -, rfl⟩ := hc
    obtain ⟨h1, h2⟩ := rear_spared h hr.2.1
    exact ⟨⟨hr.1, h1, hre⟩, h2⟩
  | dequeue n =>
    obtain rfl : n = 0 := hz
    simp only [call, dequeue, Option.map_map, Option.map_eq_some_iff, Function.comp_apply,
      Prod.mk.injEq] at hc
    obtain ⟨d, -, -, rfl⟩ := hc
    obtain ⟨h1, h2⟩ := front_spared h hr.1.1
    exact ⟨⟨⟨h1, hf⟩, hr.2⟩, h2⟩
  | moveRear n =>
    obtain rfl : n = 0 := hz
    simp only [call, Option.some.injEq, Prod.mk.injEq] at hc
    obtain ⟨-, rfl⟩ := hc
    obtain ⟨h1, h2⟩ := rear_spared h hr.2.1
    exact ⟨⟨hr.1, h1, hre⟩, h2⟩
  | moveFront n =>
    obtain rfl : n = 0 := hz
    simp only [call, Option.some.injEq, Prod.mk.injEq] at hc
    obtain ⟨-, rfl⟩ := hc
    obtain ⟨h1, h2⟩ := front_spared h hr.1.1
    exact ⟨⟨⟨h1, hf⟩, hr.2⟩, h2⟩
  | peek n => exact absurd hz id
  | clearBuffer => exact absurd hz id

/-- **Calls of size zero.** After any calls, such a call does nothing exactly if the indices are in
the buffer and it is refused or starts from an index that is not on the last slot. -/
theorem zero_noOp_iff {mem : List UInt8} (hm : mem.length = C + 1) {xs : List Op} {out : List Reply}
    (h : operateAll (construct mem C) xs = some (out, r)) (hz : ZeroLength x) :
    (∃ r', NoOp r x r') ↔ InRange r ∧ Spared r x := by
  have hl := operateAll_loose (construct_loose hm) h
  constructor
  · rintro ⟨r', h1, h2, -, -, -⟩
    exact spared_of_range hl hz h1 h2
  · rintro ⟨hr, hs⟩
    exact ⟨r, call_spared hl hz hr hs, hr, rfl, rfl, fun _ => rfl⟩

/-- An empty ring whose indices are on the slot before the last. -/
def twoThrough : List Op := [.call (.enqueue [1, 2] 2), .call (.dequeue 2)]

theorem zero_noOp_midway : ∃ out r, operateAll (construct [0, 0, 0, 0] (3 : ℕ)) twoThrough =
    some (out, r) ∧ ∃ r', NoOp r (.enqueue [] 0) r' := by
  have h : ∃ z, operateAll (construct [0, 0, 0, 0] (3 : ℕ)) twoThrough = some z ∧
      z.2.iFront = 2 ∧ z.2.iRear = 2 ∧ z.2.iTotalSize = 4 := ⟨_, rfl, by decide, by decide, by decide⟩
  obtain ⟨⟨out, r⟩, h1, h2, h3, h4⟩ := h
  dsimp only at h2 h3 h4
  refine ⟨out, r, h1, ?_⟩
  apply (zero_noOp_iff (C := 3) (x := .enqueue [] 0) (show [0, 0, 0, 0].length = _ from rfl) h1
    rfl).mpr
  unfold InRange Spared
  rw [h2, h3, h4]
  exact ⟨by decide, .inr (by decide)⟩

/-- An empty ring whose indices are on the last slot. -/
def lastSlot : CRingBuffer := ⟨[0, 1, 2, 3], 3, 3, 4⟩

/-- `Enqueue` of nothing leaves its index at `-1`, and a byte can then be read from the empty
queue. -/
theorem zero_moves :
    (∃ out, operateAll (construct [0, 0, 0, 0] (3 : ℕ))
      [.call (.enqueue [1, 2, 3] 3), .call (.dequeue 3)] = some (out, lastSlot)) ∧
    call lastSlot (.enqueue [] 0) = some (⟨0, []⟩, { lastSlot with iRear := -1 }) ∧
    (operateAll lastSlot [.call (.dequeue 1)]).map (·.1) = some [⟨0, []⟩] ∧
    (operateAll { lastSlot with iRear := -1 } [.call (.dequeue 1)]).map (·.1) = some [⟨1, [0]⟩] ∧
    ¬ ∃ r', NoOp lastSlot (.enqueue [] 0) r' := by
  have hcall : call lastSlot (.enqueue [] 0) = some (⟨0, []⟩, { lastSlot with iRear := -1 }) := rfl
  refine ⟨⟨_, rfl⟩, hcall, rfl, rfl, ?_⟩
  rintro ⟨r', h1, h2, -, -, -⟩
  rw [hcall, Option.some.injEq, Prod.mk.injEq] at h1
  obtain ⟨-, rfl⟩ := h1
  exact absurd h2.2.1 (by decide)

end LoginServerChat.RingZero
