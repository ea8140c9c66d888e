import LoginServerChat.RingBuffer

/-!
The ring as a bounded queue of bytes. A run of calls on the ring answers as the same calls on a
list do, and stays inside the buffer. The indices never leave `0 .. iTotalSize`, so that the
integers below are exact for every capacity whose `iTotalSize` fits an `int`.
-/

namespace LoginServerChat.RingFifo

open RingBuffer CRingBuffer Circular

inductive Call
  | enqueue (chpData : List UInt8) (iSize : ℤ)
  | dequeue (iSize : ℤ)
  | peek (iSize : ℤ)
  | moveRear (iSize : ℤ)
  | moveFront (iSize : ℤ)
  | clearBuffer

/-- What a call returns, and what it copies out. -/
structure Reply where
  count : ℤ
  bytes : List UInt8
  deriving DecidableEq

/-- A call of positive size, with a source as long as the size says. -/
def Call.Proper : Call → Prop
  | .enqueue d n => 1 ≤ n ∧ n ≤ d.length
  | .dequeue n | .peek n | .moveRear n | .moveFront n => 1 ≤ n
  | .clearBuffer => True

instance (x : Call) : Decidable x.Proper := by
  cases x <;> unfold Call.Proper <;> infer_instance

/-- A call on the ring, which has no result when it leaves the buffer. -/
def call (r : CRingBuffer) : Call → Option (Reply × CRingBuffer)
  | .enqueue d n => (r.enqueue d n).map fun x => (⟨x.1, []⟩, x.2)
  | .dequeue n => (r.dequeue n).map fun x => (⟨(r.frontSpan n).size, x.1⟩, x.2)
  | .peek n => (r.peek n).map fun x => (⟨(r.frontSpan n).size, x⟩, r)
  | .moveRear n => some (⟨(r.moveRear n).1, []⟩, (r.moveRear n).2)
  | .moveFront n => some (⟨(r.moveFront n).1, []⟩, (r.moveFront n).2)
  | .clearBuffer => some (⟨0, []⟩, r.clearBuffer)

def exec (r : CRingBuffer) : List Call → Option (List Reply × CRingBuffer)
  | [] => some ([], r)
  | x :: xs => (call r x).bind fun y => (exec y.2 xs).map fun z => (y.1 :: z.1, z.2)

/-- A call on a queue of at most `C` bytes; `slots` are the bytes that lie behind the queue. -/
def fifo (C : ℕ) (q slots : List UInt8) : Call → Reply × List UInt8
  | .enqueue d n => (⟨min n (C - q.length), []⟩, q ++ d.take (min n (C - q.length)).toNat)
  | .dequeue n => (⟨min n q.length, q.take n.toNat⟩, q.drop n.toNat)
  | .peek n => (⟨min n q.length, q.take n.toNat⟩, q)
  | .moveRear n => (⟨min n (C - q.length), []⟩, q ++ slots.take (min n (C - q.length)).toNat)
  | .moveFront n => (⟨min n q.length, []⟩, q.drop n.toNat)
  | .clearBuffer => (⟨0, []⟩, [])

def fifoRun (C : ℕ) (q : List UInt8) : List (Call × List UInt8) → List Reply × List UInt8
  | [] => ([], q)
  | (x, slots) :: xs =>
    let y := fifo C q slots x
    let z := fifoRun C y.2 xs
    (y.1 :: z.1, z.2)

/-- The calls, each with what lies in the free slots of the ring before it. -/
def withSlots (r : CRingBuffer) : List Call → List (Call × List UInt8)
  | [] => []
  | x :: xs => (x, r.spare) ::
    match call r x with
    | some y => withSlots y.2 xs
    | none => []

/-- The slots in use, and the slots that can be filled. -/
def Used (r : CRingBuffer) (i : ℤ) : Prop :=
  ∃ j, 0 ≤ j ∧ j < r.getUseSize ∧ i = (r.iFront + 1 + j) % r.iTotalSize
def Free (r : CRingBuffer) (i : ℤ) : Prop :=
  ∃ j, 0 ≤ j ∧ j < r.getFreeSize ∧ i = (r.iRear + 1 + j) % r.iTotalSize

/-- `n` is the length of the run of `P` that starts at slot `p` of `T` slots. -/
structure IsRun (P : ℤ → Prop) (T p n : ℤ) : Prop where
  nonneg : 0 ≤ n
  inside : 0 ≤ p ∧ p + n ≤ T
  all : ∀ i, p ≤ i → i < p + n → P i
  longest : p + n < T → ¬ P (p + n)

structure Sized (C : ℕ) (r : CRingBuffer) : Prop where
  length : r.buffer.length = C + 1
  front : 0 ≤ r.iFront ∧ r.iFront < r.iTotalSize
  rear : 0 ≤ r.iRear ∧ r.iRear < r.iTotalSize
  use : r.getUseSize = r.contents.length
  sum : r.getUseSize + r.getFreeSize = C
  direct : IsRun (Free r) r.iTotalSize r.getRearBufferPtr r.directEnqueueSize ∧
    IsRun (Used r) r.iTotalSize r.getFrontBufferPtr r.directDequeueSize

/-- The run of a stretch of `k` slots from behind `i` on ends with the stretch or the buffer. -/
lemma isRun_arc {r : CRingBuffer} {i k : ℤ} (h0 : 0 ≤ i) (hi : i < r.iTotalSize) (hk : 0 ≤ k) :
    IsRun (fun x => ∃ j, 0 ≤ j ∧ j < k ∧ x = (i + 1 + j) % r.iTotalSize) r.iTotalSize (r.next i)
      (min k (r.iTotalSize - r.next i)) := by
  have hn : 0 ≤ r.next i ∧ r.next i < r.iTotalSize ∧
      (r.next i = i + 1 ∨ r.next i = 0 ∧ i + 1 = r.iTotalSize) := by
    rw [next_eq h0 hi]
    split_ifs <;> omega
  have hmod : ∀ j, 0 ≤ j → r.next i + j < r.iTotalSize →
      (i + 1 + j) % r.iTotalSize = r.next i + j := by
    intro j h1 h2
    rcases hn.2.2 with h3 | ⟨h3, h4⟩
    · rw [← h3]
      exact Int.emod_eq_of_lt (by omega) h2
    · rw [h3, h4, Int.add_emod_left, zero_add]
      exact Int.emod_eq_of_lt h1 (by omega)
  refine ⟨by omega, ⟨hn.1, by omega⟩, fun x h1 h2 => ?_, ?_⟩
  · refine ⟨x - r.next i, by omega, by omega, ?_⟩
    rw [hmod _ (by omega) (by omega)]
    omega
  · rintro hlt ⟨j, h1, h2, h3⟩
    rw [hmod j h1 (by omega)] at h3
    omega

variable {C : ℕ} {r : CRingBuffer}

lemma WF.sized (h : WF r) (hT : r.iTotalSize = C + 1) : Sized C r := by
  have hu := useSize_spec h
  have hf := freeSize_eq h
  have ht := h.total
  refine ⟨by omega, h.front, h.rear, (length_contents h).symm, by omega, ?_, ?_⟩
  · rw [directEnqueueSize_eq h]
    exact isRun_arc h.rear.1 h.rear.2 (by omega)
  · rw [directDequeueSize_eq h]
    exact isRun_arc h.front.1 h.front.2 hu.1

/-- **One call.** On a well-formed ring it answers as the queue does. -/
lemma call_fifo (h : WF r) (hT : r.iTotalSize = C + 1) {x : Call} (hx : x.Proper) :
    ∃ y, call r x = some y ∧ WF y.2 ∧ y.2.iTotalSize = C + 1 ∧
      (y.1, y.2.contents) = fifo C r.contents r.spare x := by
  have hu := length_contents h
  have hf := freeSize_eq h
  have hfree : r.getFreeSize = C - r.contents.length := by omega
  cases x with
  | enqueue d n =>
    obtain ⟨r', h1, h2, h3, h4⟩ := enqueue_eq h hx.1 hx.2
    refine ⟨_, by rw [call, h1]; rfl, h2, h3.trans hT, ?_⟩
    rw [fifo, ← hfree, h4]
  | dequeue n =>
    obtain ⟨h1, h2, h3⟩ := moveFront_eq h hx
    refine ⟨_, by rw [call, dequeue_eq h hx]; rfl, h2, hT, ?_⟩
    rw [fifo, hu, ← h1, ← h3]
    rfl
  | peek n =>
    refine ⟨_, by rw [call, peek_eq h hx]; rfl, h, hT, ?_⟩
    rw [fifo, hu, ← (frontSpan_spec h hx).size]
  | moveRear n =>
    obtain ⟨h1, h2, h3⟩ := moveRear_eq h hx
    refine ⟨_, rfl, h2, hT, ?_⟩
    have hs := length_spare h
    rw [fifo, ← hfree, h1, h3]
    rcases le_total n r.getFreeSize with hc | hc
    · rw [min_eq_left hc]
    · rw [min_eq_right hc, List.take_of_length_le (i := n.toNat) (by omega),
        List.take_of_length_le (i := r.getFreeSize.toNat) (by omega)]
  | moveFront n =>
    obtain ⟨h1, h2, h3⟩ := moveFront_eq h hx
    refine ⟨_, rfl, h2, hT, ?_⟩
    rw [fifo, hu, h1, h3]
  | clearBuffer =>
    refine ⟨_, rfl, ⟨h.total, ⟨le_refl _, ?_⟩, ⟨le_refl _, ?_⟩⟩, hT, ?_⟩
    · exact lt_of_le_of_lt h.front.1 h.front.2
    · exact lt_of_le_of_lt h.front.1 h.front.2
    · simp [fifo, clearBuffer, contents, getUseSize, window]

lemma exec_fifo {calls : List Call} (h : WF r) (hT : r.iTotalSize = C + 1)
    (hx : ∀ x ∈ calls, x.Proper) :
    ∃ out r', exec r calls = some (out, r') ∧ WF r' ∧ r'.iTotalSize = C + 1 ∧
      (out, r'.contents) = fifoRun C r.contents (withSlots r calls) := by
  induction calls generalizing r with
  | nil => exact ⟨[], r, rfl, h, hT, rfl⟩
  | cons x xs ih =>
    obtain ⟨⟨rep, r₁⟩, hy, h1, h2, h3⟩ := call_fifo h hT (hx x List.mem_cons_self)
    obtain ⟨out, r', hz, h4, h5, h6⟩ := ih h1 h2 fun y hy => hx y (List.mem_cons_of_mem _ hy)
    refine ⟨rep :: out, r', ?_, h4, h5, ?_⟩
    · rw [exec, hy, Option.bind_some, hz]
      rfl
    · rw [Prod.mk.injEq] at h6
      simp only [withSlots, hy, fifoRun, ← h3, ← h6.1, ← h6.2]

lemma construct_wf {mem : List UInt8} (hm : mem.length = C + 1) : WF (construct mem C) :=
  ⟨by simp [construct, hm], by constructor <;> dsimp only [construct] <;> omega,
    by constructor <;> dsimp only [construct] <;> omega⟩

/-- **The ring is a queue.** Calls of positive size on a ring of capacity `C` stay inside its
buffer and answer as on a list, which the ring holds afterwards. -/
theorem ring_fifo {mem : List UInt8} (hm : mem.length = C + 1) (calls : List Call)
    (hx : ∀ x ∈ calls, x.Proper) :
    ∃ out r, exec (construct mem C) calls = some (out, r) ∧ Sized C r ∧
      (out, r.contents) = fifoRun C [] (withSlots (construct mem C) calls) := by
  obtain ⟨out, r, h1, h2, h3, h4⟩ := exec_fifo (construct_wf hm) rfl hx
  have h0 : (construct mem C).contents = [] := by simp [contents, construct, getUseSize, window]
  rw [h0] at h4
  exact ⟨out, r, h1, WF.sized h2 h3, h4⟩

/-- A ring of three bytes that wraps. -/
theorem ring_fifo_three :
    ∃ out r, exec (construct [0, 0, 0, 0] (3 : ℕ))
      [.enqueue [1, 2, 3, 4] 4, .dequeue 2, .enqueue [5, 6] 2, .peek 9] = some (out, r) ∧ Sized 3 r ∧
      (out, r.contents) = ([⟨3, []⟩, ⟨2, [1, 2]⟩, ⟨2, []⟩, ⟨3, [3, 5, 6]⟩], [3, 5, 6]) := by
  obtain ⟨out, r, h1, h2, h3⟩ := ring_fifo (C := 3) (show [0, 0, 0, 0].length = _ from rfl)
    [.enqueue [1, 2, 3, 4] 4, .dequeue 2, .enqueue [5, 6] 2, .peek 9] (by decide)
  exact ⟨out, r, h1, h2, h3.trans (by decide +kernel)⟩

end LoginServerChat.RingFifo
