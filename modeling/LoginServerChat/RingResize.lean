import LoginServerChat.RingFifo

/-!
`Resize` among the other calls on a ring. It copies the old buffer to the start of the new one and
keeps both indices, so that the free slots come to lie in the midst of a content that passes the old
end.
-/

namespace LoginServerChat.RingResize

open NetPacket RingBuffer CRingBuffer Circular RingFifo

inductive Op
  | call (x : Call)
  | resize (fresh : ℕ → UInt8) (iSize : ℤ)

/-- The calls are of positive size; a ring may be resized to anything. -/
def Op.Proper : Op → Prop
  | .call x => x.Proper
  | .resize _ _ => True

def operate (r : CRingBuffer) : Op → Option (Reply × CRingBuffer)
  | .call x => call r x
  | .resize fresh n => (r.resize fresh n).map fun r' => (⟨0, []⟩, r')

def operateAll (r : CRingBuffer) : List Op → Option (List Reply × CRingBuffer)
  | [] => some ([], r)
  | x :: xs => (operate r x).bind fun y => (operateAll y.2 xs).map fun z => (y.1 :: z.1, z.2)

/-- The queue in `r'` is that in `r`, as `GetUseSize` and `Dequeue` show it. -/
structure Keeps (r r' : CRingBuffer) : Prop where
  use : r'.getUseSize = r.getUseSize
  dequeue : ∀ n, 1 ≤ n → (r'.dequeue n).map (·.1) = (r.dequeue n).map (·.1)

variable {r r' : CRingBuffer} {C : ℕ} {fresh : ℕ → UInt8} {n : ℤ}

variable (fresh) in
/-- A ring that grows has its old buffer in front of the new bytes. -/
lemma resize_grow (h : WF r) (hn : r.iTotalSize < n) (hi : n + 1 < 2 ^ 31) :
    ∃ e, r.resize fresh n = some { r with buffer := r.buffer ++ e, iTotalSize := n + 1 } ∧
      ((r.buffer ++ e).length : ℤ) = n + 1 := by
  have ht := h.total
  have hlen : (((List.range (n + 1).toNat).map fresh).length : ℤ) = n + 1 := by
    rw [List.length_map, List.length_range]
    omega
  have hload : load r.buffer 0 r.iTotalSize = some r.buffer := by
    rw [load, if_pos (by omega), ht]
    simp
  obtain ⟨b, hb, he⟩ := store_eq (b := (List.range (n + 1).toNat).map fresh) (d := r.buffer)
    (le_refl 0) (by omega)
  rw [Int.toNat_zero, List.take_zero, List.nil_append, Nat.zero_add] at he
  refine ⟨((List.range (n + 1).toNat).map fresh).drop r.buffer.length, ?_, ?_⟩
  · unfold resize
    rw [if_neg (by omega), if_pos hi]
    dsimp only
    rw [hload, Option.bind_some, hb, Option.map_some, he]
  · rw [List.length_append, List.length_drop]
    omega

lemma grown_wf {e : List UInt8} (h : WF r) (hn : r.iTotalSize < n)
    (he : ((r.buffer ++ e).length : ℤ) = n + 1) :
    WF { r with buffer := r.buffer ++ e, iTotalSize := n + 1 } := by
  have hf := h.front
  have hr := h.rear
  refine ⟨he.symm, ?_, ?_⟩
  · dsimp only
    omega
  · dsimp only
    omega

lemma resize_wf (h : WF r) (hr : r.resize fresh n = some r') : WF r' := by
  rcases le_or_gt n r.iTotalSize with hle | hgt
  · rw [resize, if_pos hle, Option.some.injEq] at hr
    exact hr ▸ h
  · by_cases hi : n + 1 < 2 ^ 31
    · obtain ⟨e, h1, h2⟩ := resize_grow fresh h hgt hi
      rw [h1, Option.some.injEq] at hr
      exact hr ▸ grown_wf h hgt h2
    · rw [resize, if_neg (by omega), if_neg hi] at hr
      exact absurd hr.symm (Option.some_ne_none r')

/-- **One call** keeps the ring well-formed. -/
lemma operate_wf (h : WF r) {x : Op} (hx : x.Proper) {rep : Reply}
    (ho : operate r x = some (rep, r')) : WF r' := by
  cases x with
  | call x =>
    have ht := h.total
    have hf := h.front
    obtain ⟨C, hC⟩ : ∃ C : ℕ, r.iTotalSize = C + 1 := ⟨r.buffer.length - 1, by omega⟩
    obtain ⟨y, hy, hw, -, -⟩ := call_fifo h hC hx
    rw [operate, hy, Option.some.injEq] at ho
    rw [ho] at hw
    exact hw
  | resize fresh n =>
    rw [operate, Option.map_eq_some_iff] at ho
    obtain ⟨r₁, h1, h2⟩ := ho
    rw [Prod.mk.injEq] at h2
    exact h2.2 ▸ resize_wf h h1

lemma operateAll_wf {xs : List Op} (h : WF r) (hx : ∀ x ∈ xs, x.Proper) {out : List Reply}
    (ho : operateAll r xs = some (out, r')) : WF r' := by
  induction xs generalizing r out with
  | nil =>
    rw [operateAll, Option.some.injEq, Prod.mk.injEq] at ho
    exact ho.2 ▸ h
  | cons x xs ih =>
    simp only [operateAll, Option.bind_eq_some_iff, Option.map_eq_some_iff] at ho
    obtain ⟨⟨rep, r₁⟩, h1, ⟨out₁, r₂⟩, h2, h3⟩ := ho
    rw [Prod.mk.injEq] at h3
    obtain ⟨-, rfl⟩ := h3
    exact ih (operate_wf h (hx x List.mem_cons_self) h1)
      (fun y hy => hx y (List.mem_cons_of_mem _ hy)) h2

/-- A content that does not pass the end is found at the same place in the larger buffer. -/
lemma grown_keeps {e : List UInt8} (h : WF r) (hn : r.iTotalSize < n)
    (he : ((r.buffer ++ e).length : ℤ) = n + 1) (hle : r.iFront ≤ r.iRear) :
    Keeps r { r with buffer := r.buffer ++ e, iTotalSize := n + 1 } := by
  have hw := grown_wf h hn he
  have ht := h.total
  have hf := h.front
  have hr := h.rear
  have huse : getUseSize { r with buffer := r.buffer ++ e, iTotalSize := n + 1 } = r.getUseSize := by
    unfold getUseSize
    dsimp only
    split_ifs <;> omega
  have hu : r.iFront + r.getUseSize = r.iRear := by
    unfold getUseSize
    split_ifs <;> omega
  have h0 := (useSize_spec h).1
  have hcont : contents { r with buffer := r.buffer ++ e, iTotalSize := n + 1 } = r.contents := by
    unfold contents
    rw [huse]
    dsimp only
    rw [window_of_le (by rw [List.length_append]; omega), window_of_le (by omega),
      List.drop_append_of_le_length (by omega),
      List.take_append_of_le_length (by rw [List.length_drop]; omega)]
  refine ⟨huse, fun k hk => ?_⟩
  rw [dequeue_eq hw hk, dequeue_eq h hk, hcont]
  rfl

/-- A content that passes the end gets longer by the new slots. -/
lemma grown_useSize {b : List UInt8} (hn : r.iTotalSize < n) (hlt : r.iRear < r.iFront) :
    r.getUseSize < getUseSize { r with buffer := b, iTotalSize := n + 1 } := by
  unfold getUseSize
  dsimp only
  rw [if_neg (by omega), if_neg (by omega), if_neg (by omega), if_neg (by omega)]
  omega

/-- **Resizing.** It keeps the queue and provides the size, exactly if the size is below the number
of slots, or above it and the content does not pass the end of the buffer. -/
theorem resize_keeps_iff {mem : List UInt8} (hm : mem.length = C + 1) {xs : List Op}
    (hx : ∀ x ∈ xs, x.Proper) {out : List Reply}
    (h : operateAll (construct mem C) xs = some (out, r)) (fresh : ℕ → UInt8) (iSize : ℤ) :
    (∃ r', r.resize fresh iSize = some r' ∧ Keeps r r' ∧ iSize ≤ r'.getBufferSize) ↔
      iSize < r.iTotalSize ∨
        r.iTotalSize < iSize ∧ iSize + 1 < 2 ^ 31 ∧ r.iFront ≤ r.iRear := by
  have hw := operateAll_wf (construct_wf hm) hx h
  rcases le_or_gt iSize r.iTotalSize with hle | hgt
  · have hr : r.resize fresh iSize = some r := if_pos hle
    have hk : Keeps r r := ⟨rfl, fun _ _ => rfl⟩
    rw [hr]
    constructor
    · rintro ⟨r', he, -, hs⟩
      obtain rfl := Option.some.inj he
      rw [getBufferSize] at hs
      exact .inl (by omega)
    · intro hlt
      refine ⟨r, rfl, hk, ?_⟩
      rw [getBufferSize]
      omega
  · by_cases hi : iSize + 1 < 2 ^ 31
    · obtain ⟨e, h1, h2⟩ := resize_grow fresh hw hgt hi
      rw [h1]
      constructor
      · rintro ⟨r', he, hk, -⟩
        obtain rfl := Option.some.inj he
        refine .inr ⟨hgt, hi, ?_⟩
        by_contra hlt
        have := grown_useSize (b := r.buffer ++ e) hgt (by omega)
        exact absurd hk.use (by omega)
      · intro hc
        refine ⟨_, rfl, grown_keeps hw hgt h2 (by omega), ?_⟩
        rw [getBufferSize]
        dsimp only
        omega
    · have hr : r.resize fresh iSize = none := by rw [resize, if_neg (by omega), if_neg hi]
      rw [hr]
      constructor
      · rintro ⟨r', he, -⟩
        exact absurd he.symm (Option.some_ne_none r')
      · intro hc
        omega

/-- A ring of three bytes, one of them read. -/
def oneRead : List Op := [.call (.enqueue [1, 2, 3] 3), .call (.dequeue 1)]

theorem resize_keeps_unwrapped : ∃ out r r', operateAll (construct [0, 0, 0, 0] (3 : ℕ)) oneRead =
    some (out, r) ∧ r.resize (fun _ => 9) 7 = some r' ∧ Keeps r r' ∧ 7 ≤ r'.getBufferSize := by
  have h : ∃ z, operateAll (construct [0, 0, 0, 0] (3 : ℕ)) oneRead = some z ∧
      z.2.iTotalSize < 7 ∧ z.2.iFront ≤ z.2.iRear := ⟨_, rfl, by decide, by decide⟩
  obtain ⟨⟨out, r⟩, h1, h2, h3⟩ := h
  have hproper : ∀ x ∈ oneRead, x.Proper := by
    intro x hx
    simp only [oneRead, List.mem_cons, List.not_mem_nil, or_false] at hx
    rcases hx with rfl | rfl
    · exact ⟨by decide, by decide⟩
    · exact le_refl 1
  obtain ⟨r', h4, h5, h6⟩ := (resize_keeps_iff (C := 3) (show [0, 0, 0, 0].length = _ from rfl)
    hproper h1 (fun _ => 9) 7).mpr (.inr ⟨h2, by decide, h3⟩)
  exact ⟨out, r, r', h1, h4, h5, h6⟩

/-- A ring of three bytes, after three have been put in, two taken out and two put in. -/
def wrapped : CRingBuffer := ⟨[4, 5, 2, 3], 2, 1, 4⟩

/-- Three bytes that pass the end become seven when the ring is resized to seven. A request for four
bytes, one more than the ring has room for, is not met. -/
theorem resize_wrapped :
    (∃ out, operateAll (construct [0, 0, 0, 0] (3 : ℕ))
      [.call (.enqueue [1, 2, 3] 3), .call (.dequeue 2), .call (.enqueue [4, 5] 2)] =
        some (out, wrapped)) ∧
    (¬ ∃ r', wrapped.resize (fun _ => 9) 7 = some r' ∧ Keeps wrapped r' ∧ 7 ≤ r'.getBufferSize) ∧
    wrapped.resize (fun _ => 9) 4 = some wrapped ∧ wrapped.getBufferSize = 3 := by
  refine ⟨⟨_, rfl⟩, ?_, rfl, by decide⟩
  rintro ⟨r', h, hk, -⟩
  have hr : wrapped.resize (fun _ => 9) 7 = some ⟨[4, 5, 2, 3, 9, 9, 9, 9], 2, 1, 8⟩ := rfl
  rw [hr, Option.some.injEq] at h
  have huse := hk.use
  rw [← h] at huse
  exact absurd huse (by decide)

end LoginServerChat.RingResize
