import LoginServerChat.RecvLoop
import LoginServerChat.RingFifo

/-!
The buffers that `RecvPost` hands to `WSARecv`. They are the free slots of the ring in the order in
which `Enqueue` would fill them, so that what the kernel puts there and `MoveRear` takes over is
what `Enqueue` would have stored.
-/

namespace LoginServerChat.RecvScatter

open RingBuffer CRingBuffer RingFifo RecvLoop Circular

/-- The slots of some regions, one after another. -/
def slots (ps : List (ℤ × ℤ)) : List ℤ :=
  ps.flatMap fun p => (List.range p.2.toNat).map fun j : ℕ => p.1 + j

/-- The states of `recvQ`: any calls, and anything written into the posted buffers between them. -/
inductive Reached (C : ℕ) : CRingBuffer → Prop
  | constructed (mem : List UInt8) (h : mem.length = C + 1) : Reached C (construct mem C)
  | called {r : CRingBuffer} (x : Call) {y : Reply × CRingBuffer} (h : Reached C r) (hx : x.Proper)
      (hy : call r x = some y) : Reached C y.2
  | written {r : CRingBuffer} (d : List UInt8) {b : List UInt8} (h : Reached C r)
      (hd : d.length ≤ postedSize false r) (hb : scatter r.buffer (posted false r) d = some b) :
      Reached C { r with buffer := b }

/-- The posted buffers are the free slots in ring order: inside the buffer, each of them once, none
of them in use, and `GetFreeSize` of them. -/
structure Offered (r : CRingBuffer) : Prop where
  buffer : (r.buffer.length : ℤ) = r.iTotalSize
  inside : ∀ p ∈ posted false r, 0 ≤ p.1 ∧ 0 ≤ p.2 ∧ p.1 + p.2 ≤ r.iTotalSize
  disjoint : (slots (posted false r)).Nodup
  unused : ∀ i ∈ slots (posted false r), ¬ Used r i
  order : slots (posted false r) =
    (List.range r.getFreeSize.toNat).map fun j : ℕ => (r.iRear + 1 + j) % r.iTotalSize
  total : postedSize false r = r.getFreeSize

variable {C : ℕ} {r : CRingBuffer} {T s n : ℤ} {ps : List (ℤ × ℤ)}

/-! ### Slots of an arc -/

lemma range_toNat (m k : ℤ) (hm : 0 ≤ m) (hk : 0 ≤ k) (f : ℤ → ℤ) :
    (List.range (m + k).toNat).map (fun j : ℕ => f j) =
      (List.range m.toNat).map (fun j : ℕ => f j) ++ (List.range k.toNat).map fun j : ℕ => f (m + j) := by
  rw [Int.toNat_add hm hk, List.range_add, List.map_append, List.map_map]
  congr 1
  apply List.map_congr_left
  intro j _
  rw [Function.comp_apply, Nat.cast_add, Int.toNat_of_nonneg hm]

lemma Arc.slots_eq (h : Arc T s n ps) (hs : s < T) :
    slots ps = (List.range n.toNat).map fun j : ℕ => (s + j) % T := by
  cases h with
  | none h =>
    rw [h]
    rfl
  | one h0 hn h =>
    rw [slots, List.flatMap_singleton]
    apply List.map_congr_left
    intro j hj
    rw [List.mem_range] at hj
    rw [Int.emod_eq_of_lt (by omega) (by omega)]
  | two h0 h hT hn =>
    have hsplit := range_toNat (T - s) (s + n - T) (by omega) (by omega) fun j => (s + j) % T
    rw [show T - s + (s + n - T) = n by ring] at hsplit
    rw [hsplit, slots, List.flatMap_cons, List.flatMap_singleton]
    congr 1
    · apply List.map_congr_left
      intro j hj
      rw [List.mem_range] at hj
      rw [Int.emod_eq_of_lt (by omega) (by omega)]
    · apply List.map_congr_left
      intro j hj
      rw [List.mem_range] at hj
      rw [show s + (T - s + (j : ℤ)) = j + T by ring, Int.add_emod_right, Int.emod_eq_of_lt (by omega) (by omega),
        zero_add]

lemma Arc.inside (h : Arc T s n ps) : ∀ p ∈ ps, 0 ≤ p.1 ∧ 0 ≤ p.2 ∧ p.1 + p.2 ≤ T := by
  cases h with
  | none h => exact fun p hp => absurd hp List.not_mem_nil
  | one h0 hn h =>
    intro p hp
    rw [List.mem_singleton.mp hp]
    exact ⟨h0, hn, h⟩
  | two h0 h hT hn =>
    intro p hp
    rcases List.mem_cons.mp hp with rfl | hp
    · exact ⟨h0, by dsimp only; omega, by dsimp only; omega⟩
    · rw [List.mem_singleton.mp hp]
      exact ⟨le_refl _, by dsimp only; omega, by dsimp only; omega⟩

/-- Places less than a turn apart are different. -/
lemma emod_inj {a : ℤ} {i j : ℕ} (hi : i < T) (hj : j < T) (h : (a + i) % T = (a + j) % T) : i = j := by
  have h1 := Int.emod_add_mul_ediv (a + i) T
  have h2 := Int.emod_add_mul_ediv (a + j) T
  rw [h] at h1
  have hmul : (i : ℤ) - j = T * ((a + i) / T - (a + j) / T) := by linarith
  have hlt : |(i : ℤ) - j| < T := abs_lt.mpr ⟨by omega, by omega⟩
  have := Int.eq_zero_of_abs_lt_dvd ⟨_, hmul⟩ hlt
  omega

/-! ### What is posted -/

lemma not_first : false = true → r.iFront = 0 ∧ r.iRear = 0 := fun h => absurd h (by decide)

lemma offered_of_wf (h : WF r) : Offered r := by
  have harc := posted_arc h not_first
  have hfree := freeSize_eq h
  obtain ⟨hu0, hu1, huse⟩ := useSize_spec h
  have hr := h.rear
  have hnext := next_eq hr.1 hr.2
  have horder : slots (posted false r) =
      (List.range r.getFreeSize.toNat).map fun j : ℕ => (r.iRear + 1 + j) % r.iTotalSize := by
    rw [Arc.slots_eq harc (by rw [hnext]; split_ifs <;> omega)]
    apply List.map_congr_left
    intro j _
    rw [hnext]
    split_ifs with he
    · rw [he, zero_add, Int.add_emod_left]
    · rfl
  refine ⟨h.total.symm, Arc.inside harc, ?_, ?_, horder, Arc.sum harc⟩
  · rw [horder]
    refine List.Nodup.map_on (fun i hi j hj he => ?_) List.nodup_range
    rw [List.mem_range] at hi hj
    exact emod_inj (by omega) (by omega) he
  · rw [horder]
    rintro i hi ⟨k, hk0, hk1, hk2⟩
    obtain ⟨j, hj, rfl⟩ := List.mem_map.mp hi
    rw [List.mem_range] at hj
    -- counted from behind `iFront`, the free slots come after the used ones
    obtain ⟨k, rfl⟩ := Int.eq_ofNat_of_zero_le hk0
    have hplace : (r.iRear + 1 + (j : ℤ)) % r.iTotalSize =
        (r.iFront + 1 + ((r.getUseSize.toNat + j : ℕ) : ℤ)) % r.iTotalSize := by
      have hcast : ((r.getUseSize.toNat + j : ℕ) : ℤ) = r.getUseSize + j := by omega
      rw [hcast]
      rcases huse with he | he
      · rw [← he]
        congr 1
        ring
      · rw [show r.iFront + 1 + (r.getUseSize + (j : ℤ)) = r.iRear + 1 + j + r.iTotalSize by linarith,
          Int.add_emod_right]
    rw [hplace] at hk2
    have := emod_inj (by omega) (by omega) hk2
    omega

lemma Reached.wf (h : Reached C r) : WF r ∧ r.iTotalSize = C + 1 := by
  induction h with
  | constructed mem h => exact ⟨construct_wf h, rfl⟩
  | called x _ hx hy ih =>
    obtain ⟨y, h1, h2, h3, -⟩ := call_fifo ih.1 ih.2 hx
    rw [hy, Option.some.injEq] at h1
    rw [h1]
    exact ⟨h2, h3⟩
  | written d h hd hb ih =>
    have hwf := ih.1
    rw [postedSize_eq hwf not_first] at hd
    have harc := posted_arc hwf not_first
    rw [hwf.total] at harc
    obtain ⟨b', hb', hW⟩ := harc.scatter hd
    rw [hb, Option.some.injEq] at hb'
    have hfree := freeSize_eq hwf
    have huse := useSize_spec hwf
    have htot := hwf.total
    have hlen := hW.length (by omega)
    rw [← hb'] at hlen
    exact ⟨⟨by dsimp only; omega, hwf.front, hwf.rear⟩, ih.2⟩

/-- **Scattering is enqueueing.** In every state of the ring the posted buffers are its free slots in
ring order, and what is received in them is, after `MoveRear`, what `Enqueue` would have added. -/
theorem scatter_enqueue (h : Reached C r) : Offered r ∧
    ∀ d : List UInt8, d ≠ [] → d.length ≤ postedSize false r →
      ∃ b r', scatter r.buffer (posted false r) d = some b ∧
        (moveRear { r with buffer := b } d.length).1 = d.length ∧
        r.enqueue d d.length = some ((d.length : ℤ), r') ∧
        (moveRear { r with buffer := b } d.length).2.contents = r'.contents := by
  obtain ⟨hwf, -⟩ := h.wf
  refine ⟨offered_of_wf hwf, fun d hd hn => ?_⟩
  rw [postedSize_eq hwf not_first] at hn
  obtain ⟨b, h1, h2, -, h4⟩ := receive_append hwf not_first hd hn
  have hpos : 1 ≤ (d.length : ℤ) := by
    have := List.length_pos_of_ne_nil hd
    omega
  obtain ⟨r', h5, -, -, h6⟩ := enqueue_eq hwf hpos (le_refl _)
  rw [min_eq_left hn] at h5 h6
  refine ⟨b, r', h1, h2, h5, ?_⟩
  rw [h4, h6, Int.toNat_natCast, List.take_length]

/-- A ring of three bytes whose free slots pass the end of the buffer. -/
theorem scatter_enqueue_three :
    posted false ⟨[0, 0, 0, 0], 2, 2, 4⟩ = [(3, 1), (0, 2)] ∧ Offered ⟨[0, 0, 0, 0], 2, 2, 4⟩ ∧
    ∃ b r', scatter [0, 0, 0, 0] (posted false ⟨[0, 0, 0, 0], 2, 2, 4⟩) [7, 8, 9] = some b ∧
      (moveRear ⟨b, 2, 2, 4⟩ 3).1 = 3 ∧
      enqueue ⟨[0, 0, 0, 0], 2, 2, 4⟩ [7, 8, 9] 3 = some (3, r') ∧
      (moveRear ⟨b, 2, 2, 4⟩ 3).2.contents = r'.contents := by
  have h0 : Reached 3 ⟨[0, 0, 0, 0], 0, 0, 4⟩ := .constructed _ rfl
  have h1 : Reached 3 ⟨[0, 0, 0, 0], 0, 2, 4⟩ := .called (.moveRear 2) h0 (by decide) rfl
  have h2 : Reached 3 ⟨[0, 0, 0, 0], 2, 2, 4⟩ := .called (.moveFront 2) h1 (by decide) rfl
  obtain ⟨h3, h4⟩ := scatter_enqueue h2
  exact ⟨by decide, h3, h4 [7, 8, 9] (by decide) (by decide)⟩

end LoginServerChat.RecvScatter
