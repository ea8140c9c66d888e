import LoginServerChat.RecvRun

/-!
The packet that a frame is moved into has 1024 bytes, the queue it comes from 10000, and nothing
compares the length in the header with the packet. So a client overruns the packet with a whole
frame of 1020 to 9995 payload bytes, and in no other way; longer frames never become whole.
-/

namespace LoginServerChat.RecvOverrun

open NetPacket Packet Cipher Frames RecvLoop RecvRun

variable {alloc : ℕ → Packet} {onRecv : List Event → Bool}

/-- Behind well-formed frames stands a whole frame that is longer than a packet. -/
def Oversized (st : List UInt8) : Prop :=
  ∃ (gs : List (List UInt8)) (g t : List UInt8), st = gs.flatten ++ (g ++ t) ∧
    (∀ x ∈ gs, WellFormed x) ∧ Whole g ∧ (NetHeader.ofBytes g).code = packetCode ∧
    1020 ≤ (NetHeader.ofBytes g).len ∧ (NetHeader.ofBytes g).len ≤ 9995

lemma next_long {g t : List UInt8} (hg : Whole g) (hc : (NetHeader.ofBytes g).code = packetCode)
    (hl : 1020 ≤ (NetHeader.ofBytes g).len) : next (g ++ t) = .long := by
  obtain ⟨h1, -, h3⟩ := whole_take (r := g ++ t) rfl hg
  have h5 := hg.length_eq
  rw [h1] at h3
  unfold next
  rw [h1, if_neg (by rw [List.length_append]; omega), if_neg (not_not.mpr hc), if_neg (by omega),
    if_pos (by omega)]

/-- The parse of an oversized stream ends at the long frame. -/
lemma Oversized.parse {st : List UInt8} (h : Oversized st) : next (parse st).rest = .long := by
  obtain ⟨gs, g, t, rfl, hgs, hg, hc, hl, -⟩ := h
  have hn := next_long (t := t) hg hc hl
  rw [parse_unique hgs fun n h => by rw [hn] at h; exact Next.noConfusion h]
  exact hn

lemma oversized_of_long {st : List UInt8} (h : next (parse st).rest = .long)
    (hr : (parse st).rest.length ≤ recvCapacity) (t : List UInt8) : Oversized (st ++ t) := by
  unfold next at h
  split_ifs at h with h1 h2 h3 h4
  obtain ⟨hhead, hw⟩ := take_whole (c := (Frames.parse st).rest) rfl (by omega)
  refine ⟨(Frames.parse st).frames, _, (Frames.parse st).rest.drop
    (5 + (NetHeader.ofBytes (Frames.parse st).rest).len) ++ t, ?_, parse_wellFormed st, hw, ?_, ?_, ?_⟩
  · rw [← List.append_assoc _ _ t, List.take_append_drop, ← List.append_assoc, ← parse_flatten]
  · rw [hhead]
    exact not_not.mp h2
  · rw [hhead]
    omega
  · rw [recvCapacity] at hr
    rw [hhead]
    omega

/-- A silent session with nothing left over still receives, and has all its room. -/
lemma empty_room (hon : ∀ log, onRecv log = false) {first : Bool} {s : Recv} {st : List UInt8}
    (h : Arrived onRecv s st) (hr : (parse st).rest = [])
    (hf : first = true → s.recvQ.iFront = 0 ∧ s.recvQ.iRear = 0) :
    s.marked = false ∧ s.broken = false ∧ postedSize first s.recvQ = 10000 := by
  have hwait : next (parse st).rest = .wait := by
    rw [hr]
    rfl
  have hmk : s.marked = false := by
    cases hs : s.marked with
    | false => rfl
    | true => exact absurd (hwait.symm.trans (h.silent hon hs)) (by simp)
  have hbr : s.broken = false := by
    cases hs : s.broken with
    | false => rfl
    | true => exact absurd (hwait.symm.trans (h.broken.mp hs)) (by simp)
  have hroom := h.room_eq first hmk hbr hf
  rw [hr, recvCapacity, List.length_nil] at hroom
  exact ⟨hmk, hbr, by omega⟩

/-- The frames of an oversized stream, one in each completion, fit. -/
lemma fits_frames (ha : ∀ n, Fresh (alloc n)) (hon : ∀ log, onRecv log = false)
    {gs ts : List (List UInt8)} {g : List UInt8} (hgs : ∀ x ∈ gs, WellFormed x) (hg : Whole g)
    (hc : (NetHeader.ofBytes g).code = packetCode) (hl : 1020 ≤ (NetHeader.ofBytes g).len)
    (hu : (NetHeader.ofBytes g).len ≤ 9995) {first : Bool} {s : Recv} {st : List UInt8}
    (h : Arrived onRecv s st) (hr : (parse st).rest = [])
    (hf : first = true → s.recvQ.iFront = 0 ∧ s.recvQ.iRear = 0) :
    Fits alloc onRecv first s (gs ++ g :: ts) := by
  induction gs generalizing first s st with
  | nil =>
    obtain ⟨hmk, hbr, hroom⟩ := empty_room hon h hr hf
    have h5 := hg.length_eq
    have hne : g ≠ [] := List.ne_nil_of_length_pos (by omega)
    have hn : (g.length : ℤ) ≤ postedSize first s.recvQ := by omega
    refine .inr ⟨hne, hn, fun s' hs => ?_⟩
    have h' := h.complete ha hmk hbr hf hne hn hs
    have hlong : next (parse (st ++ g)).rest = .long := by
      have hng := next_long (t := []) hg hc hl
      rw [List.append_nil] at hng
      have hp : parse g = ⟨[], g⟩ := parse_stop fun n h => by rw [hng] at h; exact Next.noConfusion h
      rw [parse_append, hr, List.nil_append, hp]
      exact hng
    cases ts with
    | nil => trivial
    | cons x xs => exact .inl (.inr (h'.broken.mpr hlong))
  | cons x gs ih =>
    obtain ⟨hmk, hbr, hroom⟩ := empty_room hon h hr hf
    have hx := hgs x List.mem_cons_self
    have h5 := hx.isFrame.whole.length_eq
    have hle := hx.isFrame.fits
    have hne : x ≠ [] := List.ne_nil_of_length_pos (by omega)
    have hn : (x.length : ℤ) ≤ postedSize first s.recvQ := by omega
    refine .inr ⟨hne, hn, fun s' hs => ?_⟩
    have hr' : (parse (st ++ x)).rest = [] := by
      have hx' : ∀ y ∈ [x], WellFormed y := by simpa using hx
      have hp := parse_unique (t := []) hx' fun n h => Next.noConfusion h
      rw [List.flatten_singleton, List.append_nil] at hp
      rw [parse_append, hr, List.nil_append, hp]
    exact ih (fun y hy => hgs y (List.mem_cons_of_mem _ hy)) (h.complete ha hmk hbr hf hne hn hs) hr'
      fun h => absurd h Bool.false_ne_true

/-- No access outside a packet, whatever the memory holds. -/
def Safe (onRecv : List Event → Bool) (ds : List (List UInt8)) : Prop :=
  ∀ (alloc : ℕ → Packet) (mem : List UInt8), (∀ n, Fresh (alloc n)) →
    mem.length = recvCapacity + 1 → Fits alloc onRecv true (accepted mem) ds →
    ∃ s, receive alloc onRecv true (accepted mem) ds = some s ∧ s.broken = false

/-- In whichever pieces it comes, an oversized stream overruns a packet. -/
lemma overrun_of_oversized {mem : List UInt8} {ds : List (List UInt8)} (ho : Oversized ds.flatten)
    (ha : ∀ n, Fresh (alloc n)) (hon : ∀ log, onRecv log = false)
    (hm : mem.length = recvCapacity + 1) (hfit : Fits alloc onRecv true (accepted mem) ds) :
    ∃ s, receive alloc onRecv true (accepted mem) ds = some s ∧ s.broken = true := by
  obtain ⟨s, ds₁, ds₂, h1, rfl, h3, h4⟩ := receive_accepted ha hm hfit
  have hlong := ho.parse
  rcases h4 with rfl | hs | hs
  · rw [List.append_nil] at hlong
    exact ⟨s, h1, h3.broken.mpr hlong⟩
  · have hr := h3.silent hon hs
    obtain ⟨e1, e2⟩ := parse_append_stop (s := ds₁.flatten) (t := ds₂.flatten) (by rw [hr]; simp)
    rw [List.flatten_append, e1] at hlong
    exact absurd (hlong.symm.trans (e2.trans hr)) (by simp)
  · exact ⟨s, h1, hs⟩

/-- There are pieces in which an oversized stream arrives. -/
lemma oversized_fits {st : List UInt8} (h : Oversized st) (ha : ∀ n, Fresh (alloc n))
    (hon : ∀ log, onRecv log = false) {mem : List UInt8} (hm : mem.length = recvCapacity + 1) :
    ∃ ds, ds.flatten = st ∧ Fits alloc onRecv true (accepted mem) ds := by
  obtain ⟨gs, g, t, rfl, hgs, hg, hc, hl, hu⟩ := h
  refine ⟨gs ++ g :: t.map fun b => [b], ?_, ?_⟩
  · rw [List.flatten_append, List.flatten_cons, ← List.flatMap_def, List.flatMap_singleton']
  · exact fits_frames ha hon hgs hg hc hl hu (arrived_start hm) (by rw [parse_nil]) fun _ => ⟨rfl, rfl⟩

/-- **Which streams are safe.** A stream can be received in every way, whatever `OnRecv` does,
exactly if it is not oversized; an oversized one overruns a packet in whichever pieces it comes,
as long as `OnRecv` does not disconnect. -/
theorem overrun_iff (st : List UInt8) :
    ((∀ onRecv ds, ds.flatten = st → Safe onRecv ds) ↔ ¬ Oversized st) ∧
    (Oversized st → ∀ (alloc : ℕ → Packet) (onRecv : List Event → Bool) (mem : List UInt8)
      (ds : List (List UInt8)), (∀ n, Fresh (alloc n)) → (∀ log, onRecv log = false) →
      mem.length = recvCapacity + 1 → ds.flatten = st → Fits alloc onRecv true (accepted mem) ds →
      ∃ s, receive alloc onRecv true (accepted mem) ds = some s ∧ s.broken = true) := by
  refine ⟨⟨fun hsafe ho => ?_, ?_⟩, ?_⟩
  · have hon : ∀ log : List Event, (fun _ => false) log = false := fun _ => rfl
    obtain ⟨ds, rfl, hfit⟩ := oversized_fits ho (fun _ => blank_fresh) hon zeros_length
    obtain ⟨s, h1, h2⟩ := hsafe _ _ rfl _ _ (fun _ => blank_fresh) zeros_length hfit
    obtain ⟨s', h3, h4⟩ := overrun_of_oversized ho (fun _ => blank_fresh) hon zeros_length hfit
    obtain rfl := Option.some.inj (h1.symm.trans h3)
    exact absurd h4 (by simp [h2])
  · rintro hno onRecv ds rfl alloc mem ha hm hfit
    obtain ⟨s, ds₁, ds₂, h1, rfl, h3, h4⟩ := receive_accepted ha hm hfit
    refine ⟨s, h1, ?_⟩
    cases hs : s.broken with
    | false => rfl
    | true =>
      rw [List.flatten_append] at hno
      exact absurd (oversized_of_long (h3.broken.mp hs) (h3.room hs) _) hno
  · rintro ho alloc onRecv mem ds ha hon hm rfl hfit
    exact overrun_of_oversized ho ha hon hm hfit

/-- The header announces 1020 bytes, and they come. -/
def longFrame : List UInt8 := [0x77, 0xFC, 0x03, 0, 0] ++ List.replicate 1020 0

/-- A client that has sent nothing else sends a long frame: it fits the buffers that are posted,
and overruns its packet. -/
theorem packet_overrun :
    Fits (fun _ => blank) (fun _ => false) true (accepted (List.replicate 10001 0)) [longFrame] ∧
    ∃ s, receive (fun _ => blank) (fun _ => false) true (accepted (List.replicate 10001 0))
      [longFrame] = some s ∧ s.broken = true := by
  have hw : Whole longFrame := by
    rw [Whole, longFrame, List.length_append, List.length_replicate]
    rfl
  have hfit : Fits (fun _ => blank) (fun _ => false) true (accepted (List.replicate 10001 0))
      ([] ++ longFrame :: []) :=
    fits_frames (fun _ => blank_fresh) (fun _ => rfl) (by simp) hw rfl (by decide) (by decide)
      (arrived_start zeros_length) (by rw [parse_nil]) fun _ => ⟨rfl, rfl⟩
  have ho : Oversized [longFrame].flatten :=
    ⟨[], longFrame, [], by simp, by simp, hw, rfl, by decide, by decide⟩
  exact ⟨hfit, overrun_of_oversized ho (fun _ => blank_fresh) (fun _ => rfl) zeros_length hfit⟩

end LoginServerChat.RecvOverrun
