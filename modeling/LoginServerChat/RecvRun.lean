import LoginServerChat.RecvLoop

/-!
A session from its first receive on: what the worker passes to `OnRecv` and when it disconnects
depends on the bytes that have arrived and not on the pieces in which they did.
-/

namespace LoginServerChat.RecvRun

open NetPacket Packet RingBuffer Cipher Frames RecvLoop
open CRingBuffer hiding next

def payloads (log : List Event) : List (List UInt8) :=
  log.filterMap fun
    | .onRecv xs => some xs
    | _ => none

variable {alloc : ℕ → Packet} {onRecv : List Event → Bool} {log : List Event} {marked : Bool}
variable {rest : List UInt8} {gs : List (List UInt8)}

/-! ### The calls for a list of frames -/

lemma deliver_payloads : payloads (deliver onRecv log marked rest gs).1 =
    payloads log ++ gs.map payload := by
  induction gs generalizing log marked with
  | nil => simp [deliver]
  | cons g gs ih =>
    rw [deliver]
    split_ifs <;> rw [ih] <;> simp [payloads]

lemma deliver_disconnect : Event.disconnect ∈ (deliver onRecv log marked rest gs).1 ↔
    Event.disconnect ∈ log := by
  induction gs generalizing log marked with
  | nil => rfl
  | cons g gs ih =>
    rw [deliver]
    split_ifs <;> rw [ih] <;> simp

/-- An `OnRecv` that does not call `Disconnect` leaves the mark alone. -/
lemma deliver_silent (h : ∀ log, onRecv log = false) :
    (deliver onRecv log marked rest gs).2 = marked := by
  induction gs generalizing log marked with
  | nil => rfl
  | cons g gs ih =>
    rw [deliver, if_neg (by rw [h]; exact Bool.false_ne_true)]
    exact ih

/-! ### The bytes that have arrived -/

/-- A session to which the bytes `st` have come. -/
structure Arrived (onRecv : List Event → Bool) (s : Recv) (st : List UInt8) : Prop where
  ok : Ok s
  given : payloads s.log = (parse st).frames.map payload
  refused : Event.disconnect ∈ s.log ↔ next (parse st).rest = .refuse
  marked : next (parse st).rest = .refuse → s.marked = true
  silent : (∀ log, onRecv log = false) → s.marked = true → next (parse st).rest = .refuse
  broken : s.broken = true ↔ next (parse st).rest = .long
  room : s.broken = true → (parse st).rest.length ≤ recvCapacity
  held : s.marked = false → s.broken = false → s.recvQ.contents = (parse st).rest

lemma parse_nil : parse [] = ⟨[], []⟩ := parse_stop fun _ h => Next.noConfusion h

/-- A buffer of the size that `AcceptThread` gives to a session. -/
lemma zeros_length : (List.replicate 10001 (0 : UInt8)).length = recvCapacity + 1 :=
  List.length_replicate

lemma arrived_start {mem : List UInt8} (hm : mem.length = recvCapacity + 1) :
    Arrived onRecv (accepted mem) [] := by
  have hwf : WF (accepted mem).recvQ := by
    refine ⟨?_, ?_, ?_⟩
    · simp [accepted, CRingBuffer.construct, clearBuffer, hm]
    · simp only [accepted, CRingBuffer.construct, clearBuffer]
      omega
    · simp only [accepted, CRingBuffer.construct, clearBuffer]
      omega
  have hv : next (parse []).rest = .wait := by rw [parse_nil]; rfl
  refine ⟨⟨hwf, rfl⟩, ?_, ?_, ?_, ?_, ?_, ?_, ?_⟩
  · rw [parse_nil]
    rfl
  · simp [hv, accepted]
  · simp [hv]
  · simp [accepted]
  · simp [hv, accepted]
  · simp [accepted]
  · rw [parse_nil]
    intro _ _
    simp [accepted, clearBuffer, contents, getUseSize, Circular.window]

/-- A session that still receives waits for the rest of a frame. -/
lemma Arrived.waiting {s : Recv} {st : List UInt8} (h : Arrived onRecv s st) (hm : s.marked = false)
    (hb : s.broken = false) : next (parse st).rest = .wait := by
  cases hv : next (parse st).rest with
  | frame n => exact absurd hv (parse_rest st n)
  | wait => rfl
  | refuse => exact absurd (h.marked hv) (by simp [hm])
  | long => exact absurd (h.broken.mpr hv) (by simp [hb])

/-- **One completion.** -/
lemma Arrived.step {s s' : Recv} {st d : List UInt8} (h : Arrived onRecv s st)
    (hm : s.marked = false) (hb : s.broken = false) (hs : Ok s')
    (hlen : s.recvQ.contents.length + d.length ≤ recvCapacity)
    (hp : Passed onRecv s s' (parse (s.recvQ.contents ++ d))) : Arrived onRecv s' (st ++ d) := by
  have hw := h.waiting hm hb
  have hno : Event.disconnect ∉ s.log := by simp [h.refused, hw]
  rw [h.held hm hb] at hp hlen
  have hpar := parse_append st d
  obtain ⟨P, hP⟩ : ∃ P, parse ((parse st).rest ++ d) = P := ⟨_, rfl⟩
  have hroom : P.rest.length ≤ recvCapacity := by
    have hl := congrArg List.length (parse_flatten ((parse st).rest ++ d))
    rw [hP, List.length_append, List.length_append] at hl
    omega
  have hrest := parse_rest ((parse st).rest ++ d)
  rw [hP] at hp hpar hrest
  rw [Passed, hm, hb] at hp
  have hgiven : payloads (deliver onRecv s.log false P.rest P.frames).1 =
      (parse (st ++ d)).frames.map payload := by
    rw [deliver_payloads, h.given, hpar, List.map_append]
  have hdis : Event.disconnect ∉ (deliver onRecv s.log false P.rest P.frames).1 := by
    rwa [deliver_disconnect]
  have hr : (parse (st ++ d)).rest = P.rest := by rw [hpar]
  cases hv : next P.rest with
  | frame n => exact absurd hv (hrest n)
  | wait =>
    rw [hv] at hp
    obtain ⟨h1, h2, h3, h4⟩ := hp
    refine ⟨hs, by rw [h1, hgiven], ?_, ?_, ?_, ?_, ?_, ?_⟩
    · simpa [h1, hr, hv] using hdis
    · simp [hr, hv]
    · intro hon hmk
      rw [h2, deliver_silent hon] at hmk
      exact absurd hmk Bool.false_ne_true
    · simp [h3, hr, hv]
    · simp [h3]
    · exact fun _ _ => by rw [h4, hr]
  | refuse =>
    rw [hv] at hp
    obtain ⟨h1, h2, h3⟩ := hp
    refine ⟨hs, ?_, ?_, ?_, ?_, ?_, ?_, ?_⟩
    · rw [h1, ← hgiven]
      simp [payloads]
    · simp [h1, hr, hv]
    · exact fun _ => h2
    · exact fun _ _ => by rw [hr, hv]
    · simp [h3, hr, hv]
    · simp [h3]
    · simp [h2]
  | long =>
    rw [hv] at hp
    obtain ⟨h1, h2, h3⟩ := hp
    refine ⟨hs, ?_, ?_, ?_, ?_, ?_, ?_, ?_⟩
    · rw [h1, ← hgiven]
      simp [payloads]
    · simpa [h1, hr, hv] using hdis
    · simp [hr, hv]
    · intro hon hmk
      rw [h2, deliver_silent hon] at hmk
      exact absurd hmk Bool.false_ne_true
    · simp [h3, hr, hv]
    · exact fun _ => by rw [hr]; exact hroom
    · simp [h3]

/-- **All completions**: the session ends up with those that came before it was marked, and with
whatever else each pass over a session that still receives preserves. -/
lemma receive_arrived (ha : ∀ n, Fresh (alloc n)) {I : Recv → Prop}
    (hI : ∀ s s' d, s.marked = false → I s → Passed onRecv s s' (parse (s.recvQ.contents ++ d)) → I s')
    {ds : List (List UInt8)} {first : Bool} {s : Recv} {st : List UInt8} (h : Arrived onRecv s st)
    (h0 : I s) (hf : first = true → s.recvQ.iFront = 0 ∧ s.recvQ.iRear = 0)
    (hfit : Fits alloc onRecv first s ds) :
    ∃ s' ds₁ ds₂, receive alloc onRecv first s ds = some s' ∧ ds = ds₁ ++ ds₂ ∧
      Arrived onRecv s' (st ++ ds₁.flatten) ∧ (ds₂ = [] ∨ s'.marked = true ∨ s'.broken = true) ∧
      I s' := by
  induction ds generalizing first s st with
  | nil => exact ⟨s, [], [], rfl, rfl, by simpa using h, .inl rfl, h0⟩
  | cons d ds ih =>
    by_cases hstop : s.marked = true ∨ s.broken = true
    · refine ⟨s, [], d :: ds, ?_, rfl, by simpa using h, .inr hstop, h0⟩
      rw [receive, if_pos hstop]
    · obtain ⟨hd, hn, hrest⟩ := hfit.resolve_left hstop
      obtain ⟨hm, hb⟩ : s.marked = false ∧ s.broken = false := by simpa using hstop
      obtain ⟨s₁, h1, h2, h3, h4⟩ := complete_eq onRecv ha h.ok hf hd hn
      obtain ⟨s', ds₁, ds₂, h5, h6, h7, h8⟩ := ih (h.step hm hb h2 h3 h4) (hI s s₁ d hm h0 h4)
        (fun h => absurd h Bool.false_ne_true) (hrest s₁ h1)
      refine ⟨s', d :: ds₁, ds₂, ?_, by rw [h6, List.cons_append], ?_, h8⟩
      · rw [receive, if_neg hstop, h1, Option.bind_some, h5]
      · rwa [List.flatten_cons, ← List.append_assoc]

lemma receive_accepted (ha : ∀ n, Fresh (alloc n)) {mem : List UInt8}
    (hm : mem.length = recvCapacity + 1) {ds : List (List UInt8)}
    (hfit : Fits alloc onRecv true (accepted mem) ds) :
    ∃ s ds₁ ds₂, receive alloc onRecv true (accepted mem) ds = some s ∧ ds = ds₁ ++ ds₂ ∧
      Arrived onRecv s ds₁.flatten ∧ (ds₂ = [] ∨ s.marked = true ∨ s.broken = true) := by
  obtain ⟨s, ds₁, ds₂, h1, h2, h3, h4, -⟩ := receive_arrived ha (I := fun _ => True)
    (fun _ _ _ _ _ _ => trivial) (arrived_start hm) trivial (fun _ => ⟨rfl, rfl⟩) hfit
  exact ⟨s, ds₁, ds₂, h1, h2, h3, h4⟩

/-! ### Frames and pieces -/

/-- Every header that a parse of the stream meets announces a payload that fits a packet. -/
def Bounded (st : List UInt8) : Prop :=
  ∀ (gs : List (List UInt8)) r, st = gs.flatten ++ r → (∀ g ∈ gs, WellFormed g) → 5 ≤ r.length →
    (NetHeader.ofBytes r).code = packetCode → (NetHeader.ofBytes r).len ≤ 1019

/-- The start of `r` is no frame to be accepted: its code is wrong, or it is whole and `Decode`
fails. -/
def Refused (r : List UInt8) : Prop :=
  5 ≤ r.length ∧ ((NetHeader.ofBytes r).code ≠ packetCode ∨
    ∃ g t, r = g ++ t ∧ Whole g ∧ ¬ Agrees g)

lemma Bounded.behind {st : List UInt8} (h : Bounded st) (h5 : 5 ≤ (parse st).rest.length)
    (hc : (NetHeader.ofBytes (parse st).rest).code = packetCode) :
    (NetHeader.ofBytes (parse st).rest).len ≤ 1019 :=
  h _ _ (parse_flatten st) (parse_wellFormed st) h5 hc

/-- Only the header of the rest can announce too much. -/
lemma bounded_of_rest {st : List UInt8} (h : 5 ≤ (parse st).rest.length →
    (NetHeader.ofBytes (parse st).rest).code = packetCode →
    (NetHeader.ofBytes (parse st).rest).len ≤ 1019) : Bounded st := by
  intro gs r hr hg h5 hc
  by_cases hf : ∃ n, next r = .frame n
  · obtain ⟨n, hn⟩ := hf
    obtain ⟨h1, h2, h3⟩ := next_frame hn
    have hfits := h3.isFrame.fits
    rwa [(take_whole h1 h2).1] at hfits
  · have hp := parse_unique hg fun n hn => hf ⟨n, hn⟩
    rw [hr, hp] at h
    exact h h5 hc

lemma whole_take {r g t : List UInt8} (h : r = g ++ t) (hg : Whole g) :
    NetHeader.ofBytes r = NetHeader.ofBytes g ∧ r.take (5 + (NetHeader.ofBytes r).len) = g ∧
      5 + (NetHeader.ofBytes r).len ≤ r.length := by
  have h5 := hg.length_eq
  have hhead : NetHeader.ofBytes r = NetHeader.ofBytes g := by
    rw [h, ofBytes_append (by rw [headerSize]; omega)]
  have hlen : 5 + (NetHeader.ofBytes r).len = g.length := by
    rw [hhead]
    omega
  refine ⟨hhead, ?_, ?_⟩
  · rw [hlen, h, List.take_left]
  · rw [hlen, h, List.length_append]
    omega

lemma refuse_iff {r : List UInt8}
    (hb : 5 ≤ r.length → (NetHeader.ofBytes r).code = packetCode → (NetHeader.ofBytes r).len ≤ 1019) :
    next r = .refuse ↔ Refused r := by
  constructor
  · intro h
    unfold next at h
    split_ifs at h with h1 h2 h3 h4 h5
    · exact ⟨by omega, .inl h2⟩
    · have hw := take_whole (c := r) rfl (by omega)
      exact ⟨by omega, .inr ⟨_, _, (List.take_append_drop _ r).symm, hw.2, h5⟩⟩
  · rintro ⟨h5, h⟩
    unfold next
    rw [if_neg (by omega)]
    by_cases hc : (NetHeader.ofBytes r).code ≠ packetCode
    · rw [if_pos hc]
    · obtain ⟨g, t, hg, hw, hna⟩ := h.resolve_left hc
      obtain ⟨-, h2, h3⟩ := whole_take hg hw
      have := hb h5 (not_not.mp hc)
      rw [if_neg hc, if_neg (by omega), if_neg (by omega), h2, if_neg hna]

lemma not_frame_iff {r : List UInt8} :
    (∀ n, next r ≠ .frame n) ↔ ¬ ∃ g t, r = g ++ t ∧ WellFormed g := by
  constructor
  · rintro h ⟨g, t, rfl, hg⟩
    exact h _ (next_wellFormed hg)
  · intro h n hn
    exact h ⟨_, _, (List.take_append_drop n r).symm, (next_frame hn).2.2⟩

/-- A rest that waits for a bounded frame is short. -/
lemma waiting_length {r : List UInt8} (h : next r = .wait)
    (hb : 5 ≤ r.length → (NetHeader.ofBytes r).code = packetCode → (NetHeader.ofBytes r).len ≤ 1019) :
    r.length < 1024 := by
  unfold next at h
  split_ifs at h with h1 h2 h3
  · omega
  · have := hb (by omega) (not_not.mp h2)
    omega

lemma bounded_not_long {r : List UInt8}
    (hb : 5 ≤ r.length → (NetHeader.ofBytes r).code = packetCode → (NetHeader.ofBytes r).len ≤ 1019) :
    next r ≠ .long := by
  intro h
  unfold next at h
  split_ifs at h with h1 h2 h3 h4
  have := hb (by omega) (not_not.mp h2)
  omega

lemma Bounded.of_append {a b : List UInt8} (h : Bounded (a ++ b)) : Bounded a := by
  intro gs r hr hg h5 hc
  have hh : NetHeader.ofBytes (r ++ b) = NetHeader.ofBytes r := ofBytes_append (by rw [headerSize]; omega) b
  have := h gs (r ++ b) (by rw [hr, List.append_assoc]) hg (by rw [List.length_append]; omega)
    (by rw [hh]; exact hc)
  rwa [hh] at this

/-- **The stream decides.** However a stream arrives, the worker passes on the payloads of its
well-formed frames and disconnects at the first frame that is none; else a short rest stays in
`recvQ`, and there is room for more. -/
theorem frames_received (ha : ∀ n, Fresh (alloc n)) (hon : ∀ log, onRecv log = false)
    {mem : List UInt8} (hm : mem.length = recvCapacity + 1) {ds : List (List UInt8)}
    (hfit : Fits alloc onRecv true (accepted mem) ds) (hb : Bounded ds.flatten) :
    ∃ s, receive alloc onRecv true (accepted mem) ds = some s ∧
      payloads s.log = (parse ds.flatten).frames.map payload ∧
      ds.flatten = (parse ds.flatten).frames.flatten ++ (parse ds.flatten).rest ∧
      (∀ g ∈ (parse ds.flatten).frames, WellFormed g) ∧
      (¬ ∃ g t, (parse ds.flatten).rest = g ++ t ∧ WellFormed g) ∧
      (Event.disconnect ∈ s.log ↔ Refused (parse ds.flatten).rest) ∧
      (Event.disconnect ∉ s.log → s.recvQ.getUseSize < 1024 ∧ 0 < postedSize false s.recvQ) := by
  obtain ⟨s, ds₁, ds₂, h1, rfl, h3, h4⟩ := receive_accepted ha hm hfit
  rw [List.flatten_append] at hb
  have hb₁ := hb.of_append
  have hbr := hb₁.behind
  have hnb : s.broken = false := by
    cases hs : s.broken with
    | false => rfl
    | true => exact absurd (h3.broken.mp hs) (bounded_not_long hbr)
  have hmk : s.marked = true ↔ next (parse ds₁.flatten).rest = .refuse := ⟨h3.silent hon, h3.marked⟩
  -- what comes after a refused frame does not arrive and would not matter
  have hsame : (parse (ds₁ ++ ds₂).flatten).frames = (parse ds₁.flatten).frames ∧
      (next (parse (ds₁ ++ ds₂).flatten).rest = .refuse ↔ next (parse ds₁.flatten).rest = .refuse) := by
    rcases h4 with rfl | hs | hs
    · rw [List.append_nil]
      exact ⟨rfl, Iff.rfl⟩
    · have hr := hmk.mp hs
      obtain ⟨e1, e2⟩ := parse_append_stop (s := ds₁.flatten) (t := ds₂.flatten) (by rw [hr]; simp)
      rw [List.flatten_append, e1, e2]
      exact ⟨rfl, Iff.rfl⟩
    · exact absurd hs (by simp [hnb])
  rw [← List.flatten_append] at hb
  have hrest := parse_rest (ds₁ ++ ds₂).flatten
  refine ⟨s, h1, by rw [h3.given, hsame.1], parse_flatten _, parse_wellFormed _,
    not_frame_iff.mp hrest, ?_, fun hno => ?_⟩
  · rw [h3.refused, ← hsame.2, refuse_iff hb.behind]
  · have hmf : s.marked = false := by
      cases hs : s.marked with
      | false => rfl
      | true => exact absurd (h3.refused.mpr (hmk.mp hs)) hno
    have hlt := waiting_length (h3.waiting hmf hnb) hbr
    rw [← h3.held hmf hnb] at hlt
    have hu := use_eq h3.ok
    have hfree := freeSize_eq h3.ok.wf
    have ht := h3.ok.total
    rw [postedSize_eq h3.ok.wf fun h => absurd h Bool.false_ne_true]
    rw [recvCapacity] at ht
    omega

/-- The state after a completion that fits, whichever way it is come by. -/
lemma Arrived.complete (ha : ∀ n, Fresh (alloc n)) {s s' : Recv} {st d : List UInt8} {first : Bool}
    (h : Arrived onRecv s st) (hm : s.marked = false) (hb : s.broken = false)
    (hf : first = true → s.recvQ.iFront = 0 ∧ s.recvQ.iRear = 0) (hd : d ≠ [])
    (hn : d.length ≤ postedSize first s.recvQ) (hs : complete alloc onRecv first s d = some s') :
    Arrived onRecv s' (st ++ d) := by
  obtain ⟨s₁, h1, h2, h3, h4⟩ := complete_eq onRecv ha h.ok hf hd hn
  obtain rfl := Option.some.inj (h1.symm.trans hs)
  exact h.step hm hb h2 h3 h4

/-- The room for the next completion. -/
lemma Arrived.room_eq {s : Recv} {st : List UInt8} (h : Arrived onRecv s st) (first : Bool)
    (hm : s.marked = false) (hb : s.broken = false)
    (hf : first = true → s.recvQ.iFront = 0 ∧ s.recvQ.iRear = 0) :
    postedSize first s.recvQ = recvCapacity - (parse st).rest.length := by
  have hu := use_eq h.ok
  have hfree := freeSize_eq h.ok.wf
  have ht := h.ok.total
  rw [h.held hm hb] at hu
  rw [postedSize_eq h.ok.wf hf]
  omega

/-- Completions of moderate size always fit. -/
lemma fits_small (ha : ∀ n, Fresh (alloc n)) {ds : List (List UInt8)} {first : Bool} {s : Recv}
    {st : List UInt8} (h : Arrived onRecv s st)
    (hf : first = true → s.recvQ.iFront = 0 ∧ s.recvQ.iRear = 0) (hb : Bounded (st ++ ds.flatten))
    (hd : ∀ d ∈ ds, d ≠ [] ∧ d.length ≤ 8976) : Fits alloc onRecv first s ds := by
  induction ds generalizing first s st with
  | nil => trivial
  | cons d ds ih =>
    by_cases hstop : s.marked = true ∨ s.broken = true
    · exact .inl hstop
    obtain ⟨hmk, hbr⟩ : s.marked = false ∧ s.broken = false := by simpa using hstop
    obtain ⟨hne, hle⟩ := hd d List.mem_cons_self
    have hlt := waiting_length (h.waiting hmk hbr) hb.of_append.behind
    have hroom := h.room_eq first hmk hbr hf
    rw [recvCapacity] at hroom
    have hn : (d.length : ℤ) ≤ postedSize first s.recvQ := by omega
    refine .inr ⟨hne, hn, fun s' hs => ?_⟩
    refine ih (h.complete ha hmk hbr hf hne hn hs) (fun h => absurd h Bool.false_ne_true) ?_
      fun x hx => hd x (List.mem_cons_of_mem _ hx)
    rwa [List.flatten_cons, ← List.append_assoc] at hb

/-- A frame of two bytes that arrives in two pieces, with a wrong code behind it. -/
theorem frames_received_pieces : ∃ s,
    receive (fun _ => blank) (fun _ => false) true (accepted (List.replicate 10001 0))
      [(frame 7 [1, 2]).take 3, (frame 7 [1, 2]).drop 3 ++ [0, 0, 0, 0, 0]] = some s ∧
      payloads s.log = [[1, 2]] ∧ Event.disconnect ∈ s.log := by
  have hflat : [(frame 7 [1, 2]).take 3, (frame 7 [1, 2]).drop 3 ++ [0, 0, 0, 0, 0]].flatten =
      [frame 7 [1, 2]].flatten ++ [0, 0, 0, 0, 0] := by
    simp [List.flatten_cons, List.flatten_nil, ← List.append_assoc, List.take_append_drop]
  have hwf : ∀ g ∈ [frame 7 [1, 2]], WellFormed g := by
    intro g hg
    obtain rfl := List.mem_singleton.mp hg
    exact ⟨frame_isFrame (by decide), agrees_frame (by decide)⟩
  have hnext : next ([0, 0, 0, 0, 0] : List UInt8) = .refuse := rfl
  have hpar : parse ([frame 7 [1, 2]].flatten ++ [0, 0, 0, 0, 0]) = ⟨[frame 7 [1, 2]], [0, 0, 0, 0, 0]⟩ :=
    parse_unique hwf fun n h => by rw [hnext] at h; exact Next.noConfusion h
  have hb : Bounded ([frame 7 [1, 2]].flatten ++ [0, 0, 0, 0, 0]) := by
    refine bounded_of_rest ?_
    rw [hpar]
    decide
  have hmem : (List.replicate 10001 (0 : UInt8)).length = recvCapacity + 1 := List.length_replicate
  have hfit : Fits (fun _ => blank) (fun _ => false) true (accepted (List.replicate 10001 0))
      [(frame 7 [1, 2]).take 3, (frame 7 [1, 2]).drop 3 ++ [0, 0, 0, 0, 0]] := by
    refine fits_small (fun _ => blank_fresh) (arrived_start hmem) (fun _ => ⟨rfl, rfl⟩) ?_ ?_
    · rw [List.nil_append, hflat]
      exact hb
    · intro d hd
      simp only [List.mem_cons, List.not_mem_nil, or_false] at hd
      rcases hd with rfl | rfl <;> exact ⟨by decide, by decide⟩
  obtain ⟨s, h1, h2, -, -, -, h3, -⟩ := frames_received (fun _ => blank_fresh) (fun _ => rfl) hmem hfit
    (by rw [hflat]; exact hb)
  rw [hflat, hpar] at h2 h3
  refine ⟨s, h1, ?_, h3.mpr ⟨by decide, .inl (by decide)⟩⟩
  rw [h2, List.map_singleton, payload_frame (by decide)]

end LoginServerChat.RecvRun
