import LoginServerChat.Cipher

/-!
What a stream of bytes means to the server: well-formed frames, one behind the other, and a rest
that is too short to judge or that is not to be accepted. Nothing here knows of buffers or of
the pieces in which a stream arrives.
-/

namespace LoginServerChat.Frames

open NetPacket Cipher

/-- A frame that `Decode` accepts and that fits a packet. -/
structure WellFormed (g : List UInt8) : Prop where
  isFrame : IsFrame g
  agrees : Agrees g

/-- What stands at the start of a stream. -/
inductive Next
  /-- A well-formed frame of `n` bytes. -/
  | frame (n : ℕ)
  | wait
  | refuse
  /-- A whole frame that is longer than a packet. -/
  | long
  deriving DecidableEq

def next (s : List UInt8) : Next :=
  if s.length < 5 then .wait
  else if (NetHeader.ofBytes s).code ≠ packetCode then .refuse
  else if s.length < 5 + (NetHeader.ofBytes s).len then .wait
  else if 1019 < (NetHeader.ofBytes s).len then .long
  else if Agrees (s.take (5 + (NetHeader.ofBytes s).len)) then .frame (5 + (NetHeader.ofBytes s).len)
  else .refuse

/-- The frames at the start of a stream, and what is left behind them. -/
structure Parsed where
  frames : List (List UInt8)
  rest : List UInt8

lemma next_frame {s : List UInt8} {n : ℕ} (h : next s = .frame n) :
    n = 5 + (NetHeader.ofBytes s).len ∧ n ≤ s.length ∧ WellFormed (s.take n) := by
  unfold next at h
  split_ifs at h with h1 h2 h3 h4 h5
  obtain rfl := Next.frame.inj h
  have hlen : (s.take (5 + (NetHeader.ofBytes s).len)).length = 5 + (NetHeader.ofBytes s).len := by
    rw [List.length_take]
    omega
  have hhead : NetHeader.ofBytes (s.take (5 + (NetHeader.ofBytes s).len)) = NetHeader.ofBytes s := by
    conv_rhs => rw [← List.take_append_drop (5 + (NetHeader.ofBytes s).len) s]
    rw [ofBytes_append (by rw [hlen, headerSize]; omega)]
  refine ⟨rfl, by omega, ⟨?_, ?_, ?_⟩, h5⟩
  · rw [Whole, hhead, hlen, headerSize]
  · rw [hhead]
    exact not_not.mp h2
  · rw [hhead]
    omega

def parse (s : List UInt8) : Parsed :=
  match _h : next s with
  | .frame n =>
    let r := parse (s.drop n)
    ⟨s.take n :: r.frames, r.rest⟩
  | _ => ⟨[], s⟩
termination_by s.length
decreasing_by
  obtain ⟨h1, h2, -⟩ := next_frame _h
  rw [List.length_drop]
  omega

variable {s t g : List UInt8} {n : ℕ}

lemma parse_frame (h : next s = .frame n) :
    parse s = ⟨s.take n :: (parse (s.drop n)).frames, (parse (s.drop n)).rest⟩ := by
  rw [parse]
  split
  · rename_i m hm
    obtain rfl := Next.frame.inj (h.symm.trans hm)
    rfl
  · rename_i hn
    exact absurd h (hn n)

lemma parse_stop (h : ∀ n, next s ≠ .frame n) : parse s = ⟨[], s⟩ := by
  rw [parse]
  split
  · rename_i n hn
    exact absurd hn (h n)
  · rfl

/-- A stream is taken apart by an induction over its frames. -/
lemma stream_ind {P : List UInt8 → Prop} (stop : ∀ s, (∀ n, next s ≠ .frame n) → P s)
    (step : ∀ s n, next s = .frame n → P (s.drop n) → P s) (s : List UInt8) : P s := by
  induction hl : s.length using Nat.strong_induction_on generalizing s with
  | _ l ih =>
    by_cases h : ∃ n, next s = .frame n
    · obtain ⟨n, hn⟩ := h
      obtain ⟨h1, h2, -⟩ := next_frame hn
      refine step s n hn (ih _ ?_ _ rfl)
      rw [List.length_drop]
      omega
    · exact stop s fun n hn => h ⟨n, hn⟩

lemma parse_flatten (s : List UInt8) : s = (parse s).frames.flatten ++ (parse s).rest := by
  induction s using stream_ind with
  | stop s h => rw [parse_stop h, List.flatten_nil, List.nil_append]
  | step s n h ih =>
    rw [parse_frame h, List.flatten_cons, List.append_assoc, ← ih, List.take_append_drop]

lemma parse_wellFormed (s : List UInt8) : ∀ g ∈ (parse s).frames, WellFormed g := by
  induction s using stream_ind with
  | stop s h =>
    rw [parse_stop h]
    exact fun g hg => absurd hg List.not_mem_nil
  | step s n h ih =>
    rw [parse_frame h]
    intro g hg
    rcases List.mem_cons.mp hg with rfl | hg
    · exact (next_frame h).2.2
    · exact ih g hg

lemma parse_rest (s : List UInt8) : ∀ n, next (parse s).rest ≠ .frame n := by
  induction s using stream_ind with
  | stop s h =>
    rw [parse_stop h]
    exact h
  | step s n h ih =>
    rw [parse_frame h]
    exact ih

/-- Only a stream that is too short changes its meaning when more bytes arrive. -/
lemma next_append (h : next s ≠ .wait) : next (s ++ t) = next s := by
  unfold next at h ⊢
  have h5 : ¬ s.length < 5 := fun h' => h (if_pos h')
  rw [if_neg h5] at h ⊢
  have hhead : NetHeader.ofBytes (s ++ t) = NetHeader.ofBytes s :=
    ofBytes_append (by rw [headerSize]; omega) t
  rw [if_neg (by rw [List.length_append]; omega), hhead]
  by_cases hc : (NetHeader.ofBytes s).code ≠ packetCode
  · rw [if_pos hc, if_pos hc]
  rw [if_neg hc] at h ⊢
  rw [if_neg hc]
  have hl : ¬ s.length < 5 + (NetHeader.ofBytes s).len := fun h' => h (if_pos h')
  rw [if_neg hl, if_neg (by rw [List.length_append]; omega), List.take_append_of_le_length (by omega)]

/-- What a well-formed frame at the start of a stream says. -/
lemma next_wellFormed (hg : WellFormed g) : next (g ++ t) = .frame g.length := by
  have h5 := hg.isFrame.whole.length_eq
  have hhead : NetHeader.ofBytes (g ++ t) = NetHeader.ofBytes g :=
    ofBytes_append (by rw [headerSize]; omega) t
  have hcode := hg.isFrame.code
  have hfits := hg.isFrame.fits
  have hlen : 5 + (NetHeader.ofBytes g).len = g.length := by omega
  unfold next
  rw [hhead, if_neg (by rw [List.length_append]; omega), if_neg (not_not.mpr hcode),
    if_neg (by rw [List.length_append]; omega), if_neg (by omega), hlen, List.take_left,
    if_pos hg.agrees]

/-- **The parse is the only one.** -/
lemma parse_unique {gs : List (List UInt8)} (hg : ∀ g ∈ gs, WellFormed g)
    (ht : ∀ n, next t ≠ .frame n) : parse (gs.flatten ++ t) = ⟨gs, t⟩ := by
  induction gs with
  | nil =>
    rw [List.flatten_nil, List.nil_append]
    exact parse_stop ht
  | cons g gs ih =>
    have h := next_wellFormed (t := gs.flatten ++ t) (hg g List.mem_cons_self)
    rw [List.flatten_cons, List.append_assoc, parse_frame h, List.drop_left, List.take_left,
      ih fun x hx => hg x (List.mem_cons_of_mem _ hx)]

lemma parse_flatten_append {gs : List (List UInt8)} (hg : ∀ g ∈ gs, WellFormed g) (t : List UInt8) :
    parse (gs.flatten ++ t) = ⟨gs ++ (parse t).frames, (parse t).rest⟩ := by
  induction gs with
  | nil => rfl
  | cons g gs ih =>
    have h := next_wellFormed (t := gs.flatten ++ t) (hg g List.mem_cons_self)
    rw [List.flatten_cons, List.append_assoc, parse_frame h, List.drop_left, List.take_left,
      ih fun x hx => hg x (List.mem_cons_of_mem _ hx), List.cons_append]

/-- What a frame with a wrong checksum at the start of a stream says. -/
lemma next_disagrees (hg : IsFrame g) (ha : ¬Agrees g) : next (g ++ t) = .refuse := by
  have h5 := hg.whole.length_eq
  have hhead : NetHeader.ofBytes (g ++ t) = NetHeader.ofBytes g :=
    ofBytes_append (by rw [headerSize]; omega) t
  have hcode := hg.code
  have hfits := hg.fits
  have hlen : 5 + (NetHeader.ofBytes g).len = g.length := by omega
  unfold next
  rw [hhead, if_neg (by rw [List.length_append]; omega), if_neg (not_not.mpr hcode),
    if_neg (by rw [List.length_append]; omega), if_neg (by omega), hlen, List.take_left, if_neg ha]

/-- A frame with a wrong checksum is where the stream is refused, whatever is in front of it or behind. -/
lemma parse_disagrees {gs : List (List UInt8)} (hg : ∀ g ∈ gs, IsFrame g) (ha : ∃ g ∈ gs, ¬Agrees g) :
    next (parse (gs.flatten ++ t)).rest = .refuse := by
  induction gs with
  | nil =>
    obtain ⟨g, hm, -⟩ := ha
    exact absurd hm List.not_mem_nil
  | cons g gs ih =>
    have hf := hg g List.mem_cons_self
    rw [List.flatten_cons, List.append_assoc]
    by_cases hag : Agrees g
    · rw [parse_frame (next_wellFormed ⟨hf, hag⟩), List.drop_left]
      refine ih (fun x hx => hg x (List.mem_cons_of_mem _ hx)) ?_
      obtain ⟨x, hx, hax⟩ := ha
      rcases List.mem_cons.mp hx with rfl | hx
      · exact absurd hag hax
      · exact ⟨x, hx, hax⟩
    · have h := next_disagrees (t := gs.flatten ++ t) hf hag
      rw [parse_stop fun n hn => Next.noConfusion (h.symm.trans hn)]
      exact h

/-- Bytes that arrive later continue the rest. -/
lemma parse_append (s t : List UInt8) : parse (s ++ t) =
    ⟨(parse s).frames ++ (parse ((parse s).rest ++ t)).frames, (parse ((parse s).rest ++ t)).rest⟩ := by
  induction s using stream_ind with
  | stop s h => rw [parse_stop h, List.nil_append]
  | step s n h ih =>
    have h' : next (s ++ t) = .frame n := by rw [next_append (by rw [h]; simp), h]
    obtain ⟨-, h2, -⟩ := next_frame h
    rw [parse_frame h, parse_frame h', List.drop_append_of_le_length h2, ih,
      List.take_append_of_le_length h2, List.cons_append]

/-- Once a stream is refused, or has a long frame, the rest of it does not matter. -/
lemma parse_append_stop (h : next (parse s).rest ≠ .wait) :
    parse (s ++ t) = ⟨(parse s).frames, (parse s).rest ++ t⟩ ∧
      next ((parse s).rest ++ t) = next (parse s).rest := by
  have h1 := next_append (t := t) h
  refine ⟨?_, h1⟩
  rw [parse_append, parse_stop (s := (parse s).rest ++ t) (by rw [h1]; exact parse_rest s),
    List.append_nil]

end LoginServerChat.Frames
