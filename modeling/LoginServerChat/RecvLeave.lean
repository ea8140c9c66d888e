import LoginServerChat.RecvRun

/-!
`OnRecv` may disconnect its own session. No receive is posted then, but the loop goes on with what
already lies in `recvQ`: whether another packet follows depends on how the stream arrived.
-/

namespace LoginServerChat.RecvLeave

open NetPacket Packet Cipher Frames RecvLoop RecvRun

variable {alloc : ℕ → Packet} {onRecv : List Event → Bool} {log : List Event}
variable {rest : List UInt8} {gs : List (List UInt8)}

/-- Once `Disconnect` has returned true to `OnRecv`, no packet is passed to it. -/
def Ended (log : List Event) : Prop :=
  ∀ a c b, log = a ++ Event.left true c :: b → ∀ xs, Event.onRecv xs ∉ b

/-- When `Disconnect` returns true to `OnRecv`, no well-formed frame follows in `recvQ`. -/
def Alone (log : List Event) : Prop :=
  ∀ c, Event.left true c ∈ log → ¬ ∃ g t, c = g ++ t ∧ WellFormed g

/-- `Disconnect` has not yet returned true to `OnRecv`. -/
def Stays (log : List Event) : Prop := ∀ c, Event.left true c ∉ log

lemma Stays.ended (h : Stays log) : Ended log := by
  rintro a c b rfl
  exact absurd (List.mem_append_right a List.mem_cons_self) (h c)

lemma Stays.alone (h : Stays log) : Alone log := fun c hc => absurd hc (h c)

lemma Stays.append {log' : List Event} (h : Stays log) (h' : Stays log') : Stays (log ++ log') := by
  intro c hc
  rcases List.mem_append.mp hc with hc | hc
  · exact h c hc
  · exact h' c hc

/-- The calls of a session that is marked already: `Disconnect` returns false to all of them. -/
lemma deliver_marked (onRecv : List Event → Bool) (log : List Event) (rest : List UInt8)
    (gs : List (List UInt8)) : ∃ ext, (deliver onRecv log true rest gs).1 = log ++ ext ∧ Stays ext ∧
    ((∃ xs, Event.onRecv xs ∈ ext) ↔ gs ≠ []) ∧ (deliver onRecv log true rest gs).2 = true := by
  induction gs generalizing log with
  | nil => exact ⟨[], by simp [deliver], by simp [Stays], by simp, rfl⟩
  | cons g gs ih =>
    rw [deliver]
    split_ifs
    · obtain ⟨ext, h1, h2, -, h4⟩ := ih (log ++ [.onRecv (payload g)] ++
        [.left (!true) (gs.flatten ++ rest)])
      refine ⟨.onRecv (payload g) :: .left false (gs.flatten ++ rest) :: ext, ?_, ?_, ?_, h4⟩
      · rw [h1]
        simp
      · intro c hc
        exact h2 c (by simpa using hc)
      · exact ⟨fun _ => List.cons_ne_nil _ _, fun _ => ⟨_, List.mem_cons_self⟩⟩
    · obtain ⟨ext, h1, h2, -, h4⟩ := ih (log ++ [.onRecv (payload g)])
      refine ⟨.onRecv (payload g) :: ext, ?_, ?_, ?_, h4⟩
      · rw [h1]
        simp
      · intro c hc
        exact h2 c (by simpa using hc)
      · exact ⟨fun _ => List.cons_ne_nil _ _, fun _ => ⟨_, List.mem_cons_self⟩⟩

/-- A log with one `Disconnect` that returned true, in front of `ext`. -/
lemma ended_iff {c : List UInt8} {ext : List Event} (h : Stays log) (he : Stays ext) :
    Ended (log ++ Event.left true c :: ext) ↔ ∀ xs, Event.onRecv xs ∉ ext := by
  constructor
  · exact fun hend => hend log c ext rfl
  · rintro hno a c' b hab
    -- the two marks are the same one
    have hlen : b = ext := by
      rcases List.append_eq_append_iff.mp hab with ⟨as, rfl, h2⟩ | ⟨bs, rfl, h2⟩
      · cases as with
        | nil =>
          rw [List.nil_append] at h2
          exact (List.cons.inj h2).2.symm
        | cons y ys =>
          rw [List.cons_append] at h2
          have := (List.cons.inj h2).2
          exact absurd (this ▸ List.mem_append_right ys List.mem_cons_self) (he c')
      · cases bs with
        | nil =>
          rw [List.nil_append] at h2
          exact (List.cons.inj h2).2
        | cons y ys =>
          rw [List.cons_append] at h2
          exact absurd ((List.cons.inj h2).1 ▸ List.mem_append_right a List.mem_cons_self) (h c')
    rwa [hlen]

lemma alone_iff {c : List UInt8} {ext : List Event} (h : Stays log) (he : Stays ext) :
    Alone (log ++ Event.left true c :: ext) ↔ ¬ ∃ g t, c = g ++ t ∧ WellFormed g := by
  constructor
  · exact fun ha => ha c (List.mem_append_right log List.mem_cons_self)
  · intro hc c' hc'
    rcases List.mem_append.mp hc' with h1 | h1
    · exact absurd h1 (h c')
    · rcases List.mem_cons.mp h1 with h2 | h2
      · obtain ⟨-, rfl⟩ := Event.left.inj h2
        exact hc
      · exact absurd h2 (he c')

/-- **The calls of a pass.** If one of them ends the session, it does so exactly if it is the one
for the last frame. -/
lemma deliver_ended (onRecv : List Event → Bool) {tail : List Event} (h : Stays log) (hgs : ∀ g ∈ gs, WellFormed g)
    (hr : ∀ n, next rest ≠ .frame n) (ht : Stays tail) (ho : ∀ xs, Event.onRecv xs ∉ tail) :
    ((deliver onRecv log false rest gs).2 = false →
      Stays ((deliver onRecv log false rest gs).1 ++ tail)) ∧
    (Ended ((deliver onRecv log false rest gs).1 ++ tail) ↔
      Alone ((deliver onRecv log false rest gs).1 ++ tail)) := by
  induction gs generalizing log with
  | nil =>
    have hs := h.append ht
    exact ⟨fun _ => hs, iff_of_true hs.ended hs.alone⟩
  | cons g gs ih =>
    have hlog : Stays (log ++ [Event.onRecv (payload g)]) := h.append (by simp [Stays])
    have hgs' : ∀ x ∈ gs, WellFormed x := fun x hx => hgs x (List.mem_cons_of_mem _ hx)
    rw [deliver]
    split_ifs
    · obtain ⟨ext, h1, h2, h3, h4⟩ := deliver_marked onRecv
        (log ++ [.onRecv (payload g)] ++ [.left (!false) (gs.flatten ++ rest)]) rest gs
      refine ⟨fun hf => absurd (h4.symm.trans hf) (by simp), ?_⟩
      have he : (log ++ [Event.onRecv (payload g)] ++ [Event.left (!false) (gs.flatten ++ rest)] ++
          ext) ++ tail = (log ++ [Event.onRecv (payload g)]) ++
          Event.left true (gs.flatten ++ rest) :: (ext ++ tail) := by simp
      rw [h1, he, ended_iff hlog (h2.append ht), alone_iff hlog (h2.append ht)]
      have hon : (∀ xs, Event.onRecv xs ∉ ext ++ tail) ↔ gs = [] := by
        rw [← not_iff_not, ← ne_eq, ← h3]
        simp [ho]
      rw [hon]
      cases gs with
      | nil =>
        rw [List.flatten_nil, List.nil_append]
        exact iff_of_true rfl (not_frame_iff.mp hr)
      | cons x gs =>
        refine iff_of_false (List.cons_ne_nil _ _) (not_not.mpr ?_)
        exact ⟨x, gs.flatten ++ rest, by simp, hgs' x List.mem_cons_self⟩
    · exact ih hlog hgs'

/-- What each pass preserves. -/
def Leaves (s : Recv) : Prop := (s.marked = false → Stays s.log) ∧ (Ended s.log ↔ Alone s.log)

lemma passed_leaves {s s' : Recv} {c : List UInt8} (hm : s.marked = false) (h : Leaves s)
    (hp : Passed onRecv s s' (parse c)) : Leaves s' := by
  have hd := fun (tail : List Event) (ht : Stays tail) (ho : ∀ xs, Event.onRecv xs ∉ tail) =>
    deliver_ended onRecv (h.1 hm) (parse_wellFormed c) (parse_rest c) ht ho
  rw [Passed, hm] at hp
  cases hv : next (parse c).rest with
  | frame n => exact absurd hv (parse_rest c n)
  | wait =>
    rw [hv] at hp
    obtain ⟨h1, h2, -, -⟩ := hp
    have := hd [] (by simp [Stays]) (by simp)
    rw [List.append_nil] at this
    rw [Leaves, h1, h2]
    exact this
  | refuse =>
    rw [hv] at hp
    obtain ⟨h1, h2, -⟩ := hp
    have := hd [.disconnect] (by simp [Stays]) (by simp)
    rw [Leaves, h1, h2]
    exact ⟨fun hf => absurd hf (by simp), this.2⟩
  | long =>
    rw [hv] at hp
    obtain ⟨h1, h2, -⟩ := hp
    have := hd [.overrun] (by simp [Stays]) (by simp)
    rw [Leaves, h1, h2]
    exact this

/-- **Leaving from `OnRecv`.** It ends the calls exactly if no well-formed frame lies in `recvQ`
behind the packet that is handled. -/
theorem leave_iff (ha : ∀ n, Fresh (alloc n)) {mem : List UInt8} (hm : mem.length = recvCapacity + 1)
    {ds : List (List UInt8)} (hfit : Fits alloc onRecv true (accepted mem) ds) :
    ∃ s, receive alloc onRecv true (accepted mem) ds = some s ∧ (Ended s.log ↔ Alone s.log) := by
  have h0 : Stays (accepted mem).log := by simp [Stays, accepted]
  obtain ⟨s, -, -, h1, -, -, -, h2⟩ := receive_arrived ha (I := Leaves)
    (fun s s' d hmk hs hp => passed_leaves hmk hs hp) (arrived_start hm)
    ⟨fun _ => h0, iff_of_true h0.ended h0.alone⟩ (fun _ => ⟨rfl, rfl⟩) hfit
  exact ⟨s, h1, h2.2⟩

/-- Frames that come in one completion, to a session that has received nothing. -/
lemma receive_one (onRecv : List Event → Bool) (ha : ∀ n, Fresh (alloc n)) {mem : List UInt8} (hm : mem.length = recvCapacity + 1)
    (hgs : ∀ g ∈ gs, WellFormed g) (hne : gs.flatten ≠ []) (hn : gs.flatten.length ≤ 10000) :
    Fits alloc onRecv true (accepted mem) [gs.flatten] ∧
    ∃ s, receive alloc onRecv true (accepted mem) [gs.flatten] = some s ∧
      s.log = (deliver onRecv [] false [] gs).1 := by
  have h : Arrived onRecv (accepted mem) [] := arrived_start hm
  have hroom := h.room_eq true rfl rfl fun _ => ⟨rfl, rfl⟩
  rw [parse_nil, recvCapacity, List.length_nil] at hroom
  have hn' : (gs.flatten.length : ℤ) ≤ postedSize true (accepted mem).recvQ := by omega
  refine ⟨.inr ⟨hne, hn', fun _ _ => trivial⟩, ?_⟩
  obtain ⟨s, h1, -, -, h4⟩ := complete_eq onRecv ha h.ok (fun _ => ⟨rfl, rfl⟩) hne hn'
  have hp : parse gs.flatten = ⟨gs, []⟩ := by
    have := parse_unique (t := []) hgs fun n h => Next.noConfusion h
    rwa [List.append_nil] at this
  rw [h.held rfl rfl, parse_nil, List.nil_append, hp] at h4
  refine ⟨s, ?_, h4.1⟩
  rw [receive, if_neg (by simp [accepted]), h1]
  rfl

lemma small_wellFormed (k x : UInt8) : WellFormed (frame k [x]) :=
  ⟨frame_isFrame (by simp), agrees_frame (by simp)⟩

/-- One packet, whose handler disconnects. -/
theorem leave_iff_single : ∃ s,
    receive (fun _ => blank) (fun _ => true) true (accepted (List.replicate 10001 0))
      [[frame 7 [1]].flatten] = some s ∧ Event.left true [] ∈ s.log ∧ Ended s.log := by
  have hgs : ∀ g ∈ [frame 7 [1]], WellFormed g := by simp [small_wellFormed]
  obtain ⟨hfit, s, h1, h2⟩ := receive_one (fun _ => true) (fun _ => blank_fresh)
    zeros_length hgs (by decide) (by decide)
  obtain ⟨s', h3, h4⟩ := leave_iff (fun _ => blank_fresh) zeros_length hfit
  obtain rfl := Option.some.inj (h1.symm.trans h3)
  have hlog : s.log = [.onRecv (payload (frame 7 [1])), .left true []] := h2
  refine ⟨s, h1, by simp [hlog], h4.mpr fun c hc => ?_⟩
  obtain rfl : c = [] := by simpa [hlog] using hc
  exact not_frame_iff.mp fun n h => Next.noConfusion h

/-- Two packets arrive together and the handler of the first one disconnects: the second one is
handled all the same. -/
theorem handled_after_leave :
    Fits (fun _ => blank) (fun _ => true) true (accepted (List.replicate 10001 0))
      [[frame 7 [1], frame 9 [2]].flatten] ∧
    ∃ s, receive (fun _ => blank) (fun _ => true) true (accepted (List.replicate 10001 0))
      [[frame 7 [1], frame 9 [2]].flatten] = some s ∧
      s.log = [.onRecv [1], .left true (frame 9 [2]), .onRecv [2], .left false []] ∧
      ¬ Ended s.log := by
  have hgs : ∀ g ∈ [frame 7 [1], frame 9 [2]], WellFormed g := by simp [small_wellFormed]
  obtain ⟨hfit, s, h1, h2⟩ := receive_one (fun _ => true) (fun _ => blank_fresh)
    zeros_length hgs (by decide) (by decide)
  have hlog : s.log = [.onRecv [1], .left true (frame 9 [2]), .onRecv [2], .left false []] := by
    rw [h2]
    simp [deliver, payload_frame]
  refine ⟨hfit, s, h1, hlog, fun h => ?_⟩
  exact h [.onRecv [1]] _ [.onRecv [2], .left false []] hlog [2] List.mem_cons_self

end LoginServerChat.RecvLeave
