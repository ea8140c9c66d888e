import LoginServerChat.RecvPackets
import LoginServerChat.AcceptUndo
import LoginServerChat.SendPath
import LoginServerChat.Frames

/-!
What the server makes of the bytes that its clients send. Beside the server stand, for each slot, the
bytes that the receives of its session have brought, and what `OnRecv` has been called with. No step reads
them. In every run the one is the other, taken apart frame by frame.
-/

namespace LoginServerChat.StreamOrder

open NetPacket Packet Cipher NetState NetStep SlotStep SlotView SlotRun SlotRefs SlotPhase SlotLive SlotJoin
  SlotRecv SlotSend SendPath AcceptUndo PacketStep PacketRefs RecvRoom RecvPackets Runs
open Frames (next parse parse_flatten_append parse_disagrees parse_rest parse_stop)

/-! ### The stream of a session -/

structure Stream where
  arrived : List UInt8
  handled : List (List UInt8)

def Stream.start : Stream := ⟨[], []⟩
def Stream.arrive (s : Stream) (d : List UInt8) : Stream := { s with arrived := s.arrived ++ d }
def Stream.handle (s : Stream) (xs : List UInt8) : Stream := { s with handled := s.handled ++ [xs] }

/-- The frames `F` have been taken out of the stream, those that `Decode` has not rejected have been
handled, and `left` has not been taken out. -/
structure Took (s : Stream) (F : List (List UInt8)) (left : List UInt8) : Prop where
  frames : ∀ f ∈ F, IsFrame f
  arrived : s.arrived = F.flatten ++ left
  handled : s.handled = (F.filter fun f => decide (Agrees f)).map payload

variable {s : Stream} {F : List (List UInt8)} {left f : List UInt8}

lemma Took.start : Took .start [] [] := ⟨fun _ hf => absurd hf List.not_mem_nil, rfl, rfl⟩

lemma Took.arrive (h : Took s F left) (d : List UInt8) : Took (s.arrive d) F (left ++ d) :=
  ⟨h.frames, by rw [Stream.arrive, h.arrived, List.append_assoc], h.handled⟩

lemma Took.snoc (h : Took s F (f ++ left)) (hf : IsFrame f) :
    (∀ g ∈ F ++ [f], IsFrame g) ∧ s.arrived = (F ++ [f]).flatten ++ left := by
  refine ⟨fun g hg => ?_, ?_⟩
  · rcases List.mem_append.mp hg with hg | hg
    · exact h.frames g hg
    · exact List.mem_singleton.mp hg ▸ hf
  · rw [h.arrived, List.flatten_append, List.append_assoc, List.flatten_singleton]

lemma Took.handle (h : Took s F (f ++ left)) (hf : IsFrame f) (ha : Agrees f) :
    Took (s.handle (payload f)) (F ++ [f]) left := by
  obtain ⟨h1, h2⟩ := h.snoc hf
  refine ⟨h1, h2, ?_⟩
  rw [Stream.handle, h.handled, List.filter_append, List.filter_singleton, decide_eq_true ha, cond_true,
    List.map_append, List.map_singleton]

lemma Took.reject (h : Took s F (f ++ left)) (hf : IsFrame f) (ha : ¬Agrees f) : Took s (F ++ [f]) left := by
  obtain ⟨h1, h2⟩ := h.snoc hf
  refine ⟨h1, h2, ?_⟩
  rw [h.handled, List.filter_append, List.filter_singleton, decide_eq_false ha, cond_false, List.append_nil]

/-- Nothing more can be taken out, unless a frame has been rejected. -/
def Quiet (F : List (List UInt8)) (left : List UInt8) : Prop :=
  (∀ f ∈ F, Agrees f) → ∀ n, next left ≠ .frame n

lemma Took.agree (h : Took s F left) (hn : next (parse s.arrived).rest ≠ .refuse) : ∀ f ∈ F, Agrees f := by
  by_contra ha
  push Not at ha
  rw [h.arrived] at hn
  exact hn (parse_disagrees h.frames ha)

/-- As long as the stream is not refused, what has been handled are its first frames. -/
lemma Took.parse (h : Took s F left) (hn : next (parse s.arrived).rest ≠ .refuse) :
    parse s.arrived = ⟨F ++ (parse left).frames, (parse left).rest⟩ ∧ s.handled = F.map payload := by
  have ha := h.agree hn
  refine ⟨?_, ?_⟩
  · rw [h.arrived, parse_flatten_append fun f hf => ⟨h.frames f hf, ha f hf⟩]
  · rw [h.handled, List.filter_eq_self.mpr fun f hf => decide_eq_true (ha f hf)]

variable {τ : Type*} [DecidableEq τ]

/-- The step of a thread from one point to another. `OnClientJoin` starts the stream of a session, and
what is handled is what the packet holds when `OnRecv` is called. -/
def note (S : ℕ → Stream) (m : Mem) : Pc → Pc → ℕ → Stream
  | .accOn i (.join _), .accOn _ (.joining _) => Function.update S i .start
  | .work i (.recv (.decode p)), .work _ (.recv (.onRecv _)) =>
    Function.update S i ((S i).handle (held (m.packet p)))
  | _, _ => S

def observe (S : ℕ → Stream) (c c' : Config τ) : Act τ → ℕ → Stream
  | .run t _ => note S c'.mem (c.loc t).pc (c'.loc t).pc
  | .complete io _ d => if io.send then S else Function.update S io.slot ((S io.slot).arrive d)
  | .give _ _ _ => S

/-- The server with the streams beside it. -/
structure Watched (τ : Type*) where
  c : Config τ
  streams : ℕ → Stream

def watch (W : Watched τ) (x : Act τ) : Option (Watched τ) :=
  (step W.c x).map fun c' => ⟨c', observe W.streams W.c c' x⟩

def unwatched (c : Config τ) : Watched τ := ⟨c, fun _ => .start⟩

variable {S : ℕ → Stream} {m m' : Mem} {l l' : Local} {i k : ℕ} {ch : Choice} {pc pc' : Pc}

omit [DecidableEq τ] in
/-- A thread that is not about to call `OnRecv` leaves the streams alone, but for `OnClientJoin`. -/
lemma note_aside (hr : (∀ j p, pc' ≠ .work j (.recv (.onRecv p))) ∨ receiving pc' = receiving pc) (k : ℕ) :
    note S m pc pc' k = S k ∨ ∃ s j s', pc = .accOn k (.join s) ∧ pc' = .accOn j (.joining s') := by
  unfold note
  split
  · rename_i i s j s'
    by_cases hk : k = i
    · subst hk
      exact .inr ⟨s, j, s', rfl, rfl⟩
    · exact .inl (Function.update_of_ne hk ..)
  · rename_i i p j q
    rcases hr with hr | hr
    · exact absurd rfl (hr j q)
    · cases hr
  · exact .inl rfl

omit [DecidableEq τ] in
lemma note_off {w : WorkPc} (hp : pc = .work i w) (hk : k ≠ i) : note S m pc pc' k = S k := by
  unfold note
  split
  · cases hp
  · obtain ⟨rfl, -⟩ := Pc.work.inj hp
    exact Function.update_of_ne hk ..
  · rfl

omit [DecidableEq τ] in
lemma note_same (hj : (∀ i s, pc ≠ .accOn i (.join s)) ∨ ∀ i s, pc' ≠ .accOn i (.joining s))
    (hd : ∀ i p, pc ≠ .work i (.recv (.decode p))) : note S m pc pc' = S := by
  unfold note
  split
  · rcases hj with hj | hj
    · exact absurd rfl (hj _ _)
    · exact absurd rfl (hj _ _)
  · exact absurd rfl (hd _ _)
  · rfl

/-! ### Where the rest of a stream is -/

def bytes (m : Mem) (k : ℕ) : List UInt8 := (m.sess k).recvQ.map Prod.fst

/-- What is left of the stream of slot `k`, by what a worker has in hand of it. Once `socket` is
`INVALID_SOCKET`, what a receive brings is not taken in any more. -/
def InHand (m : Mem) (k : ℕ) (F : List (List UInt8)) (left : List UInt8) : WorkPc → Prop
  | .entry (.recvDone d _) =>
    (m.sess k).socket ≠ invalidSocket → left = bytes m k ++ d ∧ Quiet F (bytes m k)
  | .recv (.moveRear d _) => left = bytes m k ++ d
  | .recv (.decode p) => ∃ f, Holds (m.packet p) f ∧ left = f ++ bytes m k
  | .recv (.bad _) | .recv .disconnect | .recv .disconnected => left = bytes m k ∧ Quiet F (bytes m k)
  | .recv _ => left = bytes m k
  | _ => True

structure Behind (c : Config τ) (k : ℕ) (F : List (List UInt8)) (left : List UInt8) : Prop where
  idle : (c.mem.sess k).socket ≠ invalidSocket → (∀ d s, (k, .recvDone d s) ∉ c.mem.queue) →
    (∀ t w, receiving (c.loc t).pc ≠ some (k, w)) → left = bytes c.mem k ∧ Quiet F (bytes c.mem k)
  queued : ∀ d s, (k, .recvDone d s) ∈ c.mem.queue → (c.mem.sess k).socket ≠ invalidSocket →
    left = bytes c.mem k ++ d ∧ Quiet F (bytes c.mem k)
  hand : ∀ t w, receiving (c.loc t).pc = some (k, w) → InHand c.mem k F left w

/-- What the stream of slot `k` is to the server. -/
def Followed (c : Config τ) (S : ℕ → Stream) (k : ℕ) : Prop :=
  ∃ F left, Took (S k) F left ∧ ((c.mem.hist k).joined = true → Behind c k F left)

/-! ### The worker -/

lemma front_eq {q : List (UInt8 × ℕ)} (h : headerSize ≤ q.length) :
    front q = NetHeader.ofBytes (q.map Prod.fst) := by
  conv_rhs => rw [← List.take_append_drop headerSize q, List.map_append]
  rw [ofBytes_append]
  · rfl
  · rw [List.length_map, List.length_take]
    omega

lemma quiet_short (h : (m.sess k).recvQ.length < headerSize) : Quiet F (bytes m k) := by
  intro _ n hn
  rw [next, if_pos (by rw [bytes, List.length_map]; exact h)] at hn
  cases hn

lemma quiet_code (h5 : headerSize ≤ (m.sess k).recvQ.length) (hc : (front (m.sess k).recvQ).code ≠ packetCode) :
    Quiet F (bytes m k) := by
  intro _ n hn
  rw [front_eq h5] at hc
  rw [next, if_neg (by rw [bytes, List.length_map, not_lt]; exact h5), bytes, if_pos hc] at hn
  cases hn

lemma quiet_part (h5 : headerSize ≤ (m.sess k).recvQ.length)
    (hc : (front (m.sess k).recvQ).code = packetCode)
    (hl : (m.sess k).recvQ.length < headerSize + (front (m.sess k).recvQ).len) : Quiet F (bytes m k) := by
  intro _ n hn
  rw [front_eq h5] at hc hl
  rw [next, if_neg (by rw [bytes, List.length_map, not_lt]; exact h5), bytes, if_neg (not_not.mpr hc),
    if_pos (by rw [List.length_map]; exact hl)] at hn
  cases hn

lemma bytes_eq (h : (m'.sess k).recvQ = (m.sess k).recvQ) : bytes m' k = bytes m k := by rw [bytes, h, bytes]

/-- What the worker makes of what it has in hand. -/
def Follows (S : ℕ → Stream) (m' : Mem) (pc pc' : Pc) (i : ℕ) : Prop :=
  ∃ F left, Took (note S m' pc pc' i) F left ∧
    (∀ w, receiving pc' = some (i, w) → InHand m' i F left w) ∧
    (receiving pc' = none → left = bytes m' i ∧ Quiet F (bytes m' i))

lemma Follows.at' {w : WorkPc} (hr : receiving pc' = some (i, w))
    (hT : Took (note S m' pc pc' i) F left) (hH : InHand m' i F left w) : Follows S m' pc pc' i := by
  refine ⟨F, left, hT, fun x hx => ?_, fun h => ?_⟩
  · obtain rfl := (Prod.mk.inj (Option.some.inj (hr.symm.trans hx))).2
    exact hH
  · cases hr.symm.trans h

lemma Follows.done (hr : receiving pc' = none) (hT : Took (note S m' pc pc' i) F left)
    (hH : left = bytes m' i ∧ Quiet F (bytes m' i)) : Follows S m' pc pc' i :=
  ⟨F, left, hT, fun _ hx => by (cases hr.symm.trans hx), fun _ => hH⟩

/-- A whole frame is taken out of `recvQ`. -/
lemma follows_dequeue {h : NetHeader} {p : ℕ} (hp : l.pc = .work i (.recv (.dequeue h p)))
    (hA : At (m.sess i).recvQ (.recv (.dequeue h p))) (hG : GripAt m l) (hT : Took (S i) F left)
    (hH : left = bytes m i) (hs : recvStep m l i (.dequeue h p) ch = some (m', l')) :
    Follows S m' l.pc l'.pc i := by
  obtain ⟨b, hb, hm, hsess, -, rfl⟩ := recvStep_dequeue hs
  obtain ⟨hlen, rfl, hcode⟩ := hA
  obtain ⟨hw, hhead⟩ := whole_front hlen
  rw [GripAt, hp] at hG
  have hh := holds_of_poke hG.2 hw (by rw [hhead]; exact hcode) hb
  rw [hhead] at hh
  have hpk := (congrFun hm p).trans (Function.update_self ..)
  have hleft : left = firstBytes m i (headerSize + (front (m.sess i).recvQ).len) ++ bytes m' i := by
    rw [hH, bytes, bytes, firstBytes, hsess, Function.update_self, ← List.map_append,
      List.take_append_drop]
  rw [hp]
  exact .at' rfl hT ⟨_, hpk ▸ hh, hleft⟩

/-- The frame that is taken out is handled, or rejected. -/
lemma follows_decode {p : ℕ} (hp : l.pc = .work i (.recv (.decode p))) (hT : Took (S i) F left)
    (hH : ∃ f, Holds (m.packet p) f ∧ left = f ++ bytes m i)
    (hs : recvStep m l i (.decode p) ch = some (m', l')) : Follows S m' l.pc l'.pc i := by
  obtain ⟨f, hf, rfl⟩ := hH
  obtain ⟨q', hq, hheld⟩ := hf.decode
  obtain ⟨r, q, hdec, rfl, rfl⟩ := recvStep_decode hs
  obtain ⟨rfl, rfl⟩ := Prod.mk.inj (Option.some.inj (hq.symm.trans hdec))
  rw [hp]
  by_cases ha : Agrees f
  · rw [decide_eq_true ha]
    have hT' := hT.handle hf.isFrame ha
    refine .at' rfl (F := F ++ [f]) ?_ rfl
    change Took (Function.update S i ((S i).handle (held ((m.onPacket p fun _ => q').packet p))) i) _ _
    have hpk : (m.onPacket p fun _ => q').packet p = q' := Function.update_self ..
    rw [Function.update_self, hpk, hheld]
    exact hT'
  · rw [decide_eq_false ha]
    refine .at' rfl (hT.reject hf.isFrame ha) ⟨rfl, fun hall => ?_⟩
    exact absurd (hall f (List.mem_append_right _ List.mem_cons_self)) ha

lemma recvStep_follows {p : RecvPc} (hp : l.pc = .work i (.recv p)) (hA : At (m.sess i).recvQ (.recv p))
    (hG : GripAt m l) (hT : Took (S i) F left) (hH : InHand m i F left (.recv p))
    (h : recvStep m l i p ch = some (m', l')) : Follows S m' l.pc l'.pc i := by
  have hs := h
  revert h hA hH
  fun_cases recvStep m l i p ch
  case case10 | case11 => exact fun hA hH _ => follows_dequeue hp hA hG hT hH hs
  case case12 | case13 | case14 => exact fun _ hH _ => follows_decode hp hT hH hs
  case case9 =>
    intro _ hH h
    obtain ⟨h1, h2⟩ := allocPacket_calm h
    rw [hp, h2]
    exact .at' rfl hT (hH.trans (bytes_eq (by rw [h1.sess])).symm)
  case case16 =>
    intro _ hH h
    obtain ⟨h1, h2⟩ := contentsStep_calm h
    rw [h2, hp]
    exact .at' rfl hT (hH.trans (bytes_eq (by rw [h1.sess])).symm)
  all_goals
    intro hA hH h
    simp only [Option.some.injEq, Prod.mk.injEq, reduceCtorEq] at h
  case case17 =>
    obtain ⟨h1, h2⟩ := freePacket_calm (m := m) h ⟨rfl, rfl, rfl⟩
    rw [h2, hp]
    exact .at' rfl hT (hH.trans (bytes_eq (by rw [h1.sess])).symm)
  case case18 =>
    obtain ⟨h1, h2⟩ := freePacket_calm (m := m) h ⟨rfl, rfl, rfl⟩
    rw [h2, hp]
    have hb : bytes m' i = bytes m i := bytes_eq (by rw [h1.sess])
    refine .at' rfl hT ?_
    rw [InHand, hb]
    exact hH
  all_goals
    obtain ⟨rfl, rfl⟩ := h
    rw [hp]
  case case1 d ser _ =>
    refine .at' rfl hT (hH.trans ?_)
    simp [bytes, Mem.onSess, Function.comp_def]
  case case3 hlen => exact .done rfl hT ⟨hH, quiet_short hlen⟩
  case case5 hcode => exact .at' rfl hT ⟨hH, quiet_code hA hcode⟩
  case case7 h hlen =>
    obtain ⟨h5, rfl, hcode⟩ := hA
    exact .done rfl hT ⟨hH, quiet_part h5 hcode hlen⟩
  case case20 => exact .done rfl hT hH
  all_goals exact .at' rfl hT hH

/-! ### The other threads -/

lemma lstep_joined (hn : Known m l) (h : lstep m l ch = some (m', l')) (hj : (m.hist k).joined = false)
    (hj' : (m'.hist k).joined = true) :
    ∃ s, l.pc = .accOn k (.join s) ∧ l'.pc = .accOn k (.joining s) := by
  rcases lstep_seen hn h k with ⟨e, -, hs⟩ | ⟨-, hv⟩
  · generalize hV : view m k = V at hs
    generalize hL : lview l k = L at hs
    generalize hV' : view m' k = V' at hs
    generalize hL' : lview l' k = L' at hs
    have h1 : V.h.joined = false := hV ▸ hj
    have h2 : V'.h.joined = true := hV' ▸ hj'
    cases hs
    case join s =>
      exact ⟨s, role_acc (congrArg LV.role hL), role_acc (congrArg LV.role hL')⟩
    case pop => cases h2
    case entrySkip j _ _ => cases j <;> cases h1.symm.trans h2
    all_goals cases h1.symm.trans h2
  · have hh : m'.hist k = m.hist k := by
      rcases hv with hv | ⟨_, hv⟩
      · exact congrArg View.h hv
      · exact congrArg View.h hv
    rw [hh, hj] at hj'
    cases hj'

/-- `INVALID_SOCKET` stays in `socket` until the slot is prepared again. -/
lemma lstep_socket (hn : Known m l) (h : lstep m l ch = some (m', l'))
    (hs : (m.sess k).socket = invalidSocket) :
    (m'.sess k).socket = invalidSocket ∨ ∃ s, l.pc = .accOn k (.init s .socket) := by
  have hmark : mark invalidSocket = invalidSocket := by decide
  rcases lstep_seen hn h k with ⟨e, -, hst⟩ | ⟨-, hv⟩
  · generalize hV : view m k = V at hst
    generalize hL : lview l k = L at hst
    generalize hV' : view m' k = V' at hst
    generalize lview l' k = L' at hst
    have h1 : V.s.socket = invalidSocket := hV ▸ hs
    change (view m' k).s.socket = invalidSocket ∨ _
    rw [hV']
    cases hst
    case initSocket s => exact .inr ⟨s, role_acc (congrArg LV.role hL)⟩
    case xchg | xchgAgain =>
      refine .inl ?_
      dsimp only
      rw [h1, hmark]
    all_goals exact .inl h1
  · have hh : m'.sess k = m.sess k := by
      rcases hv with hv | ⟨_, hv⟩
      · exact congrArg View.s hv
      · exact congrArg View.s hv
    rw [hh]
    exact .inl hs

lemma InHand.congr {w : WorkPc} (hq : (m'.sess k).recvQ = (m.sess k).recvQ)
    (hs : (m.sess k).socket = invalidSocket → (m'.sess k).socket = invalidSocket)
    (hp : ∀ p, w = .recv (.decode p) → m'.packet p = m.packet p) (h : InHand m k F left w) :
    InHand m' k F left w := by
  have hb := bytes_eq hq
  rcases w with j | _ | _ | _ | _ | _ | p | _ | _
  case entry =>
    cases j with
    | recvDone d s =>
      intro hne
      rw [hb]
      exact h fun h0 => hne (hs h0)
    | _ => trivial
  case recv =>
    cases p with
    | decode p =>
      obtain ⟨f, hf, hl⟩ := h
      exact ⟨f, (hp p rfl).symm ▸ hf, hb.symm ▸ hl⟩
    | _ =>
      simp only [InHand, hb]
      exact h
  all_goals trivial

variable {c c' : Config τ} {t : τ}

omit [DecidableEq τ] in
/-- An action that has nothing to do with the receives of the slot. -/
lemma Behind.aside (hB : Behind c k F left) (hq : (c'.mem.sess k).recvQ = (c.mem.sess k).recvQ)
    (hs : (c.mem.sess k).socket = invalidSocket → (c'.mem.sess k).socket = invalidSocket)
    (hj : ∀ d s, (k, .recvDone d s) ∈ c'.mem.queue ↔ (k, .recvDone d s) ∈ c.mem.queue)
    (hr : ∀ u w, receiving (c'.loc u).pc = some (k, w) ↔ receiving (c.loc u).pc = some (k, w))
    (hp : ∀ u p, (c.loc u).pc = .work k (.recv (.decode p)) → c'.mem.packet p = c.mem.packet p) :
    Behind c' k F left := by
  have hb : bytes c'.mem k = bytes c.mem k := bytes_eq hq
  refine ⟨fun hne hno hnr => ?_, fun d s hmem hne => ?_, fun u w hw => ?_⟩
  · rw [hb]
    exact hB.idle (fun h0 => hne (hs h0)) (fun d s h => hno d s ((hj d s).mpr h))
      fun u w h => hnr u w ((hr u w).mpr h)
  · rw [hb]
    exact hB.queued d s ((hj d s).mp hmem) fun h0 => hne (hs h0)
  · have hw' := (hr u w).mp hw
    refine (hB.hand u w hw').congr hq hs fun p hwp => hp u p ?_
    subst hwp
    exact receiving_eq hw'

lemma receiving_update (h : ∀ w, receiving l.pc = some (k, w) ↔ receiving (c.loc t).pc = some (k, w)) (u : τ)
    (w : WorkPc) : receiving (Function.update c.loc t l u).pc = some (k, w) ↔
      receiving (c.loc u).pc = some (k, w) := by
  by_cases hu : u = t
  · subst hu
    rw [Function.update_self]
    exact h w
  · rw [Function.update_of_ne hu]

/-- A step of a thread with what the receive of the slot has brought. -/
lemma Behind.own (hB : Behind c k F left) (hsess : m.sess = c.mem.sess) (hpk : m.packet = c.mem.packet)
    (hj : ∀ d s, (k, .recvDone d s) ∈ m.queue → (k, .recvDone d s) ∈ c.mem.queue)
    (hk : ∀ j v, receiving l.pc = some (j, v) → j = k)
    (hl : ∀ v, receiving l.pc = some (k, v) → InHand c.mem k F left v)
    (hidle : receiving l.pc = none → (c.mem.sess k).socket ≠ invalidSocket →
      left = bytes c.mem k ∧ Quiet F (bytes c.mem k)) : Behind ⟨m, Function.update c.loc t l⟩ k F left := by
  have hb : bytes m k = bytes c.mem k := bytes_eq (by rw [hsess])
  refine ⟨fun hne _ hno => ?_, fun d s hmem hne => ?_, fun u v hv => ?_⟩
  · rw [hb]
    refine hidle ?_ (hsess ▸ hne)
    have ht := hno t
    dsimp only at ht
    rw [Function.update_self] at ht
    rcases hrec : receiving l.pc with _ | ⟨j, v⟩
    · rfl
    · obtain rfl := hk j v hrec
      exact absurd hrec (ht v)
  · rw [hb]
    exact hB.queued d s (hj d s hmem) (hsess ▸ hne)
  · have hC : InHand c.mem k F left v := by
      dsimp only at hv
      by_cases hu : u = t
      · subst hu
        rw [Function.update_self] at hv
        exact hl v hv
      · rw [Function.update_of_ne hu] at hv
        exact hB.hand u v hv
    exact hC.congr (by rw [hsess]) (fun h => by rw [hsess]; exact h) fun p _ => by rw [hpk]

/-! ### Runs -/

section Reach

variable [Fintype τ] {b : Boot} {a : τ} {w : τ → Bool} {bad : List Ev} {x : Act τ}

lemma met_of_receiving {v : WorkPc} (h : receiving l.pc = some (k, v)) : 0 < LV.met (lview l k) := by
  unfold receiving at h
  split at h
  case h_3 => cases h
  all_goals
    rename_i hp
    obtain ⟨rfl, rfl⟩ := Prod.mk.inj (Option.some.inj h)
    simp [LV.met, lview, hp, pcRole, Role.met, Role.refs, WorkPc.refs, Job.refs]

/-- What a receive that is posted says of the others. -/
lemma alone_of_io (hok : .ok ∉ bad) (hskip : .skipRelease ∈ bad)
    (hr : Reach step (avoids bad) (boot b a w) c) {io : IoReq} (hio : io ∈ c.mem.inflight)
    (hs : io.send = false) : (∀ d s, (io.slot, .recvDone d s) ∉ c.mem.queue) ∧
      ∀ t v, receiving (c.loc t).pc ≠ some (io.slot, v) := by
  have hle := reach_recvs (k := io.slot) hok hskip hr
  have hbusy : View.busy (slot c io.slot).V ≤ 1 := by
    unfold View.busy
    split <;> omega
  have hone : 1 ≤ ((slot c io.slot).V.ios.map IoReq.recvs).sum := by
    refine le_trans (by rw [IoReq.recvs, if_neg (by rw [hs]; exact Bool.false_ne_true)])
      (List.single_le_sum (fun _ _ => Nat.zero_le _) (IoReq.recvs io) (List.mem_map_of_mem ?_))
    exact List.mem_filter.mpr ⟨hio, decide_eq_true rfl⟩
  unfold recvs View.recvs at hle
  refine ⟨fun d s hj => ?_, fun t v hv => ?_⟩
  · have := List.single_le_sum (l := (slot c io.slot).V.jobs.map Job.recvs) (fun _ _ => Nat.zero_le _)
      (Job.recvs (.recvDone d s)) (List.mem_map_of_mem (SlotRelease.mem_jobs.mpr hj))
    rw [Job.recvs] at this
    omega
  · have h1 := le_sum (fun u => LV.recvs ((slot c io.slot).L u)) t
    have h2 : LV.recvs ((slot c io.slot).L t) = 1 := recvs_of_receiving hv
    omega

variable (hok : .ok ∉ bad) (hskip : .skipRelease ∈ bad) (hl : .lateEnter ∈ bad)
  (hr : Reach step (avoids bad) (boot b a w) c)

include hok hskip hl hr

lemma joined_of_receiving {v : WorkPc} (h : receiving (c.loc t).pc = some (k, v)) :
    (c.mem.hist k).joined = true := (reach_joinedAt hok hskip hl hr t).met (met_of_receiving h)

lemma joined_of_job {d : List UInt8} {s : ℕ} (h : (k, .recvDone d s) ∈ c.mem.queue) :
    (c.mem.hist k).joined = true := by
  refine (reach_joinedAt hok hskip hl hr a).heldJoined (Nat.pos_of_ne_zero fun h0 => ?_)
  cases SlotReuse.job_of_refs h0 (SlotRelease.mem_jobs.mpr h)

lemma unjoined_of_accOn {p : AccOn} (h : (c.loc t).pc = .accOn k p)
    (hp : (∃ s, p = .join s) ∨ ∃ s q, p = .init s q) : (c.mem.hist k).joined = false := by
  refine (reach_joinedAt (k := k) hok hskip hl hr t).unmet ?_
  have hrole : ((slot c k).L t).role = .acc p := by
    change pcRole k (c.loc t).pc = _
    rw [h, pcRole_acc]
  rcases hp with ⟨s, rfl⟩ | ⟨s, q, rfl⟩
  · simp [LV.unmet, hrole]
  · simp [LV.unmet, hrole]

/-- The frame that another thread is about to decode stays in its packet. -/
lemma packet_kept (hs : lstep c.mem (c.loc t) ch = some (m', l')) {u : τ} (hut : u ≠ t) {p : ℕ}
    (hp : (c.loc u).pc = .work k (.recv (.decode p))) : m'.packet p = c.mem.packet p := by
  obtain ⟨hH, hK⟩ := reach_kept hok hskip hl hr
  have hg := reach_grip hok hskip hl hr u
  rw [GripAt, hp] at hg
  have hseen := lstep_pseen (hH t) (reach_owning hok hskip hl hr t) hs p
  exact packet_same (hK p) hg.1.count (share_pos ((hH u).pc p (by rw [hp]; rfl))) (Ne.symm hut) hseen

/-- A worker that is about to decode does so. -/
lemma decoding_moves (hs : lstep c.mem (c.loc t) ch = some (m', l')) {p : ℕ}
    (hp : (c.loc t).pc = .work k (.recv (.decode p))) : receiving l'.pc ≠ receiving (c.loc t).pc := by
  have hg := reach_grip hok hskip hl hr t
  rw [GripAt, hp] at hg
  rw [lstep_recv hg.1.drop hg.1.api hp] at hs
  obtain ⟨r, q, -, -, rfl⟩ := recvStep_decode hs
  rw [hp]
  cases r <;> exact fun h => by cases h

omit hl in
lemma followed_complete {io : IoReq} {n : ℕ} {d : List UInt8} (hs : step c (.complete io n d) = some c')
    (hi : ∀ k, Followed c S k) (k : ℕ) : Followed c' (observe S c c' (.complete io n d)) k := by
  simp only [step] at hs
  split at hs
  case isFalse => cases hs
  case isTrue h =>
    obtain rfl := Option.some.inj hs
    obtain ⟨F, left, hT, hB⟩ := hi k
    by_cases hsend : io.send = true
    · rw [observe, if_pos hsend]
      refine ⟨F, left, hT, fun hj => (hB hj).aside rfl id (fun d' s => ?_) (fun _ _ => Iff.rfl) fun _ _ _ => rfl⟩
      simp [Mem.enqueue, IoReq.done, hsend]
    · rw [observe, if_neg hsend]
      rw [Bool.not_eq_true] at hsend
      have hdone : IoReq.done io n d = .recvDone d io.ser := by
        rw [IoReq.done, if_neg (by rw [hsend]; exact Bool.false_ne_true)]
      by_cases hk : k = io.slot
      · subst hk
        refine ⟨F, left ++ d, by rw [Function.update_self]; exact hT.arrive d, fun hj => ?_⟩
        obtain ⟨h1, h2⟩ := alone_of_io hok hskip hr h.1 hsend
        refine ⟨fun _ hno _ => ?_, fun d' s hmem hne => ?_, fun t v hv => absurd hv (h2 t v)⟩
        · exact absurd (List.mem_append_right _ (by rw [hdone]; exact List.mem_cons_self)) (hno d io.ser)
        · obtain ⟨rfl, hq⟩ := (hB hj).idle hne h1 h2
          rcases List.mem_append.mp hmem with hmem | hmem
          · exact absurd hmem (h1 d' s)
          · rw [hdone] at hmem
            obtain ⟨rfl, -⟩ := Job.recvDone.inj (Prod.mk.inj (List.mem_singleton.mp hmem)).2
            exact ⟨rfl, hq⟩
      · refine ⟨F, left, by rwa [Function.update_of_ne hk], fun hj =>
          (hB hj).aside rfl id (fun d' s => ?_) (fun _ _ => Iff.rfl) fun _ _ _ => rfl⟩
        simp [Mem.enqueue, hk]

/-- A step that has nothing to do with the receives of the slot. -/
lemma followed_apart (hs : lstep c.mem (c.loc t) ch = some (m', l')) (hi : Followed c S k)
    (hq : (m'.sess k).recvQ = (c.mem.sess k).recvQ)
    (hj : ∀ d s, (k, .recvDone d s) ∈ m'.queue ↔ (k, .recvDone d s) ∈ c.mem.queue)
    (hrec : ∀ v, receiving l'.pc = some (k, v) ↔ receiving (c.loc t).pc = some (k, v))
    (hnote : note S m' (c.loc t).pc l'.pc k = S k ∨
      ∃ s j s', (c.loc t).pc = .accOn k (.join s) ∧ l'.pc = .accOn j (.joining s')) :
    Followed ⟨m', Function.update c.loc t l'⟩ (note S m' (c.loc t).pc l'.pc) k := by
  have hn := (reach_named hr).known t
  by_cases hjoin : ∃ s j s', (c.loc t).pc = .accOn k (.join s) ∧ l'.pc = .accOn j (.joining s')
  · -- the session is announced: nothing has been received yet
    obtain ⟨s, j, s', h1, h2⟩ := hjoin
    have hun := unjoined_of_accOn hok hskip hl hr h1 (.inl ⟨s, rfl⟩)
    have hprep := (reach_sends (k := k) hok hskip hl hr).prepared t
    have hrole : ((slot c k).L t).role = .acc (.join s) := by
      change pcRole k (c.loc t).pc = _
      rw [h1, pcRole_acc]
    rw [Prepared, hrole] at hprep
    have hb : bytes m' k = [] := by
      rw [bytes_eq hq, bytes]
      exact congrArg (List.map Prod.fst) hprep.2.2.2
    refine ⟨[], [], ?_, fun _ => ⟨fun _ _ _ => ⟨hb.symm, ?_⟩, fun d s hmem _ => ?_, fun u v hv => ?_⟩⟩
    · rw [h1, h2]
      change Took (Function.update S k Stream.start k) [] []
      rw [Function.update_self]
      exact .start
    · rw [hb]
      exact fun _ n hn => by cases hn
    · exact absurd (hun.symm.trans (joined_of_job hok hskip hl hr ((hj d s).mp hmem))) Bool.false_ne_true
    · have hv' := (receiving_update hrec u v).mp hv
      exact absurd (hun.symm.trans (joined_of_receiving hok hskip hl hr hv')) Bool.false_ne_true
  · obtain ⟨F, left, hT, hB⟩ := hi
    refine ⟨F, left, (hnote.resolve_right hjoin) ▸ hT, fun hj' => ?_⟩
    have hjd : (c.mem.hist k).joined = true := by
      by_contra hjd
      obtain ⟨s, h1, h2⟩ := lstep_joined hn hs (Bool.eq_false_of_not_eq_true hjd) hj'
      exact hjoin ⟨s, k, s, h1, h2⟩
    refine (hB hjd).aside hq (fun h0 => ?_) hj (receiving_update hrec) fun u p hp => ?_
    · rcases lstep_socket hn hs h0 with h | ⟨s, h⟩
      · exact h
      · have hun := unjoined_of_accOn hok hskip hl hr h (.inr ⟨s, _, rfl⟩)
        exact absurd (hun.symm.trans hjd) Bool.false_ne_true
    · by_cases hut : u = t
      · subst hut
        have hat : receiving (c.loc u).pc = some (k, .recv (.decode p)) := by rw [hp]; rfl
        exact absurd (((hrec _).mpr hat).trans hat.symm) (decoding_moves hok hskip hl hr hs hp)
      · exact packet_kept hok hskip hl hr hs hut hp

/-- A step of the thread that is at `recvQ`. -/
lemma followed_recv {p : RecvPc} (hp : (c.loc t).pc = .work k (.recv p)) (hi : Followed c S k)
    (hs : recvStep c.mem (c.loc t) k p ch = some (m', l')) :
    Followed ⟨m', Function.update c.loc t l'⟩ (note S m' (c.loc t).pc l'.pc) k := by
  have hat : receiving (c.loc t).pc = some (k, .recv p) := by rw [hp]; rfl
  have hR := reach_roomy hok hskip hr k
  have hA := reach_alone (k := k) (t := t) hok hskip hr (by rw [recvs_of_receiving hat]; exact Nat.one_pos)
  have hP := recvStep_parsed hp hR.used (hR.at' t _ hat) hs
  obtain ⟨F₀, left₀, hT₀, hB₀⟩ := hi
  have hH := (hB₀ (joined_of_receiving hok hskip hl hr hat)).hand t _ hat
  obtain ⟨F, left, hT, hin, hdone⟩ :=
    recvStep_follows hp (hR.at' t _ hat) (reach_grip hok hskip hl hr t) hT₀ hH hs
  refine ⟨F, left, hT, fun _ => ⟨fun _ _ hno => hdone ?_, fun d s hmem _ => ?_, fun u v hv => ?_⟩⟩
  · have ht := hno t
    dsimp only at ht
    rw [Function.update_self] at ht
    rcases hrec : receiving l'.pc with _ | ⟨j, v⟩
    · rfl
    · obtain rfl := hP.here j v hrec
      exact absurd hrec (ht v)
  · exact absurd (hP.queue ▸ hmem) (hA.jobs d s)
  · dsimp only at hv
    by_cases hu : u = t
    · subst hu
      rw [Function.update_self] at hv
      exact hin v hv
    · rw [Function.update_of_ne hu] at hv
      exact absurd hv (hA.others u hu v)

omit hok hskip hl hr [Fintype τ] in
/-- A step with what a receive has brought, before it is moved in. -/
lemma followed_own (hi : Followed c S k) (hnote : note S m' (c.loc t).pc l'.pc = S)
    (hm : m'.sess = c.mem.sess ∧ m'.hist = c.mem.hist ∧ m'.packet = c.mem.packet)
    (hj : ∀ d s, (k, .recvDone d s) ∈ m'.queue → (k, .recvDone d s) ∈ c.mem.queue)
    (hk : ∀ j v, receiving l'.pc = some (j, v) → j = k)
    (hB : ∀ F left, Behind c k F left → (∀ v, receiving l'.pc = some (k, v) → InHand c.mem k F left v) ∧
      (receiving l'.pc = none → (c.mem.sess k).socket ≠ invalidSocket →
        left = bytes c.mem k ∧ Quiet F (bytes c.mem k))) :
    Followed ⟨m', Function.update c.loc t l'⟩ (note S m' (c.loc t).pc l'.pc) k := by
  obtain ⟨F, left, hT, hB₀⟩ := hi
  refine ⟨F, left, hnote.symm ▸ hT, fun hjd => ?_⟩
  have hb := hB₀ (hm.2.1 ▸ hjd)
  exact hb.own hm.1 hm.2.2 hj hk (hB F left hb).1 (hB F left hb).2

lemma followed_run (hs : lstep c.mem (c.loc t) ch = some (m', l')) (hi : ∀ k, Followed c S k) (k : ℕ) :
    Followed ⟨m', Function.update c.loc t l'⟩ (note S m' (c.loc t).pc l'.pc) k := by
  cases lstep_takes hs with
  | aside h =>
    exact followed_apart hok hskip hl hr hs (hi k) (h.1.recvQ k) (h.1.jobs k) (fun v => by rw [h.2])
      (note_aside (.inr h.2) k)
  | clear i s hp hm hp' =>
    have hnote : note S m' (c.loc t).pc l'.pc = S := by
      rw [hp]
      exact note_same (.inl fun _ _ h => by cases h) fun _ _ h => by cases h
    subst hm
    by_cases hk : k = i
    · subst hk
      obtain ⟨F, left, hT, -⟩ := hi k
      have hun := unjoined_of_accOn hok hskip hl hr hp (.inr ⟨s, _, rfl⟩)
      exact ⟨F, left, hnote.symm ▸ hT, fun hj => absurd (hun.symm.trans hj) Bool.false_ne_true⟩
    · refine followed_apart hok hskip hl hr hs (hi k) (recvQ_ne rfl k hk) (fun _ _ => Iff.rfl) (fun v => ?_)
        (.inl (congrFun hnote k))
      rw [hp', hp]
      exact ⟨fun h => (by cases h), fun h => (by cases h)⟩
  | take i d s q hq hm hp hp' =>
    have hnote : note S m' (c.loc t).pc l'.pc = S := by
      refine note_same (.inr fun _ _ h => by cases hp'.symm.trans h) fun _ _ h => ?_
      rw [h] at hp
      cases hp
    subst hm
    by_cases hk : k = i
    · subst hk
      refine followed_own (hi k) hnote ⟨rfl, rfl, rfl⟩ (fun d s h => hq ▸ List.mem_cons_of_mem _ h)
        (fun j v hv => (receiving_work hp' hv).1) fun F left hB => ⟨fun v hv => ?_, fun h => ?_⟩
      · obtain rfl := (receiving_work hp' hv).2
        exact hB.queued d s (hq ▸ List.mem_cons_self)
      · rw [hp'] at h
        cases h
    · refine followed_apart hok hskip hl hr hs (hi k) rfl (fun d' s' => ?_) (fun v => ?_)
        (.inl (congrFun hnote k))
      · rw [hq]
        simp [hk]
      · rw [hp, hp']
        exact ⟨fun h => absurd (Prod.mk.inj (Option.some.inj h)).1.symm hk, fun h => (by cases h)⟩
  | pass i d s hp hm hsock hp' =>
    have hnote : note S m' (c.loc t).pc l'.pc = S := by
      rw [hp]
      exact note_same (.inl fun _ _ h => by cases h) fun _ _ h => by cases h
    subst hm
    by_cases hk : k = i
    · subst hk
      refine followed_own (hi k) hnote ⟨rfl, rfl, rfl⟩ (fun d s h => h)
        (fun j v hv => (receiving_work hp' hv).1) fun F left hB => ⟨fun v hv => ?_, fun h => ?_⟩
      · obtain rfl := (receiving_work hp' hv).2
        exact (hB.hand t (.entry (.recvDone d s)) (by rw [hp]; rfl) hsock).1
      · rw [hp'] at h
        cases h
    · refine followed_apart hok hskip hl hr hs (hi k) rfl (fun _ _ => Iff.rfl) (fun v => ?_)
        (.inl (congrFun hnote k))
      rw [hp, hp']
      exact ⟨fun h => absurd (Prod.mk.inj (Option.some.inj h)).1.symm hk,
        fun h => absurd (Prod.mk.inj (Option.some.inj h)).1.symm hk⟩
  | skip i d s hp hm hsock hp' =>
    have hnote : note S m' (c.loc t).pc l'.pc = S := by
      rw [hp]
      exact note_same (.inl fun _ _ h => by cases h) fun _ _ h => by cases h
    subst hm
    by_cases hk : k = i
    · subst hk
      refine followed_own (hi k) hnote ⟨rfl, rfl, rfl⟩ (fun d s h => h)
        (fun j v hv => by cases hp'.symm.trans hv) fun F left hB =>
          ⟨fun v hv => by (cases hp'.symm.trans hv), fun _ hne => ?_⟩
      obtain ⟨h1, h2⟩ := hB.hand t (.entry (.recvDone d s)) (by rw [hp]; rfl) hne
      rw [hsock.resolve_right hne, List.append_nil] at h1
      exact ⟨h1, h2⟩
    · refine followed_apart hok hskip hl hr hs (hi k) rfl (fun _ _ => Iff.rfl) (fun v => ?_)
        (.inl (congrFun hnote k))
      rw [hp, hp']
      exact ⟨fun h => (by cases h), fun h => absurd (Prod.mk.inj (Option.some.inj h)).1.symm hk⟩
  | recv i p _ _ hp h =>
    by_cases hk : k = i
    · subst hk
      exact followed_recv hok hskip hl hr hp (hi k) h
    · have hat : receiving (c.loc t).pc = some (i, .recv p) := by rw [hp]; rfl
      have hR := reach_roomy hok hskip hr i
      have hP := recvStep_parsed hp hR.used (hR.at' t _ hat) h
      refine followed_apart hok hskip hl hr hs (hi k) (hP.others k hk) (fun d s => by rw [hP.queue]) (fun v => ?_)
        (.inl (note_off hp hk))
      refine ⟨fun hv => absurd (hP.here k v hv) hk, fun hv => ?_⟩
      exact absurd (Prod.mk.inj (Option.some.inj (hat.symm.trans hv))).1.symm hk

omit hok hskip hl hr in
lemma followed_step (hok : .ok ∉ bad) (hskip : .skipRelease ∈ bad) (hl : .lateEnter ∈ bad)
    (hr : Reach step (avoids bad) (boot b a w) c) (hs : step c x = some c') (hi : ∀ k, Followed c S k) (k : ℕ) :
    Followed c' (observe S c c' x) k := by
  cases x with
  | run t ch =>
    simp only [step, Option.map_eq_some_iff] at hs
    obtain ⟨⟨m', l'⟩, hs, rfl⟩ := hs
    have h := followed_run hok hskip hl hr hs hi k
    simp only [observe, Function.update_self]
    exact h
  | complete io n d => exact followed_complete hok hskip hr hs hi k
  | give t u p =>
    simp only [step] at hs
    split at hs <;> simp only [Option.some.injEq, reduceCtorEq] at hs
    subst hs
    obtain ⟨F, left, hT, hB⟩ := hi k
    refine ⟨F, left, hT, fun hj => (hB hj).aside rfl id (fun _ _ => Iff.rfl) (fun v y => ?_) fun _ _ _ => rfl⟩
    dsimp only
    by_cases hv : v = u
    · subst hv
      rw [Function.update_self]
    · rw [Function.update_of_ne hv]
      by_cases hv' : v = t
      · subst hv'
        rw [Function.update_self]
      · rw [Function.update_of_ne hv']

end Reach

section Watched

variable [Fintype τ] {b : Boot} {a : τ} {w : τ → Bool} {bad : List Ev} {W : Watched τ}

omit [Fintype τ] in
/-- A run with the streams beside it is a run. -/
lemma reach_of_watch {c₀ : Config τ} (h : Reach watch (fun W => avoids bad W.c) (unwatched c₀) W) :
    Reach step (avoids bad) c₀ W.c := by
  refine Reach.inv (I := fun W => Reach step (avoids bad) c₀ W.c) .init (fun W W' x _ hi hx hs => ?_) h
  simp only [watch, Option.map_eq_some_iff] at hs
  obtain ⟨c', hs, rfl⟩ := hs
  exact .step hi hx hs

theorem reach_followed (hok : .ok ∉ bad) (hskip : .skipRelease ∈ bad) (hl : .lateEnter ∈ bad)
    (h : Reach watch (fun W => avoids bad W.c) (unwatched (boot b a w)) W) (k : ℕ) :
    Followed W.c W.streams k := by
  refine Reach.inv (I := fun W => ∀ k, Followed W.c W.streams k) (fun k => ?_)
    (fun W W' x hr hi _ hs => ?_) h k
  · exact ⟨[], [], .start, fun hj => by cases hj⟩
  · simp only [watch, Option.map_eq_some_iff] at hs
    obtain ⟨c', hs, rfl⟩ := hs
    exact followed_step hok hskip hl (reach_of_watch hr) hs hi

end Watched

end LoginServerChat.StreamOrder
