import LoginServerChat.Frames
import LoginServerChat.RingBuffer

/-!
The receiving side of one session: the buffers that are posted, the completions that arrive in
them, and the loop of the worker over `recvQ`. One receive is outstanding at a time, so that the
passes of the loop follow one another.
-/

namespace LoginServerChat.RecvLoop

open NetPacket Packet RingBuffer Cipher Frames Circular
open CRingBuffer hiding next

inductive Event
  | onRecv (payload : List UInt8)
  /-- `Disconnect` is called from `OnRecv`: what it returned, and what `recvQ` held. -/
  | left (returned : Bool) (behind : List UInt8)
  /-- `Disconnect` is called by the loop. -/
  | disconnect
  /-- An access outside the packet. -/
  | overrun
  deriving DecidableEq

/-- `marked` says that `Disconnect` has been at the socket. Behind an access outside a packet,
`broken`, nothing is known. -/
structure Recv where
  recvQ : CRingBuffer
  allocs : ℕ
  marked : Bool
  broken : Bool
  log : List Event

inductive Turn
  | again (s : Recv)
  | stop (s : Recv)

-- the packets that `Alloc` gives out, and whether `OnRecv`, behind the calls so far, calls
-- `Disconnect` on its session
variable (alloc : ℕ → Packet) (onRecv : List Event → Bool)

def overrun (s : Recv) : Recv := { s with broken := true, log := s.log ++ [.overrun] }

/-- `Disconnect` by the loop. -/
def disconnect (s : Recv) : Recv := { s with marked := true, log := s.log ++ [.disconnect] }

/-- `OnRecv` with the payload `xs`. -/
def callOnRecv (s : Recv) (xs : List UInt8) : Recv :=
  let log := s.log ++ [.onRecv xs]
  if onRecv log then
    { s with marked := true, log := log ++ [.left (!s.marked) s.recvQ.contents] }
  else { s with log := log }

/-- `Decode` and what follows from it. -/
def handle (s : Recv) (p : Packet) : Turn :=
  match p.decode with
  | none => .stop (overrun s)
  | some (false, _) => .stop (disconnect s)
  | some (true, q) => .again (callOnRecv onRecv s (held q))

/-- One turn of the loop. -/
def turn (s : Recv) : Option Turn :=
  if s.recvQ.getUseSize < headerSize then some (.stop s)
  else (s.recvQ.peek headerSize).bind fun b =>
    let header := NetHeader.ofBytes b
    if header.code ≠ packetCode then some (.stop (disconnect s))
    else if s.recvQ.getUseSize < headerSize + header.len then some (.stop s)
    else (s.recvQ.dequeue (headerSize + header.len)).map fun d =>
      let pPacket := alloc s.allocs
      let s' := { s with recvQ := d.2, allocs := s.allocs + 1 }
      match poke pPacket.pBuffer 0 d.1 with
      | none => .stop (overrun s')
      | some b => handle onRecv s' (moveWritePos { pPacket with pBuffer := b } header.len).2

/-- The loop, for at most `n` turns. -/
def recvLoop : ℕ → Recv → Option Recv
  | 0, _ => none
  | n + 1, s =>
    match turn alloc onRecv s with
    | none => none
    | some (.stop s') => some s'
    | some (.again s') => recvLoop n s'

/-- The buffers of the first receive, which `AcceptThread` posts, and of those of `RecvPost`. -/
def posted (first : Bool) (r : CRingBuffer) : List (ℤ × ℤ) :=
  if first ∨ r.getFreeSize ≤ r.directEnqueueSize then [(r.getRearBufferPtr, r.directEnqueueSize)]
  else [(r.getRearBufferPtr, r.directEnqueueSize), (0, r.getFrontBufferPtr - 0 - 1)]

def postedSize (first : Bool) (r : CRingBuffer) : ℤ := ((posted first r).map Prod.snd).sum

/-- A completion: `d` has been put into the posted buffers. `CrashDump::Crash` has no result. -/
def complete (first : Bool) (s : Recv) (d : List UInt8) : Option Recv :=
  (scatter s.recvQ.buffer (posted first s.recvQ) d).bind fun b =>
    let m := moveRear { s.recvQ with buffer := b } d.length
    if m.1 ≠ d.length then none
    else recvLoop alloc onRecv (m.2.getUseSize.toNat + 1) { s with recvQ := m.2 }

/-- The completions one after the other. `WSARecv` fails on a marked session. -/
def receive (first : Bool) (s : Recv) : List (List UInt8) → Option Recv
  | [] => some s
  | d :: ds =>
    if s.marked ∨ s.broken then some s
    else (complete alloc onRecv first s d).bind fun s' => receive false s' ds

/-- Every completion brings something, and no more than the posted buffers hold. -/
def Fits (first : Bool) (s : Recv) : List (List UInt8) → Prop
  | [] => True
  | d :: ds => (s.marked ∨ s.broken) ∨
    d ≠ [] ∧ d.length ≤ postedSize first s.recvQ ∧
      ∀ s', complete alloc onRecv first s d = some s' → Fits false s' ds

def recvCapacity : ℕ := 10000

/-- A session as `AcceptThread` leaves it, over whatever its buffer holds. -/
def accepted (mem : List UInt8) : Recv := ⟨(construct mem recvCapacity).clearBuffer, 0, false, false, []⟩

/-! ### The posted buffers -/

variable {r : CRingBuffer}

lemma posted_arc (h : WF r) {first : Bool} (hf : first = true → r.iFront = 0 ∧ r.iRear = 0) :
    Arc r.iTotalSize (r.next r.iRear) r.getFreeSize (posted first r) := by
  have hd := directEnqueueSize_eq h
  have hfree := freeSize_eq h
  obtain ⟨hu0, hu1, huse⟩ := useSize_spec h
  obtain ⟨-, ⟨hf0, hf1⟩, ⟨hr0, hr1⟩⟩ := h
  have hw := next_eq (r := r) hr0 hr1
  rw [getRearBufferPtr] at hd
  rw [posted, getRearBufferPtr]
  split_ifs with hc
  · have hle : r.getFreeSize ≤ r.iTotalSize - r.next r.iRear := by
      rcases hc with hc | hc
      · obtain ⟨h1, h2⟩ := hf hc
        rw [hw]
        split_ifs <;> omega
      · omega
    rw [hd, min_eq_left hle]
    exact .one (by rw [hw]; split_ifs <;> omega) (by omega) (by omega)
  · rw [not_or, not_le] at hc
    have hg := hc.2
    rw [hd] at hg
    have he : r.directEnqueueSize = r.iTotalSize - r.next r.iRear := by omega
    have hptr : r.getFrontBufferPtr - 0 - 1 = r.next r.iRear + r.getFreeSize - r.iTotalSize := by
      rw [getFrontBufferPtr, next_eq hf0 hf1]
      rw [hw] at hg ⊢
      split_ifs at hg ⊢ <;> omega
    rw [he, hptr]
    refine .two ?_ ?_ (by omega) (by omega)
    · rw [hw]
      split_ifs <;> omega
    · rw [hw]
      split_ifs <;> omega

lemma Arc.sum {T s n : ℤ} {ps : List (ℤ × ℤ)} (h : Arc T s n ps) : (ps.map Prod.snd).sum = n := by
  cases h with
  | none h => simp [h]
  | one => simp
  | two => simp

lemma postedSize_eq (h : WF r) {first : Bool} (hf : first = true → r.iFront = 0 ∧ r.iRear = 0) :
    postedSize first r = r.getFreeSize := Arc.sum (posted_arc h hf)

/-- **Receiving.** What arrives in the posted buffers is behind the queue after `MoveRear`. -/
lemma receive_append (h : WF r) {first : Bool} (hf : first = true → r.iFront = 0 ∧ r.iRear = 0)
    {d : List UInt8} (hd : d ≠ []) (hn : d.length ≤ r.getFreeSize) :
    ∃ b, scatter r.buffer (posted first r) d = some b ∧
      (moveRear { r with buffer := b } d.length).1 = d.length ∧
      WF (moveRear { r with buffer := b } d.length).2 ∧
      (moveRear { r with buffer := b } d.length).2.contents = r.contents ++ d := by
  have hpos : 1 ≤ (d.length : ℤ) := by
    have := List.length_pos_of_ne_nil hd
    omega
  have harc := posted_arc h hf
  rw [h.total] at harc
  obtain ⟨b, hb, hW⟩ := harc.scatter hn
  have hs := rearSpan_spec h hpos
  rw [min_eq_left hn] at hs
  obtain ⟨h1, h2⟩ := append_rear h hn hW hs.stop hs.moved
  exact ⟨b, hb, hs.size, h1, h2⟩

/-! ### The turns of the loop -/

structure Ok (s : Recv) : Prop where
  wf : WF s.recvQ
  total : s.recvQ.iTotalSize = recvCapacity + 1

variable {alloc} {s : Recv}

lemma use_eq (h : Ok s) : s.recvQ.getUseSize = s.recvQ.contents.length := (length_contents h.wf).symm

lemma ofBytes_take {c : List UInt8} (h : 5 ≤ c.length) :
    NetHeader.ofBytes (c.take 5) = NetHeader.ofBytes c := by
  conv_rhs => rw [← List.take_append_drop 5 c]
  rw [ofBytes_append]
  rw [List.length_take, headerSize]
  omega

/-- `peek` of a header that is there. -/
lemma peek_header (h : Ok s) (h5 : 5 ≤ s.recvQ.contents.length) :
    ∃ b, s.recvQ.peek headerSize = some b ∧
      NetHeader.ofBytes b = NetHeader.ofBytes s.recvQ.contents :=
  ⟨_, peek_eq h.wf (by decide), ofBytes_take h5⟩

/-- The frame at the start of the queue. -/
lemma take_whole {c : List UInt8} {n : ℕ} (hn : n = 5 + (NetHeader.ofBytes c).len)
    (hle : n ≤ c.length) :
    NetHeader.ofBytes (c.take n) = NetHeader.ofBytes c ∧ Whole (c.take n) := by
  have hlen : (c.take n).length = n := by
    rw [List.length_take]
    omega
  have hhead : NetHeader.ofBytes (c.take n) = NetHeader.ofBytes c := by
    conv_rhs => rw [← List.take_append_drop n c]
    rw [ofBytes_append (by rw [hlen, headerSize]; omega)]
  exact ⟨hhead, by rw [Whole, hhead, hlen, headerSize, hn]⟩

variable (alloc) in
/-- A turn that finds a whole frame moves it into a packet. -/
lemma turn_whole (h : Ok s) {c : List UInt8} (hc : s.recvQ.contents = c)
    (hcode : (NetHeader.ofBytes c).code = packetCode) {n : ℕ} (hn : n = 5 + (NetHeader.ofBytes c).len)
    (hle : n ≤ c.length) :
    ∃ r, WF r ∧ r.iTotalSize = recvCapacity + 1 ∧ r.contents = c.drop n ∧
      turn alloc onRecv s = some (
        match moveIn (alloc s.allocs) (c.take n) with
        | none => .stop (overrun { s with recvQ := r, allocs := s.allocs + 1 })
        | some p => handle onRecv { s with recvQ := r, allocs := s.allocs + 1 } p) := by
  obtain ⟨b, hb, hhead⟩ := peek_header h (by rw [hc]; omega)
  rw [hc] at hhead
  have hu := use_eq h
  rw [hc] at hu
  have h1 : (1 : ℤ) ≤ headerSize + (NetHeader.ofBytes c).len := by
    rw [headerSize]
    omega
  have hm := moveFront_eq h.wf h1
  have hnat : ((headerSize : ℤ) + (NetHeader.ofBytes c).len).toNat = n := by
    rw [headerSize]
    omega
  rw [hnat, hc] at hm
  refine ⟨_, hm.2.1, h.total, hm.2.2, ?_⟩
  rw [turn, if_neg (by rw [hu, headerSize]; omega), hb, Option.bind_some]
  simp only [hhead, hcode, ne_eq, not_true_eq_false, if_false]
  rw [if_neg (by rw [hu, headerSize]; omega), dequeue_eq h.wf h1, hnat, hc, moveIn,
    (take_whole hn hle).1]
  cases hp : poke (alloc s.allocs).pBuffer 0 (c.take n) with
  | none => simp only [Option.map_some, hp, Option.map_none]
  | some b => simp only [Option.map_some, hp]

/-- What the turn makes of a whole frame that fits its packet. -/
lemma handle_moveIn {p : Packet} (hp : Fresh p) {g : List UInt8} (hg : Whole g)
    (hn : (NetHeader.ofBytes g).len ≤ 1019) (s : Recv) :
    ∃ q, moveIn p g = some q ∧ handle onRecv s q =
      if Agrees g then .again (callOnRecv onRecv s (payload g)) else .stop (disconnect s) := by
  have hd := decoded_eq hp hg hn
  refine ⟨_, moveIn_eq hp hg hn, ?_⟩
  rw [decoded, moveIn_eq hp hg hn, Option.bind_some, decode_eq rfl hg, Option.map_some,
    Option.some.injEq, Prod.mk.injEq] at hd
  rw [handle, decode_eq rfl hg]
  by_cases ha : Agrees g
  · simp only [ha, decide_true, if_true]
    rw [hd.2]
  · simp only [ha, decide_false, if_false]

lemma moveIn_long {p : Packet} (hp : Fresh p) {g : List UInt8} (hg : Whole g)
    (hn : 1019 < (NetHeader.ofBytes g).len) : moveIn p g = none := by
  have h5 := hg.length_eq
  have hl := hp.length
  rw [defaultSize] at hl
  rw [moveIn, poke, if_neg (by omega), Option.map_none]

lemma turn_wait (h : Ok s) (hn : next s.recvQ.contents = .wait) :
    turn alloc onRecv s = some (.stop s) := by
  have hu := use_eq h
  unfold next at hn
  by_cases h5 : s.recvQ.contents.length < 5
  · rw [turn, if_pos (by rw [hu, headerSize]; omega)]
  rw [if_neg h5] at hn
  obtain ⟨b, hb, hhead⟩ := peek_header h (by omega)
  split_ifs at hn with hcode hlen
  rw [turn, if_neg (by rw [hu, headerSize]; omega), hb, Option.bind_some]
  simp only [hhead, hcode, if_false]
  rw [if_pos (by rw [hu, headerSize]; omega)]

lemma turn_refuse (ha : ∀ n, Fresh (alloc n)) (h : Ok s) (hn : next s.recvQ.contents = .refuse) :
    ∃ s', turn alloc onRecv s = some (.stop (disconnect s')) ∧ Ok s' ∧ s'.log = s.log ∧
      s'.broken = s.broken := by
  have hu := use_eq h
  unfold next at hn
  split_ifs at hn with h5 hcode hlen hlong hagr
  · obtain ⟨b, hb, hhead⟩ := peek_header h (by omega)
    refine ⟨s, ?_, h, rfl, rfl⟩
    rw [turn, if_neg (by rw [hu, headerSize]; omega), hb, Option.bind_some]
    simp only [hhead]
    rw [if_pos hcode]
  · obtain ⟨r, h1, h2, h3, h4⟩ := turn_whole alloc onRecv h rfl
      (not_not.mp hcode) rfl (by omega)
    obtain ⟨hhead, hw⟩ := take_whole (c := s.recvQ.contents) rfl (by omega)
    obtain ⟨q, h5, h6⟩ := handle_moveIn onRecv (ha s.allocs) hw (by rw [hhead]; omega)
      { s with recvQ := r, allocs := s.allocs + 1 }
    refine ⟨{ s with recvQ := r, allocs := s.allocs + 1 }, ?_, ⟨h1, h2⟩, rfl, rfl⟩
    rw [h4, h5]
    simp only [h6]
    rw [if_neg hagr]

lemma turn_long (ha : ∀ n, Fresh (alloc n)) (h : Ok s) (hn : next s.recvQ.contents = .long) :
    ∃ s', turn alloc onRecv s = some (.stop (overrun s')) ∧ Ok s' ∧ s'.log = s.log ∧
      s'.marked = s.marked := by
  unfold next at hn
  split_ifs at hn with h5 hcode hlen hlong
  obtain ⟨r, h1, h2, h3, h4⟩ := turn_whole alloc onRecv h rfl
    (not_not.mp hcode) rfl (by omega)
  obtain ⟨hhead, hw⟩ := take_whole (c := s.recvQ.contents) rfl (by omega)
  refine ⟨{ s with recvQ := r, allocs := s.allocs + 1 }, ?_, ⟨h1, h2⟩, rfl, rfl⟩
  rw [h4, moveIn_long (ha s.allocs) hw (by rw [hhead]; exact hlong)]

lemma turn_frame (ha : ∀ n, Fresh (alloc n)) (h : Ok s) {n : ℕ}
    (hn : next s.recvQ.contents = .frame n) :
    ∃ s', turn alloc onRecv s = some (.again (callOnRecv onRecv s' (payload (s.recvQ.contents.take n)))) ∧
      Ok s' ∧ s'.recvQ.contents = s.recvQ.contents.drop n ∧ s'.log = s.log ∧
      s'.marked = s.marked ∧ s'.broken = s.broken := by
  obtain ⟨hlen, hle, hg⟩ := next_frame hn
  obtain ⟨hhead, hw⟩ := take_whole hlen hle
  have hcode := hg.isFrame.code
  rw [hhead] at hcode
  obtain ⟨r, h1, h2, h3, h4⟩ := turn_whole alloc onRecv h rfl hcode hlen hle
  obtain ⟨q, h5, h6⟩ := handle_moveIn onRecv (ha s.allocs) hw hg.isFrame.fits
    { s with recvQ := r, allocs := s.allocs + 1 }
  refine ⟨{ s with recvQ := r, allocs := s.allocs + 1 }, ?_, ⟨h1, h2⟩, h3, rfl, rfl, rfl⟩
  rw [h4, h5]
  simp only [h6]
  rw [if_pos hg.agrees]

/-! ### A pass -/

/-- The calls for the frames `gs`, which `rest` follows, and whether the session is marked then. -/
def deliver (onRecv : List Event → Bool) (log : List Event) (marked : Bool) (rest : List UInt8) :
    List (List UInt8) → List Event × Bool
  | [] => (log, marked)
  | g :: gs =>
    let log' := log ++ [.onRecv (payload g)]
    if onRecv log' then deliver onRecv (log' ++ [.left (!marked) (gs.flatten ++ rest)]) true rest gs
    else deliver onRecv log' marked rest gs

/-- What a pass over a queue that is parsed as `P` does to the session. -/
def Passed (onRecv : List Event → Bool) (s s' : Recv) (P : Parsed) : Prop :=
  let d := deliver onRecv s.log s.marked P.rest P.frames
  match next P.rest with
  | .refuse => s'.log = d.1 ++ [.disconnect] ∧ s'.marked = true ∧ s'.broken = s.broken
  | .long => s'.log = d.1 ++ [.overrun] ∧ s'.marked = d.2 ∧ s'.broken = true
  | _ => s'.log = d.1 ∧ s'.marked = d.2 ∧ s'.broken = s.broken ∧ s'.recvQ.contents = P.rest

lemma callOnRecv_eq (s : Recv) (xs : List UInt8) : (callOnRecv onRecv s xs).recvQ = s.recvQ ∧
    (callOnRecv onRecv s xs).broken = s.broken := by
  rw [callOnRecv]
  split_ifs <;> exact ⟨rfl, rfl⟩

lemma deliver_cons (s : Recv) (g : List UInt8) (gs : List (List UInt8)) (rest : List UInt8)
    (hc : s.recvQ.contents = gs.flatten ++ rest) :
    deliver onRecv s.log s.marked rest (g :: gs) =
      deliver onRecv (callOnRecv onRecv s (payload g)).log (callOnRecv onRecv s (payload g)).marked
        rest gs := by
  rw [deliver, callOnRecv]
  split_ifs
  · rw [hc]
  · rfl

/-- **The loop.** It ends, and does what the parse of the queue says. -/
lemma loop_eq (ha : ∀ n, Fresh (alloc n)) (c : List UInt8) :
    ∀ {s : Recv} {n : ℕ}, Ok s → s.recvQ.contents = c → c.length < n →
      ∃ s', recvLoop alloc onRecv n s = some s' ∧ Ok s' ∧ Passed onRecv s s' (parse c) := by
  induction c using stream_ind with
  | stop c hstop =>
    intro s n hs hc hn
    obtain ⟨n, rfl⟩ := Nat.exists_eq_add_one_of_ne_zero (by omega : n ≠ 0)
    rw [parse_stop hstop]
    cases hv : next c with
    | frame m => exact absurd hv (hstop m)
    | wait =>
      refine ⟨s, by rw [recvLoop, turn_wait onRecv hs (hc ▸ hv)], hs, ?_⟩
      rw [Passed]
      dsimp only
      rw [hv]
      exact ⟨rfl, rfl, rfl, hc⟩
    | refuse =>
      obtain ⟨s', h1, h2, h3, h4⟩ := turn_refuse onRecv ha hs (hc ▸ hv)
      refine ⟨disconnect s', by rw [recvLoop, h1], ⟨h2.wf, h2.total⟩, ?_⟩
      simp only [Passed, hv]
      exact ⟨by rw [disconnect, h3]; rfl, rfl, h4⟩
    | long =>
      obtain ⟨s', h1, h2, h3, h4⟩ := turn_long onRecv ha hs (hc ▸ hv)
      refine ⟨overrun s', by rw [recvLoop, h1], ⟨h2.wf, h2.total⟩, ?_⟩
      simp only [Passed, hv]
      exact ⟨by rw [overrun, h3]; rfl, h4, rfl⟩
  | step c m hm ih =>
    intro s n hs hc hn
    obtain ⟨n, rfl⟩ := Nat.exists_eq_add_one_of_ne_zero (by omega : n ≠ 0)
    obtain ⟨hlen, hle, -⟩ := next_frame hm
    obtain ⟨s₁, h1, h2, h3, h4, h5, h6⟩ := turn_frame onRecv ha hs (hc ▸ hm)
    rw [hc] at h1 h3
    obtain ⟨e1, e2⟩ := callOnRecv_eq onRecv s₁ (payload (c.take m))
    obtain ⟨s', h7, h8, h9⟩ := ih (s := callOnRecv onRecv s₁ (payload (c.take m))) (n := n)
      ⟨e1 ▸ h2.wf, e1 ▸ h2.total⟩ (e1 ▸ h3) (by rw [List.length_drop]; omega)
    refine ⟨s', by rw [recvLoop, h1]; exact h7, h8, ?_⟩
    have hd := deliver_cons onRecv s₁ (c.take m) (parse (c.drop m)).frames
      (parse (c.drop m)).rest (h3.trans (parse_flatten _))
    rw [h4, h5] at hd
    rw [parse_frame hm, Passed]
    dsimp only
    rw [hd]
    rw [Passed, e2, h6] at h9
    exact h9

/-- A completion that fits is added to the queue, and the loop passes over it. -/
lemma complete_eq (ha : ∀ n, Fresh (alloc n)) (hs : Ok s) {first : Bool}
    (hf : first = true → s.recvQ.iFront = 0 ∧ s.recvQ.iRear = 0) {d : List UInt8} (hd : d ≠ [])
    (hn : d.length ≤ postedSize first s.recvQ) :
    ∃ s', complete alloc onRecv first s d = some s' ∧ Ok s' ∧
      s.recvQ.contents.length + d.length ≤ recvCapacity ∧
      Passed onRecv s s' (parse (s.recvQ.contents ++ d)) := by
  rw [postedSize_eq hs.wf hf] at hn
  obtain ⟨b, h1, h2, h3, h4⟩ := receive_append hs.wf hf hd hn
  obtain ⟨r, hr⟩ : ∃ r, (moveRear { s.recvQ with buffer := b } d.length).2 = r := ⟨_, rfl⟩
  have ht : r.iTotalSize = recvCapacity + 1 := by
    rw [← hr]
    exact hs.total
  rw [hr] at h3 h4
  have hok : Ok { s with recvQ := r } := ⟨h3, ht⟩
  have hlen := length_contents h3
  rw [h4] at hlen
  obtain ⟨s', h5, h6, h7⟩ := loop_eq onRecv ha _ hok h4 (n := r.getUseSize.toNat + 1)
    (by omega)
  refine ⟨s', ?_, h6, ?_, h7⟩
  · rw [complete, h1, Option.bind_some]
    dsimp only
    rw [if_neg (not_not.mpr h2), hr]
    exact h5
  · have hu := length_contents hs.wf
    have hfree := freeSize_eq hs.wf
    have ht' := hs.total
    omega

end LoginServerChat.RecvLoop
