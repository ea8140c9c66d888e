import LoginServerChat.SlotJoin

/-!
The send path of a session. `sendFlag` is a lock that a worker takes in `SendPost`, hands to
the send it posts, and that the worker which handles the completion gives back. Who holds it
owns `sendPacketArr` and `sendCnt`.

All of this is for runs without a skipped `RELEASE` job and without a late `EnterSession`.
-/

namespace LoginServerChat.SlotSend

open NetPacket NetState NetStep SlotStep SlotView SlotRun SlotRefs SlotPhase SlotLive SlotRelease
  SlotJoin Runs

variable {τ : Type*} [DecidableEq τ] [Fintype τ]

/-! ### The lock -/

def SendPc.locks : SendPc → ℕ
  | .size _ | .xchg _ | .pend _ | .cancel _ | .fail => 0
  | _ => 1

/-- The thread holds `sendFlag`. -/
def LV.locks (l : LV) : ℕ :=
  match l.role with
  | .work (.entry (.sendDone _)) | .work .readCnt | .work (.zeroCnt _) | .work (.freeArr _ _)
  | .work .unlock => 1
  | .work (.send p) => SendPc.locks p
  | _ => 0

def Job.locks : Job → ℕ
  | .sendDone _ => 1
  | _ => 0

def IoReq.locks (io : IoReq) : ℕ := if io.send then 1 else 0

/-- What holds `sendFlag` without being a thread: a send that is posted or completed, or one
that nobody will complete. -/
def View.locks (V : View) : ℕ :=
  (V.ios.map IoReq.locks).sum + (V.jobs.map Job.locks).sum + V.h.latch

lemma LV.locks_le (l : LV) : LV.locks l ≤ LV.met l := by
  obtain ⟨r, x⟩ := l
  have : LV.locks ⟨r, x⟩ ≤ Role.met r := by
    rcases r with _ | p | p | p
    · simp [LV.locks]
    · simp [LV.locks]
    · rcases p with j | _ | _ | _ | _ | p | _ | _ | _
      · cases j <;> simp [LV.locks, Role.met, Role.refs, WorkPc.refs, Job.refs]
      all_goals try simp [LV.locks, Role.met, Role.refs, WorkPc.refs]
      cases p <;> simp [SendPc.locks, SendPc.refs]
    · simp [LV.locks]
  simp only [LV.met]
  omega

variable {k : ℕ} {e : Ev} {V V' : View} {l l' : LV}

lemma cancelAll_locks (s : Sock) (ios : List IoReq) :
    ((cancelAll s ios).map IoReq.locks).sum = (ios.map IoReq.locks).sum := by
  simp only [cancelAll, List.map_map]
  congr 2
  funext io
  simp only [Function.comp, IoReq.locks]
  split <;> rfl

/-- `sendFlag` is 0 or 1, and 1 exactly while something holds it; `n` counts the other threads. -/
def Locked (V : View) (n : ℕ) : Prop := V.s.sendFlag = View.locks V + n ∧ V.s.sendFlag ≤ 1

lemma sstep_locked {n : ℕ} (h : SStep k e V l V' l') (hu : LV.unmet l = 0) (hst : V.stack = 0)
    (hV : Locked V (n + LV.locks l)) : Locked V' (n + LV.locks l') := by
  cases h
  case pop hs => omega
  case initIoCount | initSocket | initRelSocket | initSessionID | initReleaseFlag | initSendFlag
      | initSendCnt | initRecvQ | assoc | assocFail | join => exact absurd hu Nat.one_ne_zero
  case chkID c _ => cases c <;> exact hV
  case entryPass j _ _ => cases j <;> exact hV
  case entrySkip j _ _ =>
    cases j
    case sendDone n' =>
      simp only [Locked, View.locks, skipHist, LV.locks] at hV ⊢
      omega
    all_goals exact hV
  case gqcs j js hj =>
    simp only [Locked, View.locks, hj, List.map_cons, List.sum_cons] at hV ⊢
    cases j <;> simp only [LV.locks, Job.locks] at hV ⊢ <;> omega
  all_goals
    simp only [Locked, View.locks, LV.locks, SendPc.locks, Job.locks, IoReq.locks, cancelAll_locks,
      List.map_append, List.sum_append, List.map_cons, List.map_nil, List.sum_cons, List.sum_nil,
      if_true, Bool.false_eq_true, if_false] at hV ⊢
    omega

/-! ### Threads that leave the session alone -/

/-- What of a slot only its accept thread, its workers, its announced callers and the thread
that releases it change. -/
structure Still (V V' : View) : Prop where
  sessionID : V'.s.sessionID = V.s.sessionID
  sendFlag : V'.s.sendFlag = V.s.sendFlag
  sendCnt : V'.s.sendCnt = V.s.sendCnt
  sendQ : V'.s.sendQ = V.s.sendQ
  arr : V'.s.sendPacketArr = V.s.sendPacketArr
  recvQ : V'.s.recvQ = V.s.recvQ
  ser : V'.h.ser = V.h.ser
  handle : V'.h.handle = V.h.handle
  joined : V'.h.joined = V.h.joined
  enqd : V'.h.enqd = V.h.enqd
  gath : V'.h.gath = V.h.gath
  sent : V'.h.sent = V.h.sent
  owned : V'.h.owned = V.h.owned
  dropped : V'.h.dropped = V.h.dropped
  latch : V'.h.latch = V.h.latch

lemma sstep_still (h : SStep k e V l V' l') (hm : LV.met l = 0) (ha : LV.accepts l = 0)
    (hr : LV.releases l = 0) (hst : V.stack = 0) : Still V V' := by
  cases h
  case pop hs => omega
  case entryPass j _ _ => constructor <;> rfl
  case entrySkip j _ _ =>
    cases j
    case sendDone => simp [LV.met, Role.met, Role.refs, WorkPc.refs, Job.refs] at hm
    all_goals constructor <;> rfl
  all_goals first
    | exact ⟨rfl, rfl, rfl, rfl, rfl, rfl, rfl, rfl, rfl, rfl, rfl, rfl, rfl, rfl, rfl⟩
    | exact absurd ha Nat.one_ne_zero
    | exact absurd hr Nat.one_ne_zero
    | exact absurd hm (Nat.succ_ne_zero _)

/-! ### What the holder of the lock knows -/

/-- The packets of a session between `sendQ` and their end. -/
structure Batch where
  sendQ : List Entry
  sendCnt : ℕ
  arr : ℕ → Entry
  gath : List Entry
  owned : List Entry

def batch (V : View) : Batch :=
  ⟨V.s.sendQ, V.s.sendCnt, V.s.sendPacketArr, V.h.gath, V.h.owned⟩

/-- `sendPacketArr` holds `sendCnt` packets that are the session's to free. -/
def Rest (B : Batch) : Prop := B.gath = [] ∧ B.owned = (List.range B.sendCnt).map B.arr

/-- And there are none. -/
def Clean (B : Batch) : Prop := B.gath = [] ∧ B.owned = [] ∧ B.sendCnt = 0

/-- The first `j` places of `sendPacketArr` are gathered, and they are what `bufs` says. -/
structure Gathered (B : Batch) (j : ℕ) (bufs : List (Entry × ℕ)) : Prop where
  owned : B.owned = (List.range j).map B.arr
  gath : B.gath = B.owned
  bufs : bufs.map Prod.fst = B.owned

/-- The places from `j` up to `bk` are yet to be freed. -/
def Freeing (B : Batch) (j bk : ℕ) : Prop :=
  B.gath = [] ∧ j ≤ bk ∧ B.owned = (List.range' j (bk - j)).map B.arr

/-- What a thread on its way through the send path, or through the release, knows. -/
def SendData (B : Batch) : Role → Prop
  | .work (.send (.use _)) | .work (.send (.unlock _)) | .work .unlock => Clean B
  | .work (.send (.gather j n bufs)) =>
    Gathered B j bufs ∧ B.sendCnt = 0 ∧ j ≤ n ∧ 0 < n ∧ n ≤ maxBuf ∧ n ≤ j + B.sendQ.length
  | .work (.send (.setCnt n bufs)) => Gathered B n bufs ∧ 0 < n ∧ n ≤ maxBuf
  | .work (.send (.inc bufs)) | .work (.send (.load bufs)) | .work (.send (.send _ bufs)) =>
    Gathered B B.sendCnt bufs ∧ 0 < B.sendCnt ∧ B.sendCnt ≤ maxBuf
  | .work (.entry (.sendDone _)) | .work .readCnt => Rest B
  | .work (.zeroCnt bk) => Rest B ∧ bk = B.sendCnt
  | .work (.freeArr j bk) => Freeing B j bk ∧ B.sendCnt = 0
  | .rel .drain | .rel (.drainFree _) => Rest B
  | .rel .readCnt => Rest B ∧ B.sendQ = []
  | .rel (.freeArr j bk) => Freeing B j bk ∧ B.sendQ = []
  | .rel .close | .rel .leave | .rel .leaving | .rel .push =>
    B.gath = [] ∧ B.owned = [] ∧ B.sendQ = []
  | _ => True

variable {B B' : Batch}

lemma Clean.rest (h : Clean B) : Rest B := ⟨h.1, by rw [h.2.1, h.2.2]; rfl⟩

lemma sendData_of_idle (hl : LV.locks l = 0) (hr : LV.releases l = 0) : SendData B l.role := by
  obtain ⟨r, x⟩ := l
  rcases r with _ | p | p | p
  · trivial
  · trivial
  · rcases p with j | _ | _ | _ | _ | p | _ | _ | _
    · cases j <;> trivial
    all_goals try trivial
    cases p <;> trivial
  · cases p <;> trivial

/-- What a packet that is added to `sendQ` leaves the holder of the lock with. -/
lemma SendData.enqueue (q : List Entry) (hr : LV.releases l = 0) (h : SendData B l.role) :
    SendData { B with sendQ := B.sendQ ++ q } l.role := by
  obtain ⟨r, x⟩ := l
  rcases r with _ | p | p | p
  · trivial
  · trivial
  · rcases p with j | _ | _ | _ | _ | p | _ | _ | _
    · cases j <;> exact h
    all_goals try exact h
    cases p
    case gather =>
      obtain ⟨hg, h0, h1, h2, h3, h4⟩ := h
      refine ⟨⟨hg.owned, hg.gath, hg.bufs⟩, h0, h1, h2, h3, ?_⟩
      rw [List.length_append]
      omega
    case setCnt | inc | load | send => exact ⟨⟨h.1.owned, h.1.gath, h.1.bufs⟩, h.2⟩
    all_goals exact h
  · cases p <;> trivial

lemma range_update (f : ℕ → Entry) (j : ℕ) (e : Entry) :
    (List.range (j + 1)).map (Function.update f j e) = (List.range j).map f ++ [e] := by
  rw [List.range_succ, List.map_append, List.map_singleton, Function.update_self]
  congr 1
  refine List.map_congr_left fun i hi => ?_
  rw [Function.update_of_ne (List.mem_range.mp hi).ne]

lemma Freeing.head {j bk : ℕ} (h : Freeing B j bk) (hj : j < bk) :
    B.owned = B.arr j :: B.owned.tail ∧
      Freeing { B with owned := B.owned.tail } (j + 1) bk := by
  have ho := h.2.2
  rw [show bk - j = bk - (j + 1) + 1 by omega, List.range'_succ, List.map_cons] at ho
  exact ⟨by rw [ho]; rfl, h.1, hj, by rw [ho]; rfl⟩

lemma Freeing.done {j bk : ℕ} (h : Freeing B j bk) (hj : ¬j < bk) : B.owned = [] := by
  have ho := h.2.2
  rwa [show bk - j = 0 by omega] at ho

lemma Rest.freeing (h : Rest B) : Freeing B 0 B.sendCnt :=
  ⟨h.1, Nat.zero_le _, by rw [h.2, List.range_eq_range', Nat.sub_zero]⟩

/-- The send path is walked through with the right knowledge. Who takes the lock, the completion
of a send or the session itself finds things as the last holder has left them. -/
lemma sstep_sendData (h : SStep k e V l V' l') (hA : JoinedAt V l)
    (hV : SendData (batch V) l.role)
    (htake : 0 < LV.met l → V.s.sendFlag ≠ 1 → Clean (batch V))
    (hjob : ∀ n, .sendDone n ∈ V.jobs → Rest (batch V))
    (hcas : LV.past l → V.s.ioCount = 0 → V.s.releaseFlag = 0 → Rest (batch V)) :
    SendData (batch V') l'.role := by
  cases h
  case enqueue =>
    have hlive := hA.live (Nat.lt_of_lt_of_le Nat.one_pos (Nat.le_add_left _ _))
    refine hV.enqueue _ (Nat.eq_zero_of_not_pos fun hr => ?_)
    exact Phase.noConfusion (hlive.symm.trans (hA.rel hr))
  case entryPass j _ _ => cases j <;> exact hV
  case gqcs j js hj =>
    cases j <;> try trivial
    exact hjob _ (by rw [hj]; exact List.mem_cons_self)
  case flagTake hf => exact htake Nat.one_pos hf
  case cas h0 hf => exact hcas (.inr trivial) h0 hf
  case use hq =>
    obtain ⟨h1, h2, h3⟩ := hV
    refine ⟨⟨h2, h1.trans h2.symm, h2.symm⟩, h3, Nat.zero_le _, ?_, min_le_right _ _, ?_⟩
    · have : 0 < maxBuf := by decide
      omega
    · rw [Nat.zero_add]
      exact min_le_left _ _
  case gather j n bufs e q len hj hq =>
    obtain ⟨⟨h1, h2, h3⟩, h0, h4, h5, h6, h7⟩ := hV
    simp only [batch, hq, List.length_cons] at h1 h2 h3 h0 h7
    refine ⟨⟨?_, ?_, ?_⟩, h0, hj, h5, h6, by simp only [batch]; omega⟩
    · simp only [batch]
      rw [range_update, ← h1]
    · simp only [batch, h2]
    · simp only [batch, List.map_append, h3, List.map_cons, List.map_nil]
  case gatherMiss hj hq =>
    -- the number of packets was read by the holder of the lock, so that they are all there
    have := hV.2.2.2.2.2
    simp only [batch, hq, List.length_nil] at this
    omega
  case gatherDone j n bufs hj =>
    obtain ⟨hg, h0, h4, h5, h6, h7⟩ := hV
    obtain rfl : j = n := by omega
    exact ⟨hg, h5, h6⟩
  case setCnt => exact ⟨⟨hV.1.owned, hV.1.gath, hV.1.bufs⟩, hV.2⟩
  case readCnt => exact ⟨hV, rfl⟩
  case zeroCnt =>
    obtain ⟨hr, rfl⟩ := hV
    exact ⟨hr.freeing, rfl⟩
  case freeArr hj => exact ⟨(hV.1.head hj).2, hV.2⟩
  case freeArrDone hj => exact ⟨hV.1.1, hV.1.done hj, hV.2⟩
  case drainDone hq => exact ⟨hV, hq⟩
  case relReadCnt => exact ⟨hV.1.freeing, hV.2⟩
  case relFreeArr hj => exact ⟨(hV.1.head hj).2, hV.2⟩
  case relFreeArrDone hj => exact ⟨hV.1.1, hV.1.done hj, hV.2⟩
  case relWalk p p' hp => cases p <;> cases p' <;> first | exact hp.elim | exact hV
  all_goals first
    | exact hV
    | trivial

/-- Who neither holds the lock nor releases or prepares the slot can at most add to `sendQ`. -/
lemma sstep_batch (h : SStep k e V l V' l') (hl : LV.locks l = 0) (hr : LV.releases l = 0)
    (hu : LV.unmet l = 0) (hst : V.stack = 0) :
    ∃ q, batch V' = { batch V with sendQ := V.s.sendQ ++ q } := by
  cases h
  case pop hs => omega
  case enqueue => exact ⟨_, rfl⟩
  case entrySkip j _ _ => cases j <;> exact ⟨[], by rw [List.append_nil]; rfl⟩
  all_goals first
    | exact absurd hl Nat.one_ne_zero
    | exact absurd hr Nat.one_ne_zero
    | exact absurd hu Nat.one_ne_zero
    | exact ⟨[], by rw [List.append_nil]; rfl⟩

/-- What is known while no thread holds the lock. -/
def AtRest (V : View) : Prop :=
  Rest (batch V) ∧ (V.s.sendFlag = 0 → Clean (batch V))

lemma sstep_atRest (h : SStep k e V l V' l') (hr : LV.releases l = 0) (hu : LV.unmet l = 0)
    (hst : V.stack = 0) (hV : SendData (batch V) l.role) (hlk : 0 < LV.locks l → V.s.sendFlag ≠ 0)
    (hi : LV.locks l = 0 → AtRest V) (hl' : LV.locks l' = 0) : AtRest V' := by
  by_cases hl : LV.locks l = 0
  · obtain ⟨q, hq⟩ := sstep_batch h hl hr hu hst
    obtain ⟨h1, h2⟩ := hi hl
    have hflag : V'.s.sendFlag = 0 → V.s.sendFlag = 0 := by
      intro hf
      cases h
      case flagBusy | flagTake => exact absurd hf Nat.one_ne_zero
      all_goals first
        | exact hf
        | exact absurd hl Nat.one_ne_zero
        | exact absurd hu Nat.one_ne_zero
    exact ⟨by rw [hq]; exact h1, fun hf => by rw [hq]; exact h2 (hflag hf)⟩
  · have hf := hlk (Nat.pos_of_ne_zero hl)
    cases h
    case retry | giveUp | unlock => exact ⟨Clean.rest hV, fun _ => hV⟩
    case sendError | sendDone | sendPend => exact ⟨⟨rfl, hV.1.owned⟩, fun h => absurd h hf⟩
    case entrySkip j _ _ =>
      cases j
      case sendDone => exact ⟨hV, fun h => absurd h hf⟩
      all_goals exact absurd rfl hl
    case entryPass j _ _ => cases j <;> exact absurd hl' hl
    all_goals first
      | exact absurd hl' hl
      | exact absurd rfl hl

/-! ### Packets in order -/

/-- A slot without an announced session holds no packet. -/
def Blank (V : View) : Prop :=
  V.h.phase = .free ∨ V.h.phase = .init ∨ V.h.joined = false →
    V.s.sendQ = [] ∧ V.h.gath = [] ∧ V.h.owned = []

lemma sstep_blank (h : SStep k e V l V' l') (hA : JoinedAt V l) (hV : SendData (batch V) l.role)
    (hi : Blank V) : Blank V' := by
  -- a worker or an announced caller is on an announced live session
  have hmet : 0 < LV.met l → ¬(V.h.phase = .free ∨ V.h.phase = .init ∨ V.h.joined = false) := by
    intro hm
    have h1 := hA.live (hm.trans_le (LV.met_le l))
    have h2 := hA.met hm
    simp [h1, h2]
  cases h
  case pop hs =>
    obtain ⟨h1, h2, h3⟩ := hi (.inl (hA.stack (by omega)))
    exact fun _ => ⟨h1, rfl, h3⟩
  case push =>
    obtain ⟨h1, h2, h3⟩ := hV
    exact fun _ => ⟨h3, h1, h2⟩
  case initReleaseFlag =>
    exact fun _ => hi (.inr (.inl (hA.init Nat.one_pos)))
  case initSendCnt =>
    intro hc
    obtain ⟨h1, h2, h3⟩ := hi hc
    exact ⟨h1, h2, rfl⟩
  case join => exact fun hc => hi (hc.imp_right (·.imp_right nofun))
  case cas => exact fun hc => hi (.inr (.inr (hc.elim nofun (·.elim nofun id))))
  case enqueue | gather => exact fun hc => absurd hc (hmet (Nat.succ_pos _))
  case sendError | sendDone | sendPend => exact fun hc => absurd hc (hmet (Nat.succ_pos _))
  case freeArr => exact fun hc => absurd hc (hmet (Nat.succ_pos _))
  case drain hq =>
    intro hc
    have := (hi hc).1
    simp [hq] at this
  case relFreeArr =>
    intro hc
    obtain ⟨h1, h2, h3⟩ := hi hc
    exact ⟨h1, h2, by simp [h3]⟩
  case entrySkip j _ _ => cases j <;> exact hi
  all_goals exact hi

/-- What was queued is what was handed to `WSASend`, then what is gathered, then what waits. -/
def Ordered (V : View) : Prop :=
  V.h.phase = .init ∨ V.h.phase = .live →
    V.h.enqd = V.h.sent.flatten ++ V.h.gath ++ V.s.sendQ

lemma sstep_ordered (h : SStep k e V l V' l') (hA : JoinedAt V l)
    (hV : SendData (batch V) l.role) (hb : Blank V) (hi : Ordered V) : Ordered V' := by
  cases h
  case pop hs =>
    obtain ⟨h1, -, -⟩ := hb (.inl (hA.stack (by omega)))
    exact fun _ => by simp [h1]
  case initReleaseFlag => exact fun _ => hi (.inl (hA.init Nat.one_pos))
  case cas | push => exact fun hc => hc.elim nofun nofun
  case enqueue =>
    intro hc
    simp [hi hc]
  case gather hq =>
    intro hc
    simp [hi hc, hq]
  case sendError | sendDone | sendPend =>
    intro hc
    have hg : _ = V.h.gath := hV.1.bufs.trans hV.1.gath.symm
    simp [hi hc, hg]
  case drain =>
    intro hc
    have hph := hA.rel Nat.one_pos
    simp [hph] at hc
  case entrySkip j _ _ => cases j <;> exact hi
  all_goals exact hi

/-- The caller has made sure of the session's id. -/
def IdChecked (V : View) (l : LV) : Prop :=
  match l.api with
  | some (id, .addRef _) | some (id, .encode _) | some (id, .enqueue _) => V.s.sessionID = id
  | _ => True

/-- Everything queued for a session is for its id. -/
def OwnIds (V : View) : Prop :=
  (V.h.phase = .init → V.h.enqd = []) ∧
    (V.h.phase = .live → ∀ e ∈ V.h.enqd, e.sid = V.s.sessionID)

lemma sstep_idChecked (h : SStep k e V l V' l') (hi : IdChecked V l) : IdChecked V' l' := by
  cases h
  case chkID c hid => cases c <;> first | exact hid | trivial
  all_goals first
    | exact hi
    | trivial

lemma sstep_ownIds (h : SStep k e V l V' l') (hA : JoinedAt V l) (hl : IdChecked V l)
    (hi : OwnIds V) : OwnIds V' := by
  cases h
  case pop => exact ⟨fun _ => rfl, nofun⟩
  case initSessionID => exact ⟨hi.1, fun hc => Phase.noConfusion ((hA.init Nat.one_pos).symm.trans hc)⟩
  case initReleaseFlag =>
    refine ⟨nofun, fun _ => ?_⟩
    rw [hi.1 (hA.init Nat.one_pos)]
    exact nofun
  case cas | push => exact ⟨nofun, nofun⟩
  case enqueue =>
    have hlive := hA.live (Nat.lt_of_lt_of_le Nat.one_pos (Nat.le_add_left _ _))
    refine ⟨fun hc => Phase.noConfusion (hlive.symm.trans hc), fun hc e he => ?_⟩
    rcases List.mem_append.mp he with he | he
    · exact hi.2 hc e he
    · rw [List.mem_singleton.mp he]
      exact hl.symm
  case entrySkip j _ _ => cases j <;> exact hi
  all_goals exact hi

/-- Batches have 1 to `MAXBUF` packets. -/
def Sized (V : View) : Prop := ∀ q ∈ V.h.sent, 0 < q.length ∧ q.length ≤ maxBuf

lemma sstep_sized (h : SStep k e V l V' l') (hV : SendData (batch V) l.role) (hi : Sized V) :
    Sized V' := by
  cases h
  case pop => exact nofun
  case sendError | sendDone | sendPend =>
    obtain ⟨hg, h1, h2⟩ := hV
    intro q hq
    rcases List.mem_append.mp hq with hq | hq
    · exact hi q hq
    · rw [List.mem_singleton.mp hq, hg.bufs, hg.owned, List.length_map, List.length_range]
      exact ⟨h1, h2⟩
  case entrySkip j _ _ => cases j <;> exact hi
  all_goals exact hi

/-! ### The accept thread -/

/-- What the accept thread has prepared for the session. -/
def Prepared (V : View) (l : LV) : Prop :=
  match l.role with
  | .acc (.init _ .sendCnt) => V.s.sendFlag = 0 ∧ V.h.latch = 0
  | .acc (.init _ .recvQ) => V.s.sendFlag = 0 ∧ V.h.latch = 0 ∧ V.s.sendCnt = 0
  | .acc (.assoc _) | .acc (.join _) =>
    V.s.sendFlag = 0 ∧ V.h.latch = 0 ∧ V.s.sendCnt = 0 ∧ V.s.recvQ = []
  | _ => True

lemma sstep_prepared (h : SStep k e V l V' l') (hi : Prepared V l) : Prepared V' l' := by
  cases h
  case initSendFlag => exact ⟨rfl, rfl⟩
  case initSendCnt => exact ⟨hi.1, hi.2, rfl⟩
  case initRecvQ => exact ⟨hi.1, hi.2.1, hi.2.2, rfl⟩
  case entryPass j _ _ => cases j <;> trivial
  all_goals first
    | exact hi
    | trivial

lemma prepared_of_met (h : LV.unmet l = 0) : Prepared V l := by
  obtain ⟨r, x⟩ := l
  rcases r with _ | p | _ | _
  · trivial
  · rcases p with ⟨_, p⟩ | _ | _ | _ | _ | _ | _ | _ | _
    · exact absurd h Nat.one_ne_zero
    all_goals trivial
  · trivial
  · trivial

lemma Still.prepared (hs : Still V V') (h : Prepared V l) : Prepared V' l := by
  unfold Prepared at h ⊢
  rw [hs.sendFlag, hs.sendCnt, hs.latch, hs.recvQ]
  exact h

/-- A session becomes an announced live one when the accept thread announces it. -/
lemma sstep_announced (h : SStep k e V l V' l') (hA : JoinedAt V l)
    (hn : ¬(V.h.phase = .live ∧ V.h.joined = true)) (hp : V'.h.phase = .live)
    (hj : V'.h.joined = true) :
    (∃ s, l.role = .acc (.join s)) ∧ LV.locks l' = 0 ∧ batch V' = batch V ∧
      V'.s.sendFlag = V.s.sendFlag ∧ View.locks V' = View.locks V := by
  cases h
  case join => exact ⟨⟨_, rfl⟩, rfl, rfl, rfl, rfl⟩
  case initReleaseFlag => exact absurd ((hA.unmet Nat.one_pos).symm.trans hj) Bool.false_ne_true
  case pop | cas | push => exact Phase.noConfusion hp
  case entrySkip j _ _ => cases j <;> exact absurd ⟨hp, hj⟩ hn
  all_goals exact absurd ⟨hp, hj⟩ hn

lemma locks_of_refs (h : View.refs V = 0) : View.locks V = V.h.latch := by
  have h1 : V.ios = [] := List.length_eq_zero_iff.mp (by simp only [View.refs] at h; omega)
  have h2 : (V.jobs.map Job.locks).sum ≤ (V.jobs.map Job.refs).sum :=
    List.sum_le_sum fun j _ => by cases j <;> simp [Job.locks, Job.refs]
  simp only [View.refs, View.locks, h1] at h ⊢
  simp at h ⊢
  omega

end LoginServerChat.SlotSend
