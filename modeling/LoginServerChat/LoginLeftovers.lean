import LoginServerChat.AccountKey

/-!
What of an earlier packet can still be seen when a packet is handled. A character keeps the bytes of
the requests before, and the block it lives in keeps those of the sessions before.
-/

namespace LoginServerChat.Login

open NetPacket Packet Cipher

/-! ### The life of a character -/

/-- The constructor and `OnClientJoin`, in a block of memory that is handed out again. -/
def onClientJoin (sessionID : ℕ) (memory : Character) : Character :=
  { memory with
    sessionID := sessionID
    accountNo := List.replicate 8 255
    sessionKey := List.replicate 65 0 }

/-- The world, the stack and a packet, when that packet is handled. -/
structure Turn where
  world : World
  stack : List UInt8
  packet : Packet
  stack_length : stack.length = 2

def serve (c : Character) (t : Turn) : Character := (jobHandler t.world t.stack c t.packet).1

/-- The characters that some history of requests leaves: a block is created with any bytes, its
session handles any packets, and then it goes to another session. -/
inductive Arises : Character → Prop
  | created (sessionID : ℕ) (memory : Character)
      (h : memory.id.length = 40 ∧ memory.nickname.length = 40) : Arises (onClientJoin sessionID memory)
  | served {c : Character} (t : Turn) (h : Arises c) : Arises (serve c t)
  | recycled (sessionID : ℕ) {c : Character} (h : Arises c) : Arises (onClientJoin sessionID c)

/-- A packet whose payload has not been read yet. -/
structure Delivers (p : Packet) (b : List UInt8) : Prop where
  length : p.pBuffer.length = defaultSize
  write : p.writePos ≤ defaultSize
  payload : held p = b

/-- The payload starts with a whole request. -/
structure Complete (b accountNo sessionKey : List UInt8) : Prop where
  account : accountNo.length = 8
  key : sessionKey.length = 64
  starts : ∃ rest, b = [101, 0] ++ accountNo ++ sessionKey ++ rest

/-- A byte of the type is there, and it is not that of a login request. -/
def OtherType (b : List UInt8) : Prop := (∃ x, b[0]? = some x ∧ x ≠ 101) ∨ ∃ x, b[1]? = some x ∧ x ≠ 0

/-- What is asked of the database and of Redis. -/
def asked (es : List Effect) : List Effect :=
  es.filter fun e => match e with
    | .query _ => true
    | .redisSet _ _ => true
    | _ => false

/-- What is sent, as it is before `Encode`. -/
def responses (es : List Effect) : List (ℕ × List UInt8) :=
  es.filterMap fun e => match e with
    | .sendPacket i p => some (i, held p)
    | _ => none

variable {w w' : World} {c c' : Character} {p p' : Packet} {b accountNo sessionKey stack : List UInt8}

lemma length_overlay {old new : List UInt8} (h : new.length ≤ old.length) :
    (overlay old new).length = old.length := by
  rw [overlay, List.length_append, List.length_drop]
  omega

lemma getData_length (p : Packet) (n : ℕ) : (p.getData n).1.length ≤ n := by
  rw [getData, List.length_take]
  omega

lemma readRequest_sized (hc : Sized c) (p : Packet) : Sized (readRequest c p).1 := by
  refine ⟨?_, ?_, hc.names⟩
  · have := getData_length p 8
    rw [readRequest]
    dsimp only
    rw [length_overlay (by rw [hc.account]; exact this), hc.account]
  · have := getData_length (p.getData 8).2 64
    rw [readRequest]
    dsimp only
    rw [List.length_append, List.length_take, length_overlay (by rw [hc.key]; omega), hc.key]
    rfl

lemma login_fst (w : World) (c : Character) (p : Packet) :
    (login w c p).1 = (lookUp w (readRequest c p).1).1 := by
  rw [login]
  dsimp only
  split_ifs
  · rfl
  · rfl
  · rfl

lemma jobHandler_sized (hc : Sized c) : Sized (jobHandler w stack c p).1 := by
  rw [jobHandler]
  split_ifs
  · rw [login_fst]
    exact lookUp_sized (readRequest_sized hc _)
  · exact hc

lemma onClientJoin_sized (sessionID : ℕ) (h : c.id.length = 40 ∧ c.nickname.length = 40) :
    Sized (onClientJoin sessionID c) := ⟨List.length_replicate, List.length_replicate, h⟩

/-- The names stay in the block. -/
lemma onClientJoin_names (sessionID : ℕ) (c : Character) :
    (onClientJoin sessionID c).id = c.id ∧ (onClientJoin sessionID c).nickname = c.nickname := ⟨rfl, rfl⟩

lemma Arises.sized (h : Arises c) : Sized c := by
  induction h with
  | created i m hm => exact onClientJoin_sized i hm
  | served t _ ih => exact jobHandler_sized ih
  | recycled i _ ih => exact onClientJoin_sized i ih.names

/-! ### Short payloads -/

lemma Delivers.getData (h : Delivers p b) (n : ℕ) :
    (p.getData n).1 = b.take n ∧ Delivers (p.getData n).2 (b.drop n) := by
  have hsize : (held p).length = p.getPayloadSize := by
    rw [held, List.length_take, List.length_drop, h.length, getPayloadSize]
    have := h.write
    omega
  have htake : (p.getData n).1 = (held p).take n := by
    rw [held, List.take_take]
    rfl
  have hdrop : held (p.getData n).2 = (held p).drop n := by
    by_cases hn : n ≤ (held p).length
    · have := (getData_held h.length h.write (List.take_append_drop n (held p)).symm).2
      rwa [List.length_take, min_eq_left hn] at this
    · have := (getData_held h.length h.write (List.append_nil (held p)).symm).2
      rw [List.drop_of_length_le (by omega), ← this, Packet.getData, Packet.getData, hsize, min_self,
        min_eq_right (by omega)]
  rw [htake, h.payload]
  refine ⟨rfl, h.length, h.write, ?_⟩
  rw [hdrop, h.payload]

lemma Complete.request (h : Complete b accountNo sessionKey) (hp : Delivers p b) :
    Request p accountNo sessionKey := by
  obtain ⟨rest, hrest⟩ := h.starts
  exact ⟨hp.length, hp.write, h.account, h.key, rest, by rw [hp.payload, hrest]⟩

/-- What a login asks depends on the account and the key it has read, and on nothing else. -/
lemma asked_login (w : World) (c : Character) (p : Packet) :
    asked (login w c p).2.2 = .query (accountRead c p) ::
      match w.db (accountRead c p) with
      | .row _ => if 10 < (decimal (accountRead c p)).length + 1 then []
          else [.redisSet (decimal (accountRead c p)) (cString (readRequest c p).1.sessionKey)]
      | _ => [] := by
  match hdb : w.db (accountRead c p) with
  | .row r =>
    rw [login_row hdb]
    split_ifs
    · rfl
    · rfl
  | .failed =>
    rw [login, lookUp, ← accountRead, hdb]
    rfl
  | .empty =>
    rw [login, lookUp, ← accountRead, hdb]
    rfl

/-- The type is read as the payload has it, as far as it goes. -/
lemma jobHandler_delivered (w : World) (hp : Delivers p b) :
    jobHandler w stack c p = if ((overlay stack (b.take 2)).getD 0 0).toNat +
        256 * ((overlay stack (b.take 2)).getD 1 0).toNat = reqLogin then login w c (p.getData 2).2
      else (c, (p.getData 2).2, []) := by
  rw [jobHandler, (hp.getData 2).1]

/-- Two bytes that spell the type of a login request. -/
lemma type_eq_iff (x y : UInt8) : x.toNat + 256 * y.toNat = reqLogin ↔ x = 101 ∧ y = 0 := by
  have h101 : (101 : UInt8).toNat = 101 := rfl
  have h0 : (0 : UInt8).toNat = 0 := rfl
  have hx := x.toNat_lt
  rw [← UInt8.toNat_inj, ← UInt8.toNat_inj, h101, h0, reqLogin]
  omega

lemma jobHandler_other (hs : stack.length = 2) (hp : Delivers p b) (hb : OtherType b) :
    (jobHandler w stack c p).2.2 = [] := by
  rw [jobHandler_delivered w hp, if_neg]
  match b, stack, hs with
  | [], _, _ => simp [OtherType] at hb
  | [x], [_, y], _ =>
    have hx : x ≠ 101 := by simpa [OtherType] using hb
    have := (type_eq_iff x y).not.mpr fun h => hx h.1
    exact this
  | x :: y :: _, [_, _], _ =>
    have hxy : ¬ (x = 101 ∧ y = 0) := by
      rcases hb with ⟨z, hz, hne⟩ | ⟨z, hz, hne⟩
      · have hz' : x = z := by simpa using hz
        exact fun h => hne (hz' ▸ h.1)
      · have hz' : y = z := by simpa using hz
        exact fun h => hne (hz' ▸ h.2)
    exact (type_eq_iff x y).not.mpr hxy

lemma cString_terminated (s : List UInt8) : cString (s ++ [0]) = cString s := by
  induction s with
  | nil => rfl
  | cons x s ih =>
    rw [cString, cString, List.cons_append, List.takeWhile_cons, List.takeWhile_cons]
    split_ifs
    · exact congrArg _ ih
    · rfl

/-- A whole request decides what is asked. -/
lemma asked_complete (hc : Arises c) (hs : stack.length = 2) (hp : Delivers p b)
    (hb : Complete b accountNo sessionKey) :
    asked (jobHandler w stack c p).2.2 = .query (int64 accountNo) ::
      match w.db (int64 accountNo) with
      | .row _ => if 10 < (decimal (int64 accountNo)).length + 1 then []
          else [.redisSet (decimal (int64 accountNo)) (cString sessionKey)]
      | _ => [] := by
  obtain ⟨q, h1, h2⟩ := jobHandler_eq (w := w) (hb.request hp) hc.sized hs
  have hk : cString (readRequest c q).1.sessionKey = cString sessionKey := by
    rw [h2]
    exact cString_terminated sessionKey
  rw [h1, asked_login, hk, accountRead, h2]

/-- What a payload leads to does not depend on anything from before it. -/
structure Decided (b : List UInt8) : Prop where
  complete : ∀ w stack c p, stack.length = 2 → Arises c → Delivers p b →
    asked (jobHandler w stack c p).2.2 ≠ [] → ∃ a k, Complete b a k
  exact : ∀ w stack c p a k, stack.length = 2 → Arises c → Delivers p b → Complete b a k →
    (jobHandler w stack c p).1.accountNo = a ∧ (jobHandler w stack c p).1.sessionKey = k ++ [0] ∧
      ∀ e ∈ asked (jobHandler w stack c p).2.2,
        e = .query (int64 a) ∨ e = .redisSet (decimal (int64 a)) (cString k)
  alike : ∀ w stack stack' c c' p p', stack.length = 2 → stack'.length = 2 → Arises c → Arises c' →
    Delivers p b → Delivers p' b →
      asked (jobHandler w stack c p).2.2 = asked (jobHandler w stack' c' p').2.2

lemma lookUp_account (w : World) (c : Character) : (lookUp w c).1.accountNo = c.accountNo := by
  rw [lookUp]
  cases w.db (int64 c.accountNo) with
  | failed => rfl
  | empty => rfl
  | row r => rfl

lemma lookUp_key (w : World) (c : Character) : (lookUp w c).1.sessionKey = c.sessionKey := by
  rw [lookUp]
  cases w.db (int64 c.accountNo) with
  | failed => rfl
  | empty => rfl
  | row r => rfl

lemma decided_of_complete (hb : Complete b accountNo sessionKey) : Decided b := by
  refine ⟨fun _ _ _ _ _ _ _ _ => ⟨_, _, hb⟩, fun w stack c p a k hs hc hp hak => ?_,
    fun w stack stack' c c' p p' hs hs' hc hc' hp hp' => ?_⟩
  · obtain ⟨q, h1, h2⟩ := jobHandler_eq (w := w) (hak.request hp) hc.sized hs
    refine ⟨?_, ?_, fun e he => ?_⟩
    · rw [h1, login_fst, lookUp_account, h2]
    · rw [h1, login_fst, lookUp_key, h2]
    · rw [asked_complete hc hs hp hak] at he
      rcases List.mem_cons.mp he with he | he
      · exact .inl he
      · split at he
        · split_ifs at he
          · exact absurd he (List.not_mem_nil)
          · exact .inr (List.mem_singleton.mp he)
        · exact absurd he (List.not_mem_nil)
  · rw [asked_complete hc hs hp hb, asked_complete hc' hs' hp' hb]

lemma decided_of_other (hb : OtherType b) : Decided b := by
  refine ⟨fun w stack c p hs _ hp hne => ?_, fun w stack c p a k _ _ _ hak => ?_,
    fun w stack stack' c c' p p' hs hs' _ _ hp hp' => ?_⟩
  · rw [jobHandler_other hs hp hb] at hne
    exact absurd rfl hne
  · obtain ⟨rest, hrest⟩ := hak.starts
    rw [hrest] at hb
    simp [OtherType] at hb
  · rw [jobHandler_other hs hp hb, jobHandler_other hs' hp' hb]

/-- A payload that ends early and does not contradict the type of a login request. -/
lemma short_of_not (hb : ¬ ∃ a k, Complete b a k) (ho : ¬ OtherType b) :
    b.length < 74 ∧ overlay [101, 0] (b.take 2) = [101, 0] := by
  match b, ho with
  | [], _ => exact ⟨by decide, rfl⟩
  | [x], ho =>
    have hx : x = 101 := by simpa [OtherType] using ho
    rw [hx]
    exact ⟨by decide, rfl⟩
  | x :: y :: t, ho =>
    have hxy : x = 101 ∧ y = 0 := by simpa [OtherType, not_or] using ho
    obtain ⟨rfl, rfl⟩ := hxy
    refine ⟨?_, rfl⟩
    by_contra hlen
    simp only [List.length_cons] at hlen
    apply hb
    refine ⟨t.take 8, (t.drop 8).take 64, ?_, ?_, (t.drop 8).drop 64, ?_⟩
    · rw [List.length_take]
      omega
    · rw [List.length_take, List.length_drop]
      omega
    · rw [List.append_assoc, List.append_assoc, List.take_append_drop, List.take_append_drop]
      rfl

/-- A packet that holds a payload which fits. -/
def packetOf (b : List UInt8) : Packet := (blank.setData b).2

lemma packetOf_delivers (hb : b.length ≤ 1019) : Delivers (packetOf b) b := by
  have hw : blank.writePos = 5 := rfl
  obtain ⟨h1, h2, -, h4⟩ := setData_held blank_fresh.length (le_refl _) (d := b)
    (by rw [hw, defaultSize]; omega)
  refine ⟨h2, ?_, h1⟩
  rw [packetOf, h4, hw, defaultSize]
  omega

lemma newcomer_arises : Arises newcomer := Arises.created 65536 newcomer newcomer_sized.names

/-- **What decides a login.** Exactly the payloads that hold a whole request, and those whose first
two bytes contradict its type, lead to the same query and the same write whatever came before. -/
theorem decided_iff (b : List UInt8) : Decided b ↔ (∃ a k, Complete b a k) ∨ OtherType b := by
  constructor
  · intro h
    by_contra hno
    rw [not_or] at hno
    obtain ⟨hlen, htype⟩ := short_of_not hno.1 hno.2
    have hp : Delivers (packetOf b) b := packetOf_delivers (by omega)
    apply hno.1
    apply h.complete oneAccount [101, 0] newcomer (packetOf b) rfl newcomer_arises hp
    rw [jobHandler_delivered oneAccount hp, htype, if_pos (by decide), asked_login]
    exact List.cons_ne_nil _ _
  · rintro (⟨a, k, hb⟩ | hb)
    · exact decided_of_complete hb
    · exact decided_of_other hb

/-- A character after a login as account 7. -/
def veteran : Character := serve newcomer ⟨oneAccount, [0, 0], requestFor (account 7) ones, rfl⟩

lemma veteran_arises : Arises veteran := Arises.served _ newcomer_arises

lemma veteran_holds : veteran.accountNo = account 7 ∧ veteran.sessionKey = ones ++ [0] ∧
    veteran.id = [97, 0, 0, 0] ++ List.replicate 36 0 ∧
    veteran.nickname = [98, 0, 0, 0] ++ List.replicate 36 0 := by
  have hreq := requestFor_complete (account 7) ones rfl rfl
  obtain ⟨q, h1, h2⟩ := jobHandler_eq (w := oneAccount) hreq newcomer_sized
    (show ([0, 0] : List UInt8).length = 2 from rfl)
  have hv : veteran = (lookUp oneAccount (readRequest newcomer q).1).1 := by
    rw [veteran, serve, h1, login_fst]
  rw [hv, h2]
  exact ⟨rfl, rfl, rfl, rfl⟩

/-- A payload that ends after its type leaves the account and the key as they were. -/
lemma asked_bare (w : World) (c : Character) (hp : Delivers p [101, 0]) (hs : stack.length = 2) :
    asked (jobHandler w stack c p).2.2 = .query (int64 c.accountNo) ::
      match w.db (int64 c.accountNo) with
      | .row _ => if 10 < (decimal (int64 c.accountNo)).length + 1 then []
          else [.redisSet (decimal (int64 c.accountNo)) (cString (c.sessionKey.take 64))]
      | _ => [] := by
  have h2 := (hp.getData 2).2
  have h3 := h2.getData 8
  have h4 := h3.2.getData 64
  have hread : (readRequest c (p.getData 2).2).1 =
      { c with sessionKey := c.sessionKey.take 64 ++ [0] } := by
    rw [readRequest]
    dsimp only
    rw [h3.1, h4.1]
    rfl
  have htype : overlay stack ([101, 0].take 2) = [101, 0] := overlay_full hs.le
  rw [jobHandler_delivered w hp, htype, if_pos (by decide), asked_login, accountRead, hread,
    cString_terminated]

/-- The two bytes of the type, after a login as account 7 of the same session: the query and the write
are those of account 7 again. In a session that has not logged in they are those of account -1. -/
theorem bare_type_reads_old : Delivers (packetOf [101, 0]) [101, 0] ∧ Arises veteran ∧ Arises newcomer ∧
    asked (jobHandler oneAccount [0, 0] veteran (packetOf [101, 0])).2.2 =
      [.query 7, .redisSet [55] ones] ∧
    asked (jobHandler oneAccount [0, 0] newcomer (packetOf [101, 0])).2.2 = [.query (-1)] ∧
    ¬ Decided [101, 0] := by
  have hp : Delivers (packetOf [101, 0]) [101, 0] := packetOf_delivers (by decide)
  obtain ⟨h1, h2, -, -⟩ := veteran_holds
  have hold : asked (jobHandler oneAccount [0, 0] veteran (packetOf [101, 0])).2.2 =
      [.query 7, .redisSet [55] ones] := by
    rw [asked_bare _ _ hp rfl, h1, h2]
    rfl
  have hnew : asked (jobHandler oneAccount [0, 0] newcomer (packetOf [101, 0])).2.2 = [.query (-1)] := by
    rw [asked_bare _ _ hp rfl]
    rfl
  refine ⟨hp, veteran_arises, newcomer_arises, hold, hnew, fun h => ?_⟩
  have := h.alike oneAccount [0, 0] [0, 0] _ _ _ _ rfl rfl veteran_arises newcomer_arises hp hp
  rw [hold, hnew] at this
  exact absurd (congrArg List.length this) (by decide)

/-! ### Responses -/

/-- The bytes of a response. -/
def message (accountNo : List UInt8) (isSuccess : UInt8) (id nickname : List UInt8) : List UInt8 :=
  resLogin ++ accountNo ++ [isSuccess] ++ id ++ nickname ++ wide 16 localhost ++ gameServerPort ++
    wide 16 localhost ++ chatServerPort

lemma responses_respond (hc : Sized c) (isSuccess : UInt8) : responses (respond w c isSuccess) =
    [(c.sessionID, message c.accountNo isSuccess c.id c.nickname)] := by
  have hm : (response c isSuccess).flatten = message c.accountNo isSuccess c.id c.nickname := by
    simp [response, message]
  rw [← hm, ← held_response (w := w) hc, respond]
  split_ifs
  · rfl
  · rfl

lemma responses_append {es es' : List Effect} (h : ∀ i p, Effect.sendPacket i p ∉ es) :
    responses (es ++ es') = responses es' := by
  rw [responses, List.filterMap_append, List.filterMap_eq_nil_iff.mpr, List.nil_append]
  · rfl
  · intro e he
    cases e with
    | sendPacket i p => exact absurd he (h i p)
    | _ => rfl

lemma message_inj {s : UInt8} {id id' nick nick' : List UInt8} (hid : id.length = id'.length)
    (hnick : nick.length = nick'.length)
    (h : message accountNo s id nick = message accountNo s id' nick') : id = id' ∧ nick = nick' := by
  simp only [message, List.append_assoc] at h
  have h1 := List.append_cancel_left (List.append_cancel_left (List.append_cancel_left h))
  obtain ⟨h2, h3⟩ := List.append_inj h1 hid
  exact ⟨h2, (List.append_inj h3 hnick).1⟩

/-- What a whole request is answered with. -/
lemma responses_complete (hc : Arises c) (hs : stack.length = 2) (h : Request p accountNo sessionKey) :
    responses (jobHandler w stack c p).2.2 = match w.db (int64 accountNo) with
      | .row r => if 10 < (decimal (int64 accountNo)).length + 1 then []
          else [(c.sessionID, message accountNo 1 (w.widen r.userid c.id) (w.widen r.usernick c.nickname))]
      | _ => [(c.sessionID, message accountNo 0 c.id c.nickname)] := by
  obtain ⟨q, h1, h2⟩ := jobHandler_eq (w := w) h hc.sized hs
  have hsz := readRequest_sized hc.sized q
  have hsz' := lookUp_sized (w := w) hsz
  have hacc : accountRead c q = int64 accountNo := by
    rw [accountRead, h2]
  rw [h1]
  cases hdb : w.db (int64 accountNo) with
  | row r =>
    rw [← hacc] at hdb ⊢
    rw [login_row hdb]
    split_ifs
    · rfl
    · rw [List.append_cons _ _ (respond _ _ _), responses_append (by simp), responses_respond hsz', lookUp,
        ← accountRead, hdb, h2]
  | failed =>
    have hl : (login w c q).2.2 = [.query (accountRead c q)] ++ respond w (readRequest c q).1 0 := by
      rw [login, lookUp, ← accountRead, hacc, hdb]
      rfl
    rw [hl, responses_append (by simp), responses_respond hsz, h2]
  | empty =>
    have hl : (login w c q).2.2 =
        [.query (accountRead c q), .storeResult] ++ respond w (readRequest c q).1 0 := by
      rw [login, lookUp, ← accountRead, hacc, hdb]
      rfl
    rw [hl, responses_append (by simp), responses_respond hsz, h2]

/-- The world gives the same answer for an account and converts text alike. -/
structure SameAnswer (w w' : World) (n : ℤ) : Prop where
  db : w'.db n = w.db n
  widen : w'.widen = w.widen

/-- The response to a request is the same after any two histories. -/
def ResponseAlike (w : World) (accountNo sessionKey : List UInt8) : Prop :=
  ∀ w' stack stack' c c' p p', SameAnswer w w' (int64 accountNo) → stack.length = 2 → stack'.length = 2 →
    Arises c → Arises c' → c.sessionID = c'.sessionID → Request p accountNo sessionKey →
    Request p' accountNo sessionKey →
      responses (jobHandler w stack c p).2.2 = responses (jobHandler w' stack' c' p').2.2

/-- The conversion of a text leaves nothing of what the array of twenty characters held. -/
def Overwrites (w : World) (s : List UInt8) : Prop :=
  ∀ old old', old.length = 40 → old'.length = 40 → w.widen s old = w.widen s old'

/-- A block with the given bytes, and a session that has just joined in it. -/
def blockWith (id nickname : List UInt8) : Character := onClientJoin 65536 ⟨0, [], [], id, nickname⟩

lemma blockWith_arises {id nickname : List UInt8} (h1 : id.length = 40) (h2 : nickname.length = 40) :
    Arises (blockWith id nickname) := Arises.created _ _ ⟨h1, h2⟩

/-- Two blocks are enough to tell the histories apart. -/
lemma ResponseAlike.blocks (h : ResponseAlike w accountNo sessionKey) (ha : accountNo.length = 8)
    (hk : sessionKey.length = 64) {id id' nick nick' : List UInt8} (hid : id.length = 40)
    (hid' : id'.length = 40) (hnick : nick.length = 40) (hnick' : nick'.length = 40) :
    responses (jobHandler w [0, 0] (blockWith id nick) (requestFor accountNo sessionKey)).2.2 =
      responses (jobHandler w [0, 0] (blockWith id' nick') (requestFor accountNo sessionKey)).2.2 :=
  h w _ _ _ _ _ _ ⟨rfl, rfl⟩ rfl rfl (blockWith_arises hid hnick) (blockWith_arises hid' hnick') rfl
    (requestFor_complete _ _ ha hk) (requestFor_complete _ _ ha hk)

/-- Without a row the response shows what the block held. -/
lemma alike_row (h : ResponseAlike w accountNo sessionKey) (ha : accountNo.length = 8)
    (hk : sessionKey.length = 64) : ∃ r, w.db (int64 accountNo) = .row r := by
  have hlen : ∀ x : UInt8, (List.replicate 40 x).length = 40 := fun x => List.length_replicate
  have hb := h.blocks ha hk (hlen 0) (hlen 1) (hlen 0) (hlen 0)
  have hreq := requestFor_complete accountNo sessionKey ha hk
  rw [responses_complete (blockWith_arises (hlen 0) (hlen 0)) rfl hreq,
    responses_complete (blockWith_arises (hlen 1) (hlen 0)) rfl hreq] at hb
  have hne : message accountNo 0 (List.replicate 40 0) (List.replicate 40 0) ≠
      message accountNo 0 (List.replicate 40 1) (List.replicate 40 0) := fun he =>
    absurd (message_inj (by rw [hlen, hlen]) rfl he).1 (by decide)
  match hdb : w.db (int64 accountNo) with
  | .row r => exact ⟨r, rfl⟩
  | .failed =>
    rw [hdb] at hb
    exact absurd (congrArg Prod.snd (List.cons.inj hb).1) hne
  | .empty =>
    rw [hdb] at hb
    exact absurd (congrArg Prod.snd (List.cons.inj hb).1) hne

/-- **What a response gives away.** The response to a request is independent of all that came before
exactly if there is a row for its account whose two names overwrite their arrays whole, or whose
account has too long a text for `Login` to come to its response. -/
theorem response_alike_iff (ha : accountNo.length = 8) (hk : sessionKey.length = 64) :
    ResponseAlike w accountNo sessionKey ↔ ∃ r, w.db (int64 accountNo) = .row r ∧
      (9 < (decimal (int64 accountNo)).length ∨ Overwrites w r.userid ∧ Overwrites w r.usernick) := by
  constructor
  · intro h
    obtain ⟨r, hr⟩ := alike_row h ha hk
    refine ⟨r, hr, ?_⟩
    by_cases hlen : 9 < (decimal (int64 accountNo)).length
    · exact .inl hlen
    have hreq := requestFor_complete accountNo sessionKey ha hk
    -- the same names, over any two blocks
    have hpair : ∀ id id' nick nick' : List UInt8, id.length = 40 → id'.length = 40 →
        nick.length = 40 → nick'.length = 40 → w.widen r.userid id = w.widen r.userid id' ∧
          w.widen r.usernick nick = w.widen r.usernick nick' := by
      intro id id' nick nick' h1 h2 h3 h4
      have hb := h.blocks ha hk h1 h2 h3 h4
      rw [responses_complete (blockWith_arises h1 h3) rfl hreq,
        responses_complete (blockWith_arises h2 h4) rfl hreq, hr] at hb
      dsimp only at hb
      rw [if_neg (by omega), if_neg (by omega)] at hb
      refine message_inj ?_ ?_ (congrArg Prod.snd (List.cons.inj hb).1)
      · rw [w.widen_length, w.widen_length]
        exact h1.trans h2.symm
      · rw [w.widen_length, w.widen_length]
        exact h3.trans h4.symm
    exact .inr ⟨fun old old' h1 h2 => (hpair old old' old old' h1 h2 h1 h2).1,
      fun old old' h1 h2 => (hpair old old' old old' h1 h2 h1 h2).2⟩
  · rintro ⟨r, hr, hcond⟩ w' stack stack' c c' p p' hw hs hs' hc hc' hid hp hp'
    rw [responses_complete hc hs hp, responses_complete hc' hs' hp', hw.db, hw.widen, hr, hid]
    dsimp only
    split_ifs with hlen
    · rfl
    · obtain ⟨h1, h2⟩ := hcond.resolve_left (by omega)
      rw [h1 _ _ hc.sized.names.1 hc'.sized.names.1, h2 _ _ hc.sized.names.2 hc'.sized.names.2]

/-- A database whose row has two names of nineteen characters, which fill their arrays. -/
def fullNames : World :=
  { oneAccount with db := fun _ => .row ⟨List.replicate 19 97, List.replicate 19 98, ones⟩ }

lemma overwrites_full {s : List UInt8} (h : s.length = 19) : Overwrites fullNames s := by
  have hlen : ((s ++ [0]).flatMap fun b => [b, 0]).length = 40 := by
    simp [List.length_flatMap, h]
  have hw : ∀ old, old.length = 40 → fullNames.widen s old = (s ++ [0]).flatMap fun b => [b, 0] := by
    intro old ho
    change (overlay old _).take old.length = _
    rw [overlay_full (by omega), List.take_of_length_le (by omega)]
  intro old old' h1 h2
  rw [hw old h1, hw old' h2]

/-- With such names nothing from before is seen. -/
theorem full_names_alike : ResponseAlike fullNames (account 7) ones :=
  (response_alike_iff rfl rfl).mpr ⟨_, rfl, .inr ⟨overwrites_full rfl, overwrites_full rfl⟩⟩

/-- An account that is not in the database is answered with the names of account 7, if the block was
account 7's before, and with zeros if it was nobody's. -/
theorem failed_login_shows_names : oneAccount.db (int64 (account 8)) = .empty ∧
    Arises (onClientJoin 131073 veteran) ∧ Arises (onClientJoin 131073 newcomer) ∧
    Request (requestFor (account 8) ones) (account 8) ones ∧
    responses (jobHandler oneAccount [0, 0] (onClientJoin 131073 veteran)
      (requestFor (account 8) ones)).2.2 =
        [(131073, message (account 8) 0 ([97, 0, 0, 0] ++ List.replicate 36 0)
          ([98, 0, 0, 0] ++ List.replicate 36 0))] ∧
    responses (jobHandler oneAccount [0, 0] (onClientJoin 131073 newcomer)
      (requestFor (account 8) ones)).2.2 =
        [(131073, message (account 8) 0 (List.replicate 40 0) (List.replicate 40 0))] ∧
    ¬ ResponseAlike oneAccount (account 8) ones := by
  have hreq := requestFor_complete (account 8) ones rfl rfl
  have hv := Arises.recycled 131073 veteran_arises
  have hn := Arises.recycled 131073 newcomer_arises
  have htwo : ([0, 0] : List UInt8).length = 2 := rfl
  have h1 := responses_complete (w := oneAccount) hv htwo hreq
  have h2 := responses_complete (w := oneAccount) hn htwo hreq
  obtain ⟨hid, hnick⟩ := onClientJoin_names 131073 veteran
  rw [veteran_holds.2.2.1] at hid
  rw [veteran_holds.2.2.2] at hnick
  have hdb : oneAccount.db (int64 (account 8)) = .empty := rfl
  rw [hdb, hid, hnick] at h1
  rw [hdb] at h2
  refine ⟨hdb, hv, hn, hreq, h1, h2, fun halike => ?_⟩
  have hsame : (onClientJoin 131073 veteran).sessionID = (onClientJoin 131073 newcomer).sessionID := by
    rw [onClientJoin, onClientJoin]
  have h := halike oneAccount _ _ _ _ _ _ ⟨rfl, rfl⟩ htwo htwo hv hn hsame hreq hreq
  rw [h1, h2] at h
  have hid' : [97, 0, 0, 0] ++ List.replicate 36 (0 : UInt8) = List.replicate 40 0 := by
    refine (message_inj ?_ ?_ (congrArg Prod.snd (List.cons.inj h).1)).1
    · rfl
    · rfl
  exact absurd hid' (by decide)

end LoginServerChat.Login
