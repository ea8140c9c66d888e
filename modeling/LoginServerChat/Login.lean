import LoginServerChat.Cipher

/-!
`LoginServer::JobHandler` and `Login`. The members of a `Character` are kept as the bytes they
have in memory, since a packet that is too short leaves part of them as they were. The connections
to the database and to Redis are taken to be there; what they answer is given from outside.
-/

namespace LoginServerChat.Login

open NetPacket Packet Cipher

/-- The bytes of a little-endian integer of eight bytes, as `INT64`. -/
def int64 (b : List UInt8) : ℤ :=
  let n := (b.take 8).foldr (fun x a => x.toNat + 256 * a) (0 : ℕ)
  if n < 2 ^ 63 then n else n - 2 ^ 64

structure Character where
  sessionID : ℕ
  accountNo : List UInt8
  sessionKey : List UInt8
  id : List UInt8
  nickname : List UInt8

/-- The joined row that the query asks for. -/
structure Row where
  userid : List UInt8
  usernick : List UInt8
  sessionkey : List UInt8

inductive Answer
  /-- `ReqQuery` returned false. -/
  | failed
  /-- `FetchRow` returned `NULL`. -/
  | empty
  | row (r : Row)

inductive Effect
  | query (accountNo : ℤ)
  | storeResult
  | freeResult
  /-- `set_advanced` with an expiry of 5000 seconds. -/
  | redisSet (key value : List UInt8)
  | sendPacket (sessionID : ℕ) (p : Packet)
  | loginSuccess
  | disconnect (sessionID : ℕ)
  /-- The handler of `sprintf_s` for a buffer that is too small. -/
  | crash

/-- What the world answers: the database, `MultiByteToWideChar` into an array of twenty
characters that holds something already, and `CNetPacket::Alloc`. -/
structure World where
  db : ℤ → Answer
  widen : List UInt8 → List UInt8 → List UInt8
  alloc : Packet
  widen_length : ∀ s old, (widen s old).length = old.length
  alloc_fresh : Fresh alloc

/-- `memcpy_s` over the start of a member. -/
def overlay (old new : List UInt8) : List UInt8 := new ++ old.drop new.length

/-- The text that `%lld` gives. -/
def decimal (n : ℤ) : List UInt8 :=
  (if n < 0 then [45] else []) ++
    (if n = 0 then [48] else ((Nat.digits 10 n.natAbs).reverse.map fun d => UInt8.ofNat (48 + d)))

/-- A string up to its terminator. -/
def cString (b : List UInt8) : List UInt8 := b.takeWhile (· ≠ 0)

/-- Twenty or sixteen `WCHAR`s for a text of plain characters. -/
def wide (n : ℕ) (s : List UInt8) : List UInt8 :=
  (s.flatMap fun b => [b, 0]) ++ List.replicate (2 * (n - s.length)) 0

/-- `"127.0.0.1"`. -/
def localhost : List UInt8 := [49, 50, 55, 46, 48, 46, 48, 46, 49]

def reqLogin : ℕ := 101
def resLogin : List UInt8 := [102, 0]
def gameServerPort : List UInt8 := [0x22, 0x4E]
def chatServerPort : List UInt8 := [0x20, 0x4E]

/-- The fields of the response, in the order in which they are written. -/
def response (c : Character) (isSuccess : UInt8) : List (List UInt8) :=
  [resLogin, c.accountNo, [isSuccess], c.id, c.nickname, wide 16 localhost, gameServerPort,
    wide 16 localhost, chatServerPort]

def writeAll (p : Packet) (fields : List (List UInt8)) : Packet :=
  fields.foldl (fun p f => (p.setData f).2) p

/-- The request is read into the character. -/
def readRequest (c : Character) (p : Packet) : Character × Packet :=
  let a := p.getData 8
  let k := a.2.getData 64
  ({ c with
    accountNo := overlay c.accountNo a.1
    sessionKey := (overlay c.sessionKey k.1).take 64 ++ [0] }, k.2)

/-- The `do .. while (0)` around the query: the character, `isSuccess`, and what was done. -/
def lookUp (w : World) (c : Character) : Character × UInt8 × List Effect :=
  let q := Effect.query (int64 c.accountNo)
  match w.db (int64 c.accountNo) with
  | .failed => (c, 0, [q])
  | .empty => (c, 0, [q, .storeResult])
  | .row r => ({ c with id := w.widen r.userid c.id, nickname := w.widen r.usernick c.nickname }, 1,
      [q, .storeResult, .freeResult])

/-- The end of `Login`. -/
def respond (w : World) (c : Character) (isSuccess : UInt8) : List Effect :=
  [.sendPacket c.sessionID (writeAll w.alloc (response c isSuccess)),
    if isSuccess = 0 then .disconnect c.sessionID else .loginSuccess]

def login (w : World) (c : Character) (p : Packet) : Character × Packet × List Effect :=
  let r := readRequest c p
  let q := lookUp w r.1
  if q.2.1 = 0 then (q.1, r.2, q.2.2 ++ respond w q.1 q.2.1)
  else
    let strAccountNo := decimal (int64 q.1.accountNo)
    if 10 < strAccountNo.length + 1 then (q.1, r.2, q.2.2 ++ [.crash])
    else (q.1, r.2, q.2.2 ++ .redisSet strAccountNo (cString q.1.sessionKey) :: respond w q.1 q.2.1)

/-- `JobHandler`; `stack` is what the variable for the type held before. -/
def jobHandler (w : World) (stack : List UInt8) (c : Character) (p : Packet) :
    Character × Packet × List Effect :=
  let t := p.getData 2
  let type := overlay stack t.1
  if (type.getD 0 0).toNat + 256 * (type.getD 1 0).toNat = reqLogin then login w c t.2
  else (c, t.2, [])

/-! ### Complete requests -/

/-- A packet that holds a complete request. -/
structure Request (p : Packet) (accountNo sessionKey : List UInt8) : Prop where
  length : p.pBuffer.length = defaultSize
  write : p.writePos ≤ defaultSize
  account : accountNo.length = 8
  key : sessionKey.length = 64
  holds : ∃ rest, held p = [101, 0] ++ accountNo ++ sessionKey ++ rest

/-- The status byte of a response. -/
def status (p : Packet) : UInt8 := (held p).getD 10 0

/-- The login is turned down: status 0, nothing stored or counted, and the session disconnected. -/
structure Denied (c : Character) (es : List Effect) : Prop where
  sent : ∃ p, Effect.sendPacket c.sessionID p ∈ es
  status : ∀ i p, Effect.sendPacket i p ∈ es → status p = 0
  redis : ∀ k v, Effect.redisSet k v ∉ es
  count : Effect.loginSuccess ∉ es
  disconnected : Effect.disconnect c.sessionID ∈ es

/-- The database holds the key of the request for the account of the request. -/
def Matches (w : World) (accountNo sessionKey : List UInt8) : Prop :=
  ∃ r, w.db (int64 accountNo) = .row r ∧ r.sessionkey = sessionKey

variable {w : World} {c : Character} {p : Packet} {accountNo sessionKey stack : List UInt8}

lemma overlay_full {old new : List UInt8} (h : old.length ≤ new.length) : overlay old new = new := by
  rw [overlay, List.drop_of_length_le h, List.append_nil]

/-- A character as the server keeps it. -/
structure Sized (c : Character) : Prop where
  account : c.accountNo.length = 8
  key : c.sessionKey.length = 65
  names : c.id.length = 40 ∧ c.nickname.length = 40

lemma jobHandler_eq (h : Request p accountNo sessionKey) (hc : Sized c) (hs : stack.length = 2) :
    ∃ q, jobHandler w stack c p = login w c q ∧ (readRequest c q).1 =
      { c with accountNo := accountNo, sessionKey := sessionKey ++ [0] } := by
  obtain ⟨rest, hheld⟩ := h.holds
  rw [List.append_assoc, List.append_assoc] at hheld
  obtain ⟨h1, h2⟩ := getData_held h.length h.write hheld
  obtain ⟨h3, h4⟩ := getData_held (p := (p.getData 2).2) h.length h.write h2
  obtain ⟨h5, -⟩ := getData_held (p := ((p.getData 2).2.getData accountNo.length).2) h.length h.write h4
  rw [h.account] at h3 h5
  rw [h.key] at h5
  refine ⟨(p.getData 2).2, ?_, ?_⟩
  · have ht : overlay stack (p.getData 2).1 = [101, 0] := by
      rw [show (p.getData 2).1 = [101, 0] from h1]
      exact overlay_full hs.le
    rw [jobHandler, ht, if_pos (by decide)]
  · have hk : (overlay c.sessionKey sessionKey).take 64 = sessionKey := by
      rw [overlay, List.take_append_of_le_length h.key.ge, List.take_of_length_le h.key.le]
    rw [readRequest]
    dsimp only
    rw [h3, h5, hk, overlay_full (by rw [hc.account, h.account])]

/-! ### The response -/

lemma writeAll_held {fields : List (List UInt8)} (h : p.pBuffer.length = defaultSize)
    (hr : p.readPos ≤ p.writePos) (hf : p.writePos + fields.flatten.length ≤ defaultSize) :
    held (writeAll p fields) = held p ++ fields.flatten := by
  induction fields generalizing p with
  | nil => simp [writeAll]
  | cons f fs ih =>
    rw [List.flatten_cons, List.length_append] at hf
    obtain ⟨h1, h2, h3, h4⟩ := setData_held h hr (d := f) (by omega)
    have := ih (p := (p.setData f).2) h2 (by omega) (by omega)
    rw [h1] at this
    rw [List.flatten_cons, ← List.append_assoc, ← this]
    rfl

/-- The payload of a response is its fields one after another. -/
lemma held_response (hc : Sized c) (isSuccess : UInt8) :
    held (writeAll w.alloc (response c isSuccess)) = (response c isSuccess).flatten := by
  have hw := w.alloc_fresh
  have hread := hw.read
  have hwrite := hw.write
  have hheld : held w.alloc = [] := by
    rw [held, getPayloadSize, hread, hwrite, Nat.sub_self, List.take_zero]
  have hlen : (response c isSuccess).flatten.length = 159 := by
    simp [response, resLogin, wide, localhost, gameServerPort, chatServerPort, hc.account, hc.names]
  rw [writeAll_held hw.length (by omega) (by rw [hlen, hwrite, headerSize, defaultSize]; omega),
    hheld, List.nil_append]

/-- The status that a response carries. -/
lemma status_response (hc : Sized c) (isSuccess : UInt8) :
    status (writeAll w.alloc (response c isSuccess)) = isSuccess := by
  rw [status, held_response hc]
  match hn : c.accountNo, hc.account with
  | [_, _, _, _, _, _, _, _], _ => simp [response, hn, resLogin]

lemma lookUp_sized (hc : Sized c) : Sized (lookUp w c).1 := by
  rw [lookUp]
  cases w.db (int64 c.accountNo) with
  | failed => exact hc
  | empty => exact hc
  | row r =>
    refine ⟨hc.account, hc.key, ?_, ?_⟩
    · rw [w.widen_length]
      exact hc.names.1
    · rw [w.widen_length]
      exact hc.names.2

/-- Without a row the login is turned down. -/
lemma login_denied (hc : Sized (readRequest c p).1)
    (h : ∀ r, w.db (int64 (readRequest c p).1.accountNo) ≠ .row r) : Denied c (login w c p).2.2 := by
  obtain ⟨c', hc'⟩ : ∃ c', (readRequest c p).1 = c' := ⟨_, rfl⟩
  have hid : c'.sessionID = c.sessionID := by
    rw [← hc']
    rfl
  rw [hc'] at hc h
  have hq : ∃ es, lookUp w c' = (c', 0, es) ∧ (∀ i q, Effect.sendPacket i q ∉ es) ∧
      (∀ k v, Effect.redisSet k v ∉ es) ∧ Effect.loginSuccess ∉ es := by
    rw [lookUp]
    cases hdb : w.db (int64 c'.accountNo) with
    | failed => exact ⟨_, rfl, by simp, by simp, by simp⟩
    | empty => exact ⟨_, rfl, by simp, by simp, by simp⟩
    | row r => exact absurd hdb (h r)
  obtain ⟨es, h1, h2, h3, h4⟩ := hq
  have hl : (login w c p).2.2 = es ++ respond w c' 0 := by
    rw [login]
    dsimp only
    rw [hc', h1, if_pos rfl]
  have hst := status_response (w := w) hc 0
  rw [hl]
  refine ⟨⟨writeAll w.alloc (response c' 0), ?_⟩, fun i q hq => ?_, ?_, ?_, ?_⟩
  · simp [respond, hid]
  · rcases List.mem_append.mp hq with hq | hq
    · exact absurd hq (h2 i q)
    · simp only [respond, List.mem_cons, Effect.sendPacket.injEq, if_true, reduceCtorEq,
        List.not_mem_nil, or_false] at hq
      rw [hq.2, hst]
  · intro k v hm
    rcases List.mem_append.mp hm with hm | hm
    · exact h3 k v hm
    · simp [respond] at hm
  · intro hm
    rcases List.mem_append.mp hm with hm | hm
    · exact h4 hm
    · simp [respond] at hm
  · simp [respond, hid]

/-- With a row it is not, whatever the key. -/
lemma login_granted {r : Row} (hr : w.db (int64 (readRequest c p).1.accountNo) = .row r) :
    Effect.disconnect c.sessionID ∉ (login w c p).2.2 := by
  rw [login]
  dsimp only
  rw [lookUp, hr]
  dsimp only
  rw [if_neg (by decide)]
  split_ifs
  · simp
  · simp [respond]

/-- A successful login stores the key of the request, whatever the row says of it. -/
lemma login_stores {r : Row} (hr : w.db (int64 (readRequest c p).1.accountNo) = .row r)
    (hn : (decimal (int64 (readRequest c p).1.accountNo)).length ≤ 9)
    (hc : Sized (readRequest c p).1) :
    Effect.redisSet (decimal (int64 (readRequest c p).1.accountNo))
      (cString (readRequest c p).1.sessionKey) ∈ (login w c p).2.2 ∧
    Effect.loginSuccess ∈ (login w c p).2.2 ∧
    ∃ q, Effect.sendPacket c.sessionID q ∈ (login w c p).2.2 ∧ status q = 1 := by
  obtain ⟨c', hc'⟩ : ∃ c', (readRequest c p).1 = c' := ⟨_, rfl⟩
  have hid : c'.sessionID = c.sessionID := by
    rw [← hc']
    rfl
  rw [hc'] at hc hr hn ⊢
  have hsz := lookUp_sized (w := w) hc
  have hl : (login w c p).2.2 = [Effect.query (int64 c'.accountNo), .storeResult, .freeResult] ++
      .redisSet (decimal (int64 c'.accountNo)) (cString c'.sessionKey) ::
        respond w (lookUp w c').1 1 := by
    rw [login]
    dsimp only
    rw [hc', lookUp, hr]
    dsimp only
    rw [if_neg (by decide), if_neg (by omega)]
  have hid' : (lookUp w c').1.sessionID = c.sessionID := by
    rw [lookUp, hr]
    exact hid
  rw [hl]
  refine ⟨by simp, by simp [respond], _, ?_, status_response (w := w) hsz 1⟩
  simp [respond, hid']

/-- **Who is let in.** A request is treated as its key deserves exactly if there is no row for its
account with another key. -/
theorem login_denies_iff (h : Request p accountNo sessionKey) (hc : Sized c) (hs : stack.length = 2) :
    (¬ Matches w accountNo sessionKey → Denied c (jobHandler w stack c p).2.2) ↔
      ¬ ∃ r, w.db (int64 accountNo) = .row r ∧ r.sessionkey ≠ sessionKey := by
  obtain ⟨q, h1, h2⟩ := jobHandler_eq (w := w) h hc hs
  rw [h1]
  constructor
  · rintro hd ⟨r, hr, hne⟩
    have hno : ¬ Matches w accountNo sessionKey := by
      rintro ⟨r', hr', he⟩
      rw [hr, Answer.row.injEq] at hr'
      exact hne (hr' ▸ he)
    exact login_granted (by rw [h2]; exact hr) (hd hno).disconnected
  · intro hno hm
    refine login_denied ?_ fun r hr => ?_
    · rw [h2]
      exact ⟨h.account, by rw [List.length_append, h.key]; rfl, hc.names⟩
    · rw [h2] at hr
      by_cases he : r.sessionkey = sessionKey
      · exact hm ⟨r, hr, he⟩
      · exact hno ⟨r, hr, he⟩

/-! ### Two requests -/

/-- A database with one account, number 7, whose key is sixty-four ones. -/
def oneAccount : World where
  db n := if n = 7 then .row ⟨[97], [98], List.replicate 64 1⟩ else .empty
  widen s old := (overlay old ((s ++ [0]).flatMap fun b => [b, 0])).take old.length
  alloc := blank
  widen_length s old := by
    rw [overlay, List.length_take, List.length_append, List.length_drop]
    omega
  alloc_fresh := blank_fresh

def newcomer : Character :=
  ⟨65536, List.replicate 8 255, List.replicate 65 0, List.replicate 40 0, List.replicate 40 0⟩

lemma newcomer_sized : Sized newcomer := ⟨rfl, rfl, rfl, rfl⟩

def account (n : UInt8) : List UInt8 := n :: List.replicate 7 0

/-- The packet of a request for account `n` with a key of one byte, repeated. -/
def request (n k : UInt8) : Packet := (blank.setData ([101, 0] ++ account n ++ List.replicate 64 k)).2

lemma request_complete (n k : UInt8) : Request (request n k) (account n) (List.replicate 64 k) := by
  have hd : blank.writePos + ([101, 0] ++ account n ++ List.replicate 64 k).length = 79 := by
    simp [account, blank, construct, headerSize]
  obtain ⟨h1, h2, -, h4⟩ := setData_held blank_fresh.length (le_refl _) (by rw [hd]; decide)
  refine ⟨h2, ?_, rfl, List.length_replicate, [], ?_⟩
  · rw [request, h4, hd]
    decide
  · rw [request, h1, List.append_nil]
    rfl

/-- A request for an account that does not exist is turned down. -/
theorem login_denies_stranger :
    Denied newcomer (jobHandler oneAccount [0, 0] newcomer (request 8 1)).2.2 :=
  (login_denies_iff (request_complete 8 1) newcomer_sized rfl).mpr
    (fun h => by
      obtain ⟨r, hr, -⟩ := h
      exact Answer.noConfusion hr)
    (fun h => by
      obtain ⟨r, hr, -⟩ := h
      exact Answer.noConfusion hr)

/-- A request for account 7 with a wrong key is let in: status 1, and the wrong key is stored. -/
theorem login_wrong_key : ¬ Matches oneAccount (account 7) (List.replicate 64 2) ∧
    ¬ Denied newcomer (jobHandler oneAccount [0, 0] newcomer (request 7 2)).2.2 ∧
    Effect.redisSet [55] (List.replicate 64 2) ∈
      (jobHandler oneAccount [0, 0] newcomer (request 7 2)).2.2 ∧
    ∃ q, Effect.sendPacket 65536 q ∈ (jobHandler oneAccount [0, 0] newcomer (request 7 2)).2.2 ∧
      status q = 1 := by
  have hreq := request_complete 7 2
  have htwo : ([0, 0] : List UInt8).length = 2 := rfl
  obtain ⟨q, h1, h2⟩ := jobHandler_eq (w := oneAccount) hreq newcomer_sized htwo
  have hdb : oneAccount.db (int64 (readRequest newcomer q).1.accountNo) =
      .row ⟨[97], [98], List.replicate 64 1⟩ := by
    rw [h2]
    rfl
  have hsz : Sized (readRequest newcomer q).1 := by
    rw [h2]
    exact ⟨rfl, rfl, rfl, rfl⟩
  obtain ⟨h3, -, h4⟩ := login_stores (w := oneAccount) hdb (by rw [h2]; decide) hsz
  rw [h1]
  refine ⟨?_, fun hd => login_granted hdb hd.disconnected, ?_, h4⟩
  · rintro ⟨r, hr, he⟩
    have hr' : Answer.row ⟨[97], [98], List.replicate 64 1⟩ = .row r := hr
    rw [Answer.row.injEq] at hr'
    rw [← hr'] at he
    exact absurd he (by decide)
  · rw [h2] at h3
    exact h3

end LoginServerChat.Login
