import LoginServerChat.Login

/-!
The account number as text, in `strAccountNo` and as the key that Redis is given.
-/

namespace LoginServerChat.Login

open NetPacket Packet Cipher

/-! ### Decimal text -/

/-- The number that a row of decimal digits spells. -/
def magnitude (s : List UInt8) : ℕ := Nat.ofDigits 10 (s.reverse.map fun b => b.toNat - 48)

/-- The number that a text spells, with a minus sign or without. -/
def number : List UInt8 → ℤ
  | [] => 0
  | b :: s => if b = 45 then -(magnitude s : ℤ) else magnitude (b :: s)

/-- The digits of a number, the highest first; zero has one as well. -/
def digits (n : ℕ) : List UInt8 :=
  if n = 0 then [48] else (Nat.digits 10 n).reverse.map fun d => UInt8.ofNat (48 + d)

lemma decimal_eq (n : ℤ) : decimal n = (if n < 0 then [45] else []) ++ digits n.natAbs := by
  rw [decimal, digits]
  simp only [Int.natAbs_eq_zero]

lemma digit_toNat {d : ℕ} (h : d < 10) : (UInt8.ofNat (48 + d)).toNat = 48 + d := by
  rw [UInt8.toNat_ofNat']
  omega

lemma magnitude_digits (n : ℕ) : magnitude (digits n) = n := by
  unfold digits
  split_ifs with h
  · rw [h]
    rfl
  · have hd : ∀ d ∈ Nat.digits 10 n, ((fun b : UInt8 => b.toNat - 48) ∘ fun d => UInt8.ofNat (48 + d)) d = d := by
      intro d hd
      rw [Function.comp_apply, digit_toNat (Nat.digits_lt_base (by norm_num) hd)]
      omega
    rw [magnitude, ← List.map_reverse, List.reverse_reverse, List.map_map, List.map_congr_left hd,
      List.map_id', Nat.ofDigits_digits]

lemma digits_ne_minus (n : ℕ) : ∀ b ∈ digits n, b ≠ 45 := by
  intro b hb h
  unfold digits at hb
  split_ifs at hb with hn
  · rw [List.mem_singleton] at hb
    rw [hb] at h
    exact absurd h (by decide)
  · obtain ⟨d, hd, rfl⟩ := List.mem_map.mp hb
    have := digit_toNat (Nat.digits_lt_base (by norm_num) (List.mem_reverse.mp hd))
    rw [h] at this
    have h45 : (45 : UInt8).toNat = 45 := rfl
    omega

lemma digits_length_pos (n : ℕ) : 0 < (digits n).length := by
  unfold digits
  split_ifs with h
  · decide
  · rw [List.length_map, List.length_reverse]
    exact List.length_pos_iff.mpr (Nat.digits_ne_nil_iff_ne_zero.mpr h)

/-- The text gives the number back. -/
lemma number_decimal (n : ℤ) : number (decimal n) = n := by
  have hm := magnitude_digits n.natAbs
  have hne := digits_ne_minus n.natAbs
  have hpos := digits_length_pos n.natAbs
  rw [decimal_eq]
  by_cases hn : n < 0
  · rw [if_pos hn, List.singleton_append, number, if_pos rfl, hm]
    omega
  · rw [if_neg hn, List.nil_append]
    match hd : digits n.natAbs with
    | [] =>
      rw [hd] at hpos
      exact absurd hpos (lt_irrefl 0)
    | b :: s =>
      rw [hd] at hne hm
      rw [number, if_neg (hne b (List.mem_cons_self ..)), hm]
      omega

lemma decimal_inj {m n : ℤ} (h : decimal m = decimal n) : m = n := by
  rw [← number_decimal m, ← number_decimal n, h]

lemma digits_length_le {k : ℕ} (hk : 0 < k) (n : ℕ) : (digits n).length ≤ k ↔ n < 10 ^ k := by
  unfold digits
  split_ifs with h
  · rw [h]
    exact ⟨fun _ => Nat.pow_pos (by norm_num), fun _ => hk⟩
  · rw [List.length_map, List.length_reverse, Nat.digits_length_le_iff (by norm_num)]

/-- The sign takes one of the nine places. -/
lemma decimal_length_le (n : ℤ) : (decimal n).length ≤ 9 ↔ -99999999 ≤ n ∧ n ≤ 999999999 := by
  rw [decimal_eq]
  by_cases hn : n < 0
  · have := digits_length_le (k := 8) (by norm_num) n.natAbs
    rw [if_pos hn, List.length_append, List.length_singleton]
    omega
  · have := digits_length_le (k := 9) (by norm_num) n.natAbs
    rw [if_neg hn, List.nil_append]
    omega

/-! ### The key -/

/-- `sprintf_s` fits its buffer, and `Login` goes on to store under the text of the number. -/
structure Stores (n : ℤ) (es : List Effect) : Prop where
  fits : (decimal n).length + 1 ≤ 10
  no_crash : Effect.crash ∉ es
  stored : ∃ v, Effect.redisSet (decimal n) v ∈ es

variable {w w' : World} {c c' : Character} {p p' : Packet}

/-- The number that `Login` reads from the packet. -/
def accountRead (c : Character) (p : Packet) : ℤ := int64 (readRequest c p).1.accountNo

/-- What `Login` does once the database has a row. -/
lemma login_row {r : Row} (hr : w.db (accountRead c p) = .row r) :
    (login w c p).2.2 = [.query (accountRead c p), .storeResult, .freeResult] ++
      if 10 < (decimal (accountRead c p)).length + 1 then [.crash]
      else .redisSet (decimal (accountRead c p)) (cString (readRequest c p).1.sessionKey) ::
        respond w (lookUp w (readRequest c p).1).1 1 := by
  have hq : lookUp w (readRequest c p).1 = ((lookUp w (readRequest c p).1).1, 1,
      [.query (accountRead c p), .storeResult, .freeResult]) := by
    rw [lookUp, ← accountRead, hr]
  have ha : (lookUp w (readRequest c p).1).1.accountNo = (readRequest c p).1.accountNo := by
    rw [lookUp, ← accountRead, hr]
  have hk : (lookUp w (readRequest c p).1).1.sessionKey = (readRequest c p).1.sessionKey := by
    rw [lookUp, ← accountRead, hr]
  rw [login]
  dsimp only
  rw [ha, hk, ← accountRead, hq]
  dsimp only
  rw [if_neg (by decide)]
  split_ifs
  · rfl
  · rfl

/-- Every key written is the text of the number read, whatever else happens. -/
lemma redisSet_key {k v : List UInt8} (h : Effect.redisSet k v ∈ (login w c p).2.2) :
    k = decimal (accountRead c p) := by
  match hdb : w.db (accountRead c p) with
  | .row r =>
    rw [login_row hdb] at h
    split_ifs at h
    · simp at h
    · simp only [respond, List.cons_append, List.nil_append, List.mem_cons, reduceCtorEq,
        Effect.redisSet.injEq, List.not_mem_nil, false_or, or_false, if_neg (show (1 : UInt8) ≠ 0 by decide)] at h
      exact h.1
  | .failed =>
    rw [login, lookUp, ← accountRead, hdb] at h
    simp [respond] at h
  | .empty =>
    rw [login, lookUp, ← accountRead, hdb] at h
    simp [respond] at h

/-- **Which numbers are stored.** With a row in the database the login reaches Redis exactly for the
numbers whose text has nine characters at most, and no other number is ever stored under its key. -/
theorem stores_iff {r : Row} (hr : w.db (accountRead c p) = .row r) :
    (Stores (accountRead c p) (login w c p).2.2 ↔
      -99999999 ≤ accountRead c p ∧ accountRead c p ≤ 999999999) ∧
    ∀ w' c' p' k v v', Effect.redisSet k v ∈ (login w c p).2.2 →
      Effect.redisSet k v' ∈ (login w' c' p').2.2 → accountRead c' p' = accountRead c p := by
  refine ⟨?_, fun w' c' p' k v v' h h' => ?_⟩
  · rw [← decimal_length_le]
    constructor
    · intro h
      have := h.fits
      omega
    · intro h
      have hl := login_row hr
      rw [if_neg (by omega)] at hl
      rw [hl]
      refine ⟨by omega, ?_, cString (readRequest c p).1.sessionKey, ?_⟩
      · simp [respond]
      · exact List.mem_append_right _ (List.mem_cons_self ..)
  · apply decimal_inj
    rw [← redisSet_key h, ← redisSet_key h']

/-! ### One account number of ten digits -/

def ones : List UInt8 := List.replicate 64 1

/-- A database with a row for every account. -/
def everyAccount : World := { oneAccount with db := fun _ => .row ⟨[97], [98], ones⟩ }

/-- The packet of a request with the given bytes for its account and its key. -/
def requestFor (accountNo sessionKey : List UInt8) : Packet :=
  (blank.setData ([101, 0] ++ accountNo ++ sessionKey)).2

lemma requestFor_complete (accountNo sessionKey : List UInt8) (ha : accountNo.length = 8)
    (hk : sessionKey.length = 64) :
    Request (requestFor accountNo sessionKey) accountNo sessionKey := by
  have hd : blank.writePos + ([101, 0] ++ accountNo ++ sessionKey).length = 79 := by
    rw [List.length_append, List.length_append, ha, hk]
    rfl
  obtain ⟨h1, h2, -, h4⟩ := setData_held blank_fresh.length (le_refl _) (by rw [hd]; decide)
  refine ⟨h2, ?_, ha, hk, [], ?_⟩
  · rw [requestFor, h4, hd]
    decide
  · rw [requestFor, h1, List.append_nil]
    rfl

/-- The bytes of 1000000000. -/
def billion : List UInt8 := [0x00, 0xCA, 0x9A, 0x3B, 0, 0, 0, 0]

lemma accountRead_of {accountNo k stack : List UInt8} (h : Request p accountNo k) (hc : Sized c)
    (hs : stack.length = 2) :
    ∃ q, jobHandler w stack c p = login w c q ∧ accountRead c q = int64 accountNo := by
  obtain ⟨q, h1, h2⟩ := jobHandler_eq (w := w) h hc hs
  refine ⟨q, h1, ?_⟩
  rw [accountRead, h2]

/-- Account 7 is stored. -/
theorem stores_seven : ∃ q, jobHandler everyAccount [0, 0] newcomer (requestFor (account 7) ones) =
    login everyAccount newcomer q ∧ Stores 7 (login everyAccount newcomer q).2.2 := by
  obtain ⟨q, h1, h2⟩ := accountRead_of (w := everyAccount) (requestFor_complete (account 7) ones rfl rfl)
    newcomer_sized (show ([0, 0] : List UInt8).length = 2 from rfl)
  have h7 : accountRead newcomer q = 7 := by
    rw [h2]
    rfl
  refine ⟨q, h1, ?_⟩
  rw [← h7]
  exact (stores_iff (w := everyAccount) (r := ⟨[97], [98], ones⟩) rfl).1.mpr
    (by rw [h7]; decide)

/-- Account 1000000000 has a row, but its text does not fit: the server crashes, and Redis is never
reached. -/
theorem billion_crashes :
    everyAccount.db (int64 billion) = .row ⟨[97], [98], ones⟩ ∧
    int64 billion = 1000000000 ∧
    Effect.crash ∈ (jobHandler everyAccount [0, 0] newcomer (requestFor billion ones)).2.2 ∧
    ∀ k v, Effect.redisSet k v ∉ (jobHandler everyAccount [0, 0] newcomer (requestFor billion ones)).2.2 := by
  obtain ⟨q, h1, h2⟩ := accountRead_of (w := everyAccount) (requestFor_complete billion ones rfl rfl)
    newcomer_sized (show ([0, 0] : List UInt8).length = 2 from rfl)
  have hl := login_row (w := everyAccount) (c := newcomer) (p := q)
    (r := ⟨[97], [98], ones⟩) rfl
  have hn : accountRead newcomer q = 1000000000 := h2
  have hlen : 10 < (decimal 1000000000).length + 1 := by
    have := decimal_length_le 1000000000
    omega
  rw [hn, if_pos hlen] at hl
  refine ⟨rfl, rfl, ?_, fun k v => ?_⟩
  · rw [h1, hl]
    simp
  · rw [h1, hl]
    simp

end LoginServerChat.Login
