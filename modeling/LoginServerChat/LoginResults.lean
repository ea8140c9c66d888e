import LoginServerChat.Login

/-!
The result sets of a worker's `DBConnector`, over any sequence of requests. The connector keeps one
pointer, which the next query overwrites.
-/

namespace LoginServerChat.LoginResults

open NetPacket Login

/-- A connector, and what has become of the result sets that it was given. They are numbered in the
order in which `mysql_store_result` returned them. -/
structure DBConnector where
  sqlResult : Option ℕ
  stored : ℕ
  freed : List ℕ
  /-- Those that were still allocated when `_sql_result` was overwritten. -/
  lost : List ℕ

namespace DBConnector

def construct : DBConnector := ⟨none, 0, [], []⟩

def storeResult (conn : DBConnector) : DBConnector :=
  { conn with
    sqlResult := some conn.stored
    stored := conn.stored + 1
    lost := (conn.sqlResult.toList.filter (· ∉ conn.freed)) ++ conn.lost }

/-- `mysql_query`, and `mysql_store_result` if it succeeds. -/
def reqQuery (conn : DBConnector) : Answer → Bool × DBConnector
  | .failed => (false, conn)
  | .empty | .row _ => (true, conn.storeResult)

/-- The row that `mysql_fetch_row` gives for the result set. -/
def fetchRow : Answer → Option Row
  | .row r => some r
  | .failed | .empty => none

/-- `mysql_free_result`, which does nothing for a null pointer. The pointer stays. -/
def freeQueryResult (conn : DBConnector) : DBConnector :=
  { conn with freed := conn.sqlResult.toList ++ conn.freed }

end DBConnector

open DBConnector

/-- The `do .. while (0)` of `Login`, as it uses the connector: the connector and `isSuccess`. -/
def queryBlock (conn : DBConnector) (a : Answer) : DBConnector × UInt8 :=
  let q := conn.reqQuery a
  if q.1 = false then (q.2, 0)
  else
    match fetchRow a with
    | none => (q.2, 0)
    | some _ => (q.2.freeQueryResult, 1)

/-- What an effect of `Login` does to the connector. -/
def act (conn : DBConnector) : Effect → DBConnector
  | .storeResult => conn.storeResult
  | .freeResult => conn.freeQueryResult
  | _ => conn

/-- A call of `Login`, with what the world answers while it runs. -/
structure Request where
  world : World
  character : Character
  packet : Packet

/-- What the database answers to the query of a request. -/
def Request.answer (x : Request) : Answer :=
  x.world.db (int64 (readRequest x.character x.packet).1.accountNo)

def serve (conn : DBConnector) (x : Request) : DBConnector :=
  (login x.world x.character x.packet).2.2.foldl act conn

/-- Every result set has been freed, and just once; none was lost. -/
structure Clean (conn : DBConnector) : Prop where
  once : ∀ h < conn.stored, conn.freed.count h = 1
  kept : conn.lost = []

variable {conn : DBConnector} {x : Request}

lemma act_other {e : Effect} (h1 : e ≠ .storeResult) (h2 : e ≠ .freeResult) : act conn e = conn := by
  cases e <;> first | rfl | contradiction

lemma foldl_act_other {es : List Effect} (h : ∀ e ∈ es, e ≠ .storeResult ∧ e ≠ .freeResult) :
    es.foldl act conn = conn := by
  induction es with
  | nil => rfl
  | cons e es ih =>
    obtain ⟨h1, h2⟩ := h e List.mem_cons_self
    rw [List.foldl_cons, act_other h1 h2, ih fun e' he => h e' (List.mem_cons_of_mem _ he)]

/-- The effects of the database block are the calls that it makes on the connector. -/
lemma foldl_lookUp (w : World) (c : Character) :
    (lookUp w c).2.2.foldl act conn = (queryBlock conn (w.db (int64 c.accountNo))).1 := by
  unfold lookUp
  cases w.db (int64 c.accountNo) with
  | failed => rfl
  | empty => rfl
  | row r => rfl

/-- **One request.** Nothing behind the database block touches the connector. -/
lemma serve_eq : serve conn x = (queryBlock conn x.answer).1 := by
  have hend : ∀ c s, ∀ e ∈ respond x.world c s, e ≠ .storeResult ∧ e ≠ .freeResult := by
    intro c s e he
    simp only [respond, List.mem_cons, List.not_mem_nil, or_false] at he
    rcases he with rfl | rfl
    · exact ⟨Effect.noConfusion, Effect.noConfusion⟩
    · split <;> exact ⟨Effect.noConfusion, Effect.noConfusion⟩
  unfold serve login
  dsimp only
  rw [Request.answer, ← foldl_lookUp]
  split_ifs
  · rw [List.foldl_append, foldl_act_other (hend _ _)]
  · rw [List.foldl_append]
    rfl
  · rw [List.foldl_append, List.foldl_cons, act_other Effect.noConfusion Effect.noConfusion,
      foldl_act_other (hend _ _)]

/-- The result sets freed so far were stored before. -/
def Freed (conn : DBConnector) : Prop := ∀ h ∈ conn.freed, h < conn.stored

/-- Only the result set that the pointer leads to can still be allocated. -/
lemma lost_of_clean (h : Clean conn) (hp : ∀ i, conn.sqlResult = some i → i < conn.stored) :
    conn.storeResult.lost = [] := by
  have hnil : conn.sqlResult.toList.filter (· ∉ conn.freed) = [] := by
    rw [List.filter_eq_nil_iff]
    intro i hi
    have hi' := h.once i (hp i (Option.mem_toList.mp hi))
    simp only [decide_eq_true_eq, not_not]
    exact List.count_pos_iff.mp (by omega)
  rw [storeResult, hnil, h.kept, List.append_nil]

/-- The connector between two requests. -/
structure Valid (conn : DBConnector) : Prop where
  freed : Freed conn
  pointer : ∀ i, conn.sqlResult = some i → i < conn.stored

lemma construct_valid : Valid construct := ⟨fun _ h => absurd h List.not_mem_nil, fun _ h => nomatch h⟩

lemma construct_clean : Clean construct := ⟨fun _ h => absurd h (Nat.not_lt_zero _), rfl⟩

lemma valid_storeResult (h : Valid conn) : Valid conn.storeResult := by
  refine ⟨fun i hi => Nat.lt_succ_of_lt (h.freed i hi), fun i hi => ?_⟩
  obtain rfl := Option.some.inj hi
  exact Nat.lt_succ_self _

lemma valid_free (h : Valid conn) : Valid conn.freeQueryResult := by
  refine ⟨fun i hi => ?_, h.pointer⟩
  rcases List.mem_append.mp hi with hi | hi
  · exact h.pointer i (Option.mem_toList.mp hi)
  · exact h.freed i hi

lemma serve_valid (h : Valid conn) : Valid (serve conn x) := by
  rw [serve_eq]
  unfold queryBlock
  cases x.answer with
  | failed => exact h
  | empty => exact valid_storeResult h
  | row r => exact valid_free (valid_storeResult h)

/-- A request that finds a row, or whose query fails, leaves nothing behind. -/
lemma serve_clean (hv : Valid conn) (h : Clean conn) (hx : x.answer ≠ .empty) :
    Clean (serve conn x) := by
  rw [serve_eq]
  unfold queryBlock
  cases ha : x.answer with
  | failed => exact h
  | empty => exact absurd ha hx
  | row r =>
    refine ⟨fun i hi => ?_, lost_of_clean h hv.pointer⟩
    have hfreed : (conn.storeResult.freeQueryResult).freed = conn.stored :: conn.freed := rfl
    change ((conn.storeResult.freeQueryResult).freed).count i = 1
    rw [hfreed]
    rcases Nat.lt_succ_iff_lt_or_eq.mp hi with hlt | rfl
    · rw [List.count_cons_of_ne (by omega), h.once i hlt]
    · have hnot : conn.stored ∉ conn.freed := fun hm => absurd (hv.freed _ hm) (lt_irrefl _)
      rw [List.count_cons_self, List.count_eq_zero_of_not_mem hnot]

/-- A request without a row stores a result set and does not free it. -/
lemma serve_leaks (hv : Valid conn) (hx : x.answer = .empty) : ¬ Clean (serve conn x) := by
  rw [serve_eq, hx]
  intro h
  have hone : conn.freed.count conn.stored = 1 := h.once conn.stored (Nat.lt_succ_self _)
  have hnot : conn.stored ∉ conn.freed := fun hm => absurd (hv.freed _ hm) (lt_irrefl _)
  rw [List.count_eq_zero_of_not_mem hnot] at hone
  exact absurd hone (by decide)

lemma run_valid (xs : List Request) : Valid (xs.foldl serve construct) := by
  induction xs using List.reverseRecOn with
  | nil => exact construct_valid
  | append_singleton xs x ih =>
    rw [List.foldl_append]
    exact serve_valid ih

/-- **Result sets.** After every request all result sets have been freed just once, and none was
lost, exactly if no query found the account without a row. -/
theorem results_freed_iff (xs : List Request) :
    (∀ ys, ys <+: xs → Clean (ys.foldl serve construct)) ↔ ∀ x ∈ xs, x.answer ≠ .empty := by
  constructor
  · intro h x hx he
    obtain ⟨ys, zs, rfl⟩ := List.append_of_mem hx
    have hclean := h (ys ++ [x]) ⟨zs, by rw [List.append_assoc]; rfl⟩
    rw [List.foldl_append] at hclean
    exact serve_leaks (run_valid ys) he hclean
  · intro h ys hys
    induction ys using List.reverseRecOn with
    | nil => exact construct_clean
    | append_singleton ys y ih =>
      have hy : y ∈ xs := hys.subset (List.mem_append_right _ List.mem_cons_self)
      rw [List.foldl_append]
      exact serve_clean (run_valid ys) (ih ((List.prefix_append ys [y]).trans hys)) (h y hy)

/-- A request for an account that the database does not have, behind its type. -/
def stranger : Request := ⟨oneAccount, newcomer, ((request 8 1).getData 2).2⟩

lemma oneAccount_other {n : ℤ} (h : n ≠ 7) : oneAccount.db n = .empty := if_neg h

lemma stranger_answer : stranger.answer = .empty := by
  unfold Request.answer
  apply oneAccount_other
  decide +kernel

/-- Two such requests: nothing is freed, and the second query overwrites the result set of the
first. -/
theorem results_leak :
    ¬ (∀ ys, ys <+: [stranger, stranger] → Clean (ys.foldl serve construct)) ∧
      ([stranger, stranger].foldl serve construct).freed = [] ∧
      ([stranger, stranger].foldl serve construct).lost = [0] := by
  have h1 : ∀ conn, serve conn stranger = conn.storeResult := by
    intro conn
    rw [serve_eq, stranger_answer]
    rfl
  refine ⟨fun h => ?_, ?_, ?_⟩
  · have hone := h [stranger] ⟨[stranger], rfl⟩
    rw [List.foldl_cons, List.foldl_nil] at hone
    exact serve_leaks construct_valid stranger_answer hone
  · rw [List.foldl_cons, List.foldl_cons, List.foldl_nil, h1, h1]
    rfl
  · rw [List.foldl_cons, List.foldl_cons, List.foldl_nil, h1, h1]
    rfl

end LoginServerChat.LoginResults
