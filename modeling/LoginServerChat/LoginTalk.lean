import LoginServerChat.LoginProgram

/-!
What `JobHandler` says to a session, as a function of the requests it is called with, and what is left to
say from each point of its code on.
-/

namespace LoginServerChat.LoginProgram

open NetPacket Packet Cipher Login

/-- What is sent, as it is before `Encode`, in calls for the session that is handled. -/
def answers (es : List Effect) : List (List UInt8) := (responses es).map Prod.snd

/-- What a session is told, by its requests. -/
def talk (c : Character) : List Turn → List (List UInt8)
  | [] => []
  | t :: ts => answers (jobHandler t.world t.stack c t.packet).2.2 ++ talk (serve c t) ts

lemma talk_snoc (c : Character) (ts : List Turn) (t : Turn) : talk c (ts ++ [t]) =
    talk c ts ++ answers (jobHandler t.world t.stack (ts.foldl serve c) t.packet).2.2 := by
  induction ts generalizing c with
  | nil => simp [talk]
  | cons u ts ih => rw [List.cons_append, talk, talk, ih, List.append_assoc, List.foldl_cons]

lemma foldl_serve_sized {c : Character} (hc : Sized c) (ts : List Turn) : Sized (ts.foldl serve c) := by
  induction ts generalizing c with
  | nil => exact hc
  | cons t ts ih => exact ih (jobHandler_sized hc)

/-- The key that `Login` reads. -/
def readKey (c : Character) (p : Packet) : Character :=
  { c with sessionKey := (overlay c.sessionKey (p.getData 64).1).take 64 ++ [0] }

lemma readRequest_eq (c : Character) (p : Packet) : (readRequest c p).1 =
    readKey { c with accountNo := overlay c.accountNo (p.getData 8).1 } (p.getData 8).2 := rfl

/-- `Login` from its query on: what it sends for the account that has been read. -/
def answer (w : World) (c : Character) : List (List UInt8) :=
  match w.db (int64 c.accountNo) with
  | .row _ => if 10 < (decimal (int64 c.accountNo)).length + 1 then []
      else [(response (lookUp w c).1 1).flatten]
  | _ => [(response c 0).flatten]

variable {w : World} {c : Character} {p : Packet}

lemma answers_append {es es' : List Effect} (h : ∀ i p, Effect.sendPacket i p ∉ es) :
    answers (es ++ es') = answers es' := by
  rw [answers, answers, responses_append h]

lemma answers_respond (hc : Sized c) (isSuccess : UInt8) :
    answers (respond w c isSuccess) = [(response c isSuccess).flatten] := by
  rw [answers, responses_respond hc]
  simp [message, response]

/-- A query without a row is answered with status 0. -/
lemma answers_denied (hc : Sized c) (p : Packet) (h : ∀ r, w.db (accountRead c p) ≠ .row r) :
    answers (login w c p).2.2 = [(response (readRequest c p).1 0).flatten] := by
  have hr := readRequest_sized hc p
  have hq : ∃ es, lookUp w (readRequest c p).1 = ((readRequest c p).1, 0, es) ∧
      ∀ i q, Effect.sendPacket i q ∉ es := by
    rw [lookUp, ← accountRead]
    cases hdb : w.db (accountRead c p) with
    | failed => exact ⟨_, rfl, by simp⟩
    | empty => exact ⟨_, rfl, by simp⟩
    | row r => exact absurd hdb (h r)
  obtain ⟨es, h1, h2⟩ := hq
  have hl : (login w c p).2.2 = es ++ respond w (readRequest c p).1 0 := by
    rw [login]
    dsimp only
    rw [h1, if_pos rfl]
  rw [hl, answers_append h2, answers_respond hr]

lemma answers_login (hc : Sized c) (p : Packet) :
    answers (login w c p).2.2 = answer w (readRequest c p).1 := by
  rw [answer, ← accountRead]
  cases hdb : w.db (accountRead c p) with
  | failed => exact answers_denied hc p fun r hr => by cases hdb.symm.trans hr
  | empty => exact answers_denied hc p fun r hr => by cases hdb.symm.trans hr
  | row r =>
    rw [login_row hdb]
    dsimp only
    split_ifs
    · rfl
    · rw [List.append_cons _ _ (respond _ _ _), answers_append (by simp),
        answers_respond (lookUp_sized (readRequest_sized hc p))]

/-- `JobHandler`, as it goes on once it has the type. -/
lemma jobHandler_type (w : World) (stack : List UInt8) (c : Character) (p : Packet) : jobHandler w stack c p =
    if isLogin (overlay stack (p.getData 2).1) then login w c (p.getData 2).2 else (c, (p.getData 2).2, []) :=
  rfl

lemma answers_jobHandler (hc : Sized c) (stack : List UInt8) (p : Packet) :
    answers (jobHandler w stack c p).2.2 = if isLogin (overlay stack (p.getData 2).1)
      then answer w (readRequest c (p.getData 2).2).1 else [] := by
  rw [jobHandler_type]
  by_cases ht : isLogin (overlay stack (p.getData 2).1)
  · rw [if_pos ht, if_pos ht, answers_login hc]
  · rw [if_neg ht, if_neg ht]
    rfl

lemma serve_eq (c : Character) (t : Turn) : serve c t = if isLogin (overlay t.stack (t.packet.getData 2).1)
    then (lookUp t.world (readRequest c (t.packet.getData 2).2).1).1 else c := by
  rw [serve, jobHandler_type]
  by_cases ht : isLogin (overlay t.stack (t.packet.getData 2).1)
  · rw [if_pos ht, if_pos ht, login_fst]
  · rw [if_neg ht, if_neg ht]

lemma length_response (hc : Sized c) (isSuccess : UInt8) : (response c isSuccess).flatten.length = 159 := by
  simp [response, resLogin, wide, localhost, gameServerPort, chatServerPort, hc.account, hc.names]

end LoginServerChat.LoginProgram
