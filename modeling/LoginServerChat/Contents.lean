import LoginServerChat.OwnCalls

/-!
The contents side of the server: what `LoginServer` does in the callbacks of the session layer.

A thread in a callback runs its code here, step by step, and returns to the session layer when
that code is done. What `charMapLock` guards is one step; the iterator that `FindCharacter`
has found is read after the lock is given back. `SendPacket` and `Disconnect` are called from
`OnRecv` only, with the id that the `Character` carries.

The log of the callbacks is kept beside the state and no step reads it.
-/

namespace LoginServerChat.Contents

open NetPacket NetState NetStep SlotStep Runs

/-- The callbacks that have a session: `OnClientJoin`, `OnRecv` and `OnClientLeave`. -/
inductive Kind | join | recv | leave
  deriving DecidableEq

/-- The call of a callback, or its return. -/
structure Event where
  id : SessionID
  kind : Kind
  start : Bool
  deriving DecidableEq

/-- The points of the callbacks. -/
inductive CbPc
  | out
  -- `OnClientJoin`
  | alloc (id : SessionID)
  | insert (id : SessionID) (p : ℕ)
  -- `OnRecv`
  | find (id : SessionID)
  | deref (id : SessionID) (p : ℕ)
  | missing (id : SessionID)
  | handle (id : SessionID) (p : ℕ)
  -- `OnClientLeave`
  | erase (id : SessionID)
  | done
  deriving DecidableEq

/-- The points at which a callback returns. -/
def CbPc.returns : CbPc → Bool
  | .missing _ | .handle _ _ | .done => true
  | _ => false

structure State (τ : Type*) where
  net : Config τ
  characterMap : List (SessionID × ℕ)
  /-- `_sessionID` of a `Character`. -/
  sid : ℕ → SessionID
  /-- What `poolManager` has handed out. -/
  held : List ℕ
  pc : τ → CbPc
  log : List Event

/-- `characterMap.insert`, which leaves an entry that is there. -/
def insertMap (M : List (SessionID × ℕ)) (id : SessionID) (p : ℕ) : List (SessionID × ℕ) :=
  if (M.lookup id).isNone then (id, p) :: M else M

/-- `characterMap.erase`. -/
def eraseMap (M : List (SessionID × ℕ)) (id : SessionID) : List (SessionID × ℕ) :=
  M.filter fun x => x.1 ≠ id

/-- The callback that a point of the session layer is in, and its slot. -/
def callback : Pc → Option (Kind × ℕ)
  | .accOn i (.joining _) => some (.join, i)
  | .work i (.recv (.onRecv _)) => some (.recv, i)
  | .rel i .leaving _ => some (.leave, i)
  | _ => none

/-- The first point of a callback. -/
def entry (id : SessionID) : Kind → CbPc
  | .join => .alloc id
  | .recv => .find id
  | .leave => .erase id

variable {τ : Type*} [DecidableEq τ]

def goto (s : State τ) (t : τ) (p : CbPc) : State τ := { s with pc := Function.update s.pc t p }

/-- A step of the code of a callback; `q` is what `poolManager.Alloc` finds. -/
def codeStep (s : State τ) (t : τ) (q : ℕ) : Option (State τ) :=
  if (s.net.loc t).api ≠ .idle then none
  else match s.pc t with
    | .alloc id =>
      if q ∈ s.held then none
      else some (goto { s with held := q :: s.held, sid := Function.update s.sid q id } t (.insert id q))
    | .insert id p => some (goto { s with characterMap := insertMap s.characterMap id p } t .done)
    | .find id =>
      match s.characterMap.lookup id with
      | some p => some (goto s t (.deref id p))
      | none => some (goto s t (.missing id))
    | .deref id p => some (goto s t (.handle id p))
    | .erase id =>
      match s.characterMap.lookup id with
      | some p => some (goto { s with held := s.held.erase p
                                      characterMap := eraseMap s.characterMap id } t .done)
      | none => some (goto s t .done)
    | .out | .missing _ | .handle _ _ | .done => none

/-- What the contents code of a thread lets the session layer do: a callback returns when its
code is done, and calls are for the id of the `Character` in hand. -/
def admits (s : State τ) (t : τ) : Choice → Bool
  | .ret => CbPc.returns (s.pc t)
  | .sendPacket id _ =>
    match s.pc t with
    | .handle _ p => id = s.sid p
    | _ => false
  | .disconnect id =>
    match s.pc t with
    | .handle _ p => id = s.sid p
    | .missing id' => id = id'
    | _ => false
  | _ => true

/-- A thread that has come to a callback calls it, one that has left it has returned. -/
def observe (s : State τ) (t : τ) (n : Config τ) : State τ :=
  match callback (s.net.loc t).pc, callback (n.loc t).pc with
  | none, some (x, i) =>
    let id := (s.net.mem.sess i).sessionID
    { goto s t (entry id x) with net := n, log := s.log ++ [⟨id, x, true⟩] }
  | some (x, i), none =>
    { goto s t .out with net := n, log := s.log ++ [⟨(s.net.mem.sess i).sessionID, x, false⟩] }
  | _, _ => { s with net := n }

inductive Move (τ : Type*)
  | net (x : Act τ)
  | code (t : τ) (q : ℕ)

def cstep (s : State τ) : Move τ → Option (State τ)
  | .net (.run t ch) =>
    if admits s t ch then (step s.net (.run t ch)).map (observe s t) else none
  | .net x => (step s.net x).map fun n => { s with net := n }
  | .code t q => codeStep s t q

/-- The contents when the session layer starts, with the entries and the `Character`s that are
there already. -/
def start (n : Config τ) (M : List (SessionID × ℕ)) (sid : ℕ → SessionID) (held : List ℕ) :
    State τ :=
  ⟨n, M, sid, held, fun _ => .out, []⟩

end LoginServerChat.Contents
