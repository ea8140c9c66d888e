import LoginServerChat.LoginRests
import LoginServerChat.LoginLeftovers
import LoginServerChat.SendStream

/-!
`LoginServer` with all of its code: the session layer, the callbacks, and `JobHandler` and `Login` point by
point. Each call of a packet or of the session layer is a step of its own, beside those of the other
threads; what the database answers, and what the variable for the type holds, is given from outside when a
request is taken up.

Beside the program stand the streams of its sessions, and the requests that have been taken up with the
packets they came in. No step reads them.
-/

namespace LoginServerChat.LoginProgram

open NetPacket Packet NetState NetStep SlotStep SlotRun Contents Login StreamOrder Runs
open SendStream (Outgoing noteText)

/-- The points of `JobHandler` and `Login`. -/
inductive JobPc
  | out
  | type
  | account
  | key
  | query
  | redis
  | alloc (isSuccess : UInt8)
  /-- The fields of the response that are still to be written. -/
  | write (r : ℕ) (isSuccess : UInt8) (fields : List (List UInt8))
  | send (r : ℕ) (isSuccess : UInt8)
  | free (r : ℕ) (isSuccess : UInt8)
  | finish (isSuccess : UInt8)
  | done
  /-- In the handler of `sprintf_s`, which ends the process. -/
  | crashed

structure Program (τ : Type*) where
  s : State τ
  /-- The members of the `Character`s. -/
  character : ℕ → Character
  job : τ → JobPc
  /-- The world that the request of a thread finds. -/
  world : τ → World
  streams : ℕ → Stream
  text : ℕ → List UInt8
  out : ℕ → Outgoing
  turns : ℕ → List Turn

variable {τ : Type*} [DecidableEq τ]

namespace Program

def goto (P : Program τ) (t : τ) (j : JobPc) : Program τ := { P with job := Function.update P.job t j }

def store (P : Program τ) (x : ℕ) (c : Character) : Program τ :=
  { P with character := Function.update P.character x c }

def packet (P : Program τ) (p : ℕ) : Packet := P.s.net.mem.packet p

end Program

/-- `OnClientJoin` starts the requests of a session. -/
def noteTurns (T : ℕ → List Turn) : Pc → Pc → ℕ → List Turn
  | .accOn i (.join _), .accOn _ (.joining _) => Function.update T i []
  | _, _ => T

/-- The program, when the session layer goes on to `s` with an action. -/
def follow (P : Program τ) (s : State τ) : Act τ → Program τ
  | .run t ch => { P with
      s := s
      streams := observe P.streams P.s.net s.net (.run t ch)
      text := noteText P.text P.s.net.mem (P.s.net.loc t).api ch
      out := fun k => (P.out k).note P.text P.s.net.mem.packet (lview (P.s.net.loc t) k) (lview (s.net.loc t) k)
      turns := noteTurns P.turns (P.s.net.loc t).pc (s.net.loc t).pc }
  | x => { P with s := s, streams := observe P.streams P.s.net s.net x }

def layer (P : Program τ) (x : Act τ) : Option (Program τ) := (cstep P.s (.net x)).map fun s => follow P s x

/-- What the session layer does by itself. `OnConnectionRequest` returns true, and there are no threads of
the contents. -/
def plain (P : Program τ) : Act τ → Bool
  | .run t ch =>
    match (P.s.net.loc t).pc with
    | .ext => false
    | .acc (.request _) => ch = .ans true
    | .accOn _ (.joining _) | .rel _ .leaving _ => ch = .ret
    | .work _ (.recv (.onRecv _)) => (P.s.net.loc t).api ≠ .idle ∨ (P.s.net.loc t).drop ≠ none
    | _ => true
  | .complete _ _ _ => true
  | .give _ _ _ => false

/-- A step of the callbacks, with the stores to the members of the `Character`. -/
def codeOf (P : Program τ) (t : τ) (q : ℕ) : Option (Program τ) :=
  (codeStep P.s t q).map fun s =>
    match P.s.pc t with
    | .alloc id => { P with s := s }.store q (onClientJoin id.toNat (P.character q))
    | .deref _ _ => { P with s := s }.goto t .type
    | _ => { P with s := s }

/-- `type == en_PACKET_CS_LOGIN_REQ_LOGIN`. -/
def isLogin (type : List UInt8) : Prop := (type.getD 0 0).toNat + 256 * (type.getD 1 0).toNat = reqLogin

instance (type : List UInt8) : Decidable (isLogin type) := inferInstanceAs (Decidable (_ = _))

/-- `JobHandler` with packet `p` for the `Character` `x` of slot `i`. `q` is the packet that `Alloc` finds;
`w` and the two bytes are what a request finds. -/
def jobStep (P : Program τ) (t : τ) (i p x : ℕ) (q : ℕ) (w : World) (b₀ b₁ : UInt8) : JobPc → Option (Program τ)
  | .type =>
    let r := (P.packet p).getData 2
    (layer P (.run t (.edit p (.getData 2)))).map fun P' =>
      { P' with
        world := Function.update P'.world t w
        turns := Function.update P'.turns i (P'.turns i ++ [(⟨w, [b₀, b₁], P.packet p, rfl⟩ : Turn)]) }.goto t
          (if isLogin (overlay [b₀, b₁] r.1) then .account else .done)
  | .account =>
    let r := (P.packet p).getData 8
    let c := P.character x
    (layer P (.run t (.edit p (.getData 8)))).map fun P' =>
      (P'.store x { c with accountNo := overlay c.accountNo r.1 }).goto t .key
  | .key =>
    let r := (P.packet p).getData 64
    let c := P.character x
    (layer P (.run t (.edit p (.getData 64)))).map fun P' =>
      (P'.store x { c with sessionKey := (overlay c.sessionKey r.1).take 64 ++ [0] }).goto t .query
  | .query =>
    let c := P.character x
    match (P.world t).db (int64 c.accountNo) with
    | .row r => some ((P.store x { c with id := (P.world t).widen r.userid c.id
                                          nickname := (P.world t).widen r.usernick c.nickname }).goto t .redis)
    -- `ReqQuery` has failed or `FetchRow` has found no row
    | _ => some (P.goto t (.alloc 0))
  | .redis =>
    -- `strAccountNo` has ten places, one of them for the terminator
    let strAccountNo := decimal (int64 (P.character x).accountNo)
    if 10 < strAccountNo.length + 1 then some (P.goto t .crashed) else some (P.goto t (.alloc 1))
  | .alloc s =>
    -- nobody else writes to the `Character`, so its members may be read before the first `<<`
    (layer P (.run t (.alloc q))).map fun P' => P'.goto t (.write q s (response (P.character x) s))
  | .write r s (f :: fs) =>
    (layer P (.run t (.edit r (.setData f)))).map fun P' => P'.goto t (.write r s fs)
  | .write r s [] => some (P.goto t (.send r s))
  | .send r s => (layer P (.run t (.sendPacket (P.s.sid x) r))).map fun P' => P'.goto t (.free r s)
  | .free r s => (layer P (.run t (.free r))).map fun P' => P'.goto t (.finish s)
  | .finish s =>
    if s = 0 then (layer P (.run t (.disconnect (P.s.sid x)))).map fun P' => P'.goto t .done
    else some (P.goto t .done)
  | .done => (layer P (.run t .ret)).map fun P' => P'.goto t .out
  | .out | .crashed => none

/-- `OnRecv` when `FindCharacter` has found nothing: `Disconnect`, and it returns. -/
def missingStep (P : Program τ) (t : τ) (id : SessionID) : JobPc → Option (Program τ)
  | .done => (layer P (.run t .ret)).map fun P' => P'.goto t .out
  | _ => (layer P (.run t (.disconnect id))).map fun P' => P'.goto t .done

/-- A step of the session layer, of the code of a callback up to `JobHandler`, or of `JobHandler`. -/
inductive Input (τ : Type*)
  | net (x : Act τ)
  | code (t : τ) (q : ℕ)
  | job (t : τ) (q : ℕ) (w : World) (b₀ b₁ : UInt8)

def pstep (P : Program τ) : Input τ → Option (Program τ)
  | .net x => if plain P x then layer P x else none
  | .code t q => codeOf P t q
  | .job t q w b₀ b₁ =>
    match (P.s.net.loc t).pc, P.s.pc t with
    | .work i (.recv (.onRecv p)), .handle _ x => jobStep P t i p x q w b₀ b₁ (P.job t)
    | .work _ (.recv (.onRecv _)), .missing id => missingStep P t id (P.job t)
    | _, _ => none

/-- The memory that the pool makes `Character`s in: two of their members hold twenty `WCHAR`s, which no
constructor writes. -/
structure Blocks where
  memory : ℕ → Character
  names : ∀ x, (memory x).id.length = 40 ∧ (memory x).nickname.length = 40
  /-- Nothing is known of the world before the first request. -/
  world : World

/-- The program as `Start` leaves it. -/
def launch (n : Config τ) (sid : ℕ → SessionID) (B : Blocks) : Program τ where
  s := start n [] sid []
  character := B.memory
  job _ := .out
  world _ := B.world
  streams _ := .start
  text _ := []
  out _ := .start
  turns _ := []

end LoginServerChat.LoginProgram
