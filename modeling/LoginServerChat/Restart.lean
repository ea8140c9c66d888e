import LoginServerChat.CallbackProtocol
import LoginServerChat.FreeStack

/-!
`Start` and `Stop` of one `LoginServer`, any number of times. `InitSettings` resets the members
that describe a run, but neither `_freeSessionStack` nor `characterMap`, and `OnStart` and `OnStop`
do not touch the map either: what a `Stop` leaves in them is there at the next `Start`, which
pushes every index once more.

`Stop` ends the threads wherever they are, and so does a `Start` that cannot create one of its
threads for those it has created. A `Start` on a server that is on, whose threads would go on
beside the new ones, has no step here.
-/

namespace LoginServerChat.Restart

open NetPacket NetState NetStep SlotStep SlotRun OwnCalls Contents CallbackRun CallbackCode
  CallbackProtocol FreeStack Runs

/-- What a server keeps while it is off. -/
structure Kept where
  freeSessionStack : List ℕ
  characterMap : List (SessionID × ℕ)
  sid : ℕ → SessionID
  held : List ℕ

/-- A server; at `failing` it is in a `Start` that has not got all its threads. -/
inductive Server (τ : Type*)
  | off (v : Kept)
  | on (s : State τ)
  | failing (s : State τ)

/-- The arguments of `Start`, what the memory of `new SESSION[maxUser]` and of the packets is, and
which threads it creates. -/
structure Args (τ : Type*) where
  workerThreadCnt : ℤ
  runningThreadCnt : ℤ
  maxUser : ℤ
  sess : ℕ → Session
  bytes : ℕ → List UInt8
  bytes_length : ∀ p, (bytes p).length = defaultSize
  accepts : τ
  works : τ → Bool

/-- The call in `Start` that fails. -/
inductive Fault | wsaStartup | socket | bind | listen | createIoCompletionPort | beginthreadex
  deriving DecidableEq

variable {τ : Type*} [DecidableEq τ]

/-- The first test of `Start`. Its two tests of the port never reject an `unsigned short`. -/
def Args.rejected (g : Args τ) : Prop :=
  g.workerThreadCnt = 0 ∨ g.runningThreadCnt = 0 ∨ g.maxUser = 0 ∨ g.maxUser < 0 ∨ g.maxUser > 65535

instance {g : Args τ} : Decidable g.rejected := inferInstanceAs (Decidable (_ ∨ _))

/-- The loop that pushes the indices. -/
def pushAll (n : ℕ) (st : List ℕ) : List ℕ := (List.range n).foldl (fun st idx => idx :: st) st

def Args.boot (g : Args τ) (h : ¬g.rejected) : Boot where
  maxUser := g.maxUser.toNat
  sess := g.sess
  bytes := g.bytes
  maxUser_le := by unfold Args.rejected at h; omega
  bytes_length := g.bytes_length

/-- The server when `Start` comes to its threads. -/
def launch (v : Kept) (g : Args τ) (h : ¬g.rejected) : State τ :=
  let c := NetStep.boot (g.boot h) g.accepts g.works
  let m := { c.mem with freeStack := pushAll g.maxUser.toNat v.freeSessionStack }
  Contents.start { c with mem := m } v.characterMap v.sid v.held

/-- `Start` on a server that is off, when `f` says which of its calls fails. -/
def start (v : Kept) (g : Args τ) (f : Option Fault) : Server τ × Bool :=
  if h : g.rejected then (.off v, false)
  else match f with
    | none => (.on (launch v g h), true)
    | some .beginthreadex => (.failing (launch v g h), false)
    | some _ => (.off v, false)

def State.kept (s : State τ) : Kept := ⟨s.net.mem.freeStack, s.characterMap, s.sid, s.held⟩

inductive Call (τ : Type*)
  | start (g : Args τ) (f : Option Fault)
  | stop
  | giveUp
  | move (x : Move τ)

/-- A `LoginServer` as its constructor leaves it. -/
def constructed (sid : ℕ → SessionID) : Server τ := .off ⟨[], [], sid, []⟩

/-! ### What a `Start` finds -/

/-- Every index is on the stack once, and the map is empty. -/
structure Fresh (s : State τ) (n : ℕ) : Prop where
  stack : s.net.mem.freeStack.Perm (List.range n)
  map : s.characterMap = []

/-- Nothing is left of earlier runs. -/
def Kept.Clean (v : Kept) : Prop := v.freeSessionStack = [] ∧ v.characterMap = []

variable {v v' : Kept} {g : Args τ} {f : Option Fault} {s : State τ} {S : Server τ}

variable [Fintype τ]

/-- What is asked of a server, when `ok` says which calls are made. -/
structure Safe (ok : Server τ → Call τ → Prop) (S : Server τ) : Prop where
  /-- A `Start` that returns true finds every index on the stack once and the map empty. -/
  started : ∀ v g f s, S = .off v → ok S (.start g f) → start v g f = (.on s, true) →
    Fresh s g.maxUser.toNat
  /-- A slot that a session has is not there for another to be popped, nor is any there twice. -/
  slots : ∀ s, S = .on s → s.net.mem.freeStack.Nodup ∧
    ∀ k ∈ s.net.mem.freeStack, (s.net.mem.hist k).phase = .free
  /-- The `insert` of `OnClientJoin` makes an entry for its own `Character`. -/
  insert : ∀ s, S = .on s → ∀ t id p, s.pc t = .insert id p →
    s.sid p = id ∧ s.characterMap.lookup id = none

end LoginServerChat.Restart
