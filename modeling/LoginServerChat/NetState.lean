import LoginServerChat.NetPacket
import Mathlib.Logic.Function.Basic

/-!
The state of the session layer of the server: the slots of `_sessionArr`, the packets and
their pool, the completion port, the operations posted to the sockets, and for each thread
the point its code has reached.

The history of a slot is kept beside its fields and no step reads it. It says which accept
occupies the slot, what was queued, sent and dropped for it, and how far its release is.
-/

namespace LoginServerChat.NetState

open NetPacket

abbrev Sock := BitVec 64
abbrev SessionID := BitVec 64

def invalidSocket : Sock := BitVec.allOnes 64

/-- What `InterlockedExchange((PLONG)&socket, INVALID_SOCKET)` leaves: a `LONG` is the low half
of a 64-bit `SOCKET`. -/
def mark (s : Sock) : Sock := s.extractLsb' 32 32 ++ BitVec.allOnes 32

/-- The `LONG` it returns, compared with `INVALID_SOCKET`. -/
def isMarked (s : Sock) : Bool := (s.setWidth 32).signExtend 64 == invalidSocket

def maxBuf : ℕ := 200
/-- The capacity of `recvQ`. -/
def recvCap : ℕ := 10000

/-- `(USHORT)sessionID`. -/
def slotOf (id : SessionID) : ℕ := (id.setWidth 16).toNat

/-- `(_sessionCnt << 16) | (UINT64)idx`. -/
def makeID (cnt : BitVec 64) (idx : ℕ) : SessionID := cnt <<< 16 ||| BitVec.ofNat 64 idx

/-- `++_sessionCnt`, starting over past 48 bits. -/
def nextCnt (cnt : BitVec 64) : BitVec 64 :=
  if cnt + 1 > 0xFFFFFFFFFFFF#64 then 1 else cnt + 1

/-- A packet in a send queue and the id `SendPacket` accepted it for. -/
structure Entry where
  pkt : ℕ
  sid : SessionID
  deriving DecidableEq

/-- `SESSION`. A received byte carries the number of the accept whose socket it came from. -/
structure Session where
  sessionID : SessionID
  socket : Sock
  relSocket : Sock
  ioCount : ℤ
  releaseFlag : ℕ
  sendFlag : ℕ
  sendCnt : ℕ
  sendQ : List Entry
  sendPacketArr : ℕ → Entry
  recvQ : List (UInt8 × ℕ)

/-- Where a slot is in its life. A slot is `live` from the store that clears `releaseFlag` to
the compare-exchange that sets it. -/
inductive Phase | free | init | live | rel
  deriving DecidableEq

/-- The history of a slot since it was last popped from the free stack. -/
structure Hist where
  phase : Phase
  /-- The slot is or has been live. -/
  ever : Bool
  /-- The number of the accept. -/
  ser : ℕ
  /-- What `accept` returned. -/
  handle : Sock
  /-- `OnClientJoin` has been called. -/
  joined : Bool
  /-- A `Disconnect` that will return true has made its exchange. -/
  marked : Bool
  /-- And has called `CancelIoEx` on the session's socket. -/
  cancelled : Bool
  /-- What `SendPacket` has put into `sendQ`, in order. -/
  enqd : List Entry
  /-- What the gather loop has taken out and not yet handed to `WSASend`. -/
  gath : List Entry
  /-- The batches handed to `WSASend`. -/
  sent : List (List Entry)
  /-- What `sendPacketArr` holds and nobody has freed. -/
  owned : List Entry
  /-- What the session has freed. -/
  dropped : List Entry
  /-- How often `sendFlag` was left set by a send that nobody completes. -/
  latch : ℕ
  /-- A `WSASend` has failed, at once or by completing with no byte. -/
  failed : Bool
  /-- How often the body of `ReleaseSession` has been entered. -/
  bodies : ℕ

/-- What a worker takes from the completion port: the two jobs, and the completion of a send
with its byte count or of a receive with its bytes and the number of its accept. -/
inductive Job
  | sendPost
  | release
  | sendDone (n : ℕ)
  | recvDone (d : List UInt8) (ser : ℕ)
  deriving DecidableEq

/-- `dwTransferred`. -/
def Job.transferred : Job → ℕ
  | .sendPost => 1
  | .release => 2
  | .sendDone n => n
  | .recvDone d _ => d.length

/-- An overlapped operation that is posted and not yet completed. -/
structure IoReq where
  num : ℕ
  slot : ℕ
  ser : ℕ
  send : Bool
  sock : Sock
  len : ℕ
  /-- The call returned `WSA_IO_PENDING`. -/
  pended : Bool
  cancelled : Bool
  deriving DecidableEq

structure Mem where
  sess : ℕ → Session
  hist : ℕ → Hist
  packet : ℕ → Packet
  /-- How often `_packetpool` holds a packet. -/
  pool : ℕ → ℕ
  queue : List (ℕ × Job)
  inflight : List IoReq
  ioNum : ℕ
  freeStack : List ℕ
  nowSession : ℤ
  sessionCnt : BitVec 64
  maxUser : ℕ
  /-- The ids `OnClientJoin` has been given. -/
  issued : List SessionID
  /-- The open client sockets. -/
  socks : List Sock
  /-- How many slots have been popped. -/
  serial : ℕ

namespace Mem

def onSess (m : Mem) (i : ℕ) (f : Session → Session) : Mem :=
  { m with sess := Function.update m.sess i (f (m.sess i)) }

def onHist (m : Mem) (i : ℕ) (f : Hist → Hist) : Mem :=
  { m with hist := Function.update m.hist i (f (m.hist i)) }

def onPacket (m : Mem) (p : ℕ) (f : Packet → Packet) : Mem :=
  { m with packet := Function.update m.packet p (f (m.packet p)) }

def onPool (m : Mem) (p : ℕ) (f : ℕ → ℕ) : Mem :=
  { m with pool := Function.update m.pool p (f (m.pool p)) }

def enqueue (m : Mem) (i : ℕ) (j : Job) : Mem := { m with queue := m.queue ++ [(i, j)] }

/-- `WSASend` or `WSARecv` has taken an operation on slot `i`. -/
def postIo (m : Mem) (i : ℕ) (send : Bool) (sock : Sock) (len : ℕ) (pended : Bool) : Mem :=
  { m with
    inflight := m.inflight ++ [⟨m.ioNum, i, (m.hist i).ser, send, sock, len, pended, false⟩]
    ioNum := m.ioNum + 1 }

def cancelIoEx (m : Mem) (h : Sock) : Mem :=
  { m with inflight := m.inflight.map fun io =>
      if io.sock = h then { io with cancelled := true } else io }

end Mem

/-! ### Program points -/

/-- The stores by which `AcceptThread` prepares a slot, in program order. -/
inductive InitPc
  | ioCount | socket | relSocket | sessionID | releaseFlag | sendFlag | sendCnt | recvQ

/-- `AcceptThread` before it has a slot. -/
inductive AccPc
  | accept
  | full (h : Sock)
  | request (h : Sock)
  | refuse (h : Sock)
  | incNow (h : Sock)
  | count (h : Sock)
  | pop (h : Sock)
  | stop

/-- `AcceptThread` on a slot, for the client on socket `h`; `n` numbers the receive it posted.
At `stop` the thread has returned because `CreateIoCompletionPort` failed. -/
inductive AccOn
  | init (h : Sock) (p : InitPc)
  | assoc (h : Sock)
  | join (h : Sock)
  | joining (h : Sock)
  | recv (h : Sock)
  | pend (n : ℕ)
  | cancel (n : ℕ)
  | fail
  | stop

/-- `SendPost`. `cnt` counts the passes of its first loop; `bufs` is the array for `WSASend`,
each packet with the size it had when it was gathered. -/
inductive SendPc
  | size (cnt : ℕ)
  | xchg (cnt : ℕ)
  | use (cnt : ℕ)
  | unlock (cnt : ℕ)
  | gather (j n : ℕ) (bufs : List (Entry × ℕ))
  | setCnt (n : ℕ) (bufs : List (Entry × ℕ))
  | inc (bufs : List (Entry × ℕ))
  | load (bufs : List (Entry × ℕ))
  | send (s : Sock) (bufs : List (Entry × ℕ))
  | pend (n : ℕ)
  | cancel (n : ℕ)
  | fail

/-- The receive loop of the worker. -/
inductive RecvPc
  | moveRear (d : List UInt8) (ser : ℕ)
  | size
  | peek
  | full (h : NetHeader)
  | alloc (h : NetHeader)
  | dequeue (h : NetHeader) (p : ℕ)
  | decode (p : ℕ)
  | onRecv (p : ℕ)
  | free (p : ℕ)
  | bad (p : ℕ)
  | disconnect
  | disconnected

/-- `RecvPost`. -/
inductive PostPc
  | inc
  | load
  | recv (s : Sock)
  | pend (n : ℕ)
  | cancel (n : ℕ)
  | fail

/-- A worker that has taken a job for a slot. -/
inductive WorkPc
  | entry (j : Job)
  | readCnt
  | zeroCnt (bk : ℕ)
  | freeArr (j bk : ℕ)
  | unlock
  | send (p : SendPc)
  | recv (p : RecvPc)
  | post (p : PostPc)
  | dec

/-- `ReleaseSession`; `leaving` is inside `OnClientLeave`. -/
inductive RelPc
  | cas
  | drain
  | drainFree (e : Entry)
  | readCnt
  | freeArr (j bk : ℕ)
  | close
  | leave
  | leaving
  | push
  | decNow

/-- The main point of a thread: contents code outside every callback, the accept thread, a
worker at `GetQueuedCompletionStatus` or with a job, or either of them in `ReleaseSession`. -/
inductive Pc
  | ext
  | acc (p : AccPc)
  | accOn (i : ℕ) (p : AccOn)
  | gqcs
  | work (i : ℕ) (p : WorkPc)
  | rel (i : ℕ) (p : RelPc) (accept : Bool)

inductive Call
  | sendPacket (p : ℕ)
  | disconnect
  deriving DecidableEq

/-- `EnterSession`, the bodies of `SendPacket` and `Disconnect`, and `LeaveSession`. -/
inductive ApiPc
  | enter (k : Call)
  | chkRel (k : Call)
  | chkID (k : Call)
  | addRef (p : ℕ)
  | encode (p : ℕ)
  | enqueue (p : ℕ)
  | post
  | xchg
  | cancel
  | leave
  | request
  deriving DecidableEq

/-- The call of `SendPacket` or `Disconnect` a thread is in, if any. -/
inductive Api
  | idle
  | on (i : ℕ) (id : SessionID) (p : ApiPc)
  deriving DecidableEq

/-- A thread. `drop` is a packet whose count it has taken to zero and not yet given back to
the pool; `holds` are the packets it has allocated and not freed. -/
structure Local where
  pc : Pc
  api : Api
  drop : Option ℕ
  holds : List ℕ

structure Config (τ : Type*) where
  mem : Mem
  loc : τ → Local

end LoginServerChat.NetState
