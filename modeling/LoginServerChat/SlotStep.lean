import LoginServerChat.NetStep

/-!
The server as one slot sees it: its own fields and history, the jobs and operations that are
for it, and of each thread only what it is doing to the slot.

`SStep` lists what a step can do to a slot, once and for all slots; every step of the server
is for each slot one of these or nothing. The runs in which something goes wrong take a step
with a label other than `ok`.
-/

namespace LoginServerChat.SlotStep

open NetPacket NetState NetStep

structure View where
  s : Session
  h : Hist
  jobs : List Job
  ios : List IoReq
  stack : ℕ
  issued : List SessionID

/-- What a thread is doing to the slot with its own code. -/
inductive Role
  | none
  | acc (p : AccOn)
  | work (p : WorkPc)
  | rel (p : RelPc)

structure LV where
  role : Role
  api : Option (SessionID × ApiPc)

def view (m : Mem) (k : ℕ) : View where
  s := m.sess k
  h := m.hist k
  jobs := m.queue.filterMap fun j => if j.1 = k then some j.2 else none
  ios := m.inflight.filter fun io => io.slot = k
  stack := m.freeStack.count k
  issued := m.issued.filter fun id => slotOf id = k

def pcRole (k : ℕ) : Pc → Role
  | .accOn i p => if i = k then .acc p else .none
  | .work i p => if i = k then .work p else .none
  | .rel i p _ => if i = k then .rel p else .none
  | _ => .none

def apiRole (k : ℕ) : Api → Option (SessionID × ApiPc)
  | .on i id p => if i = k then some (id, p) else none
  | .idle => none

def lview (l : Local) (k : ℕ) : LV := ⟨pcRole k l.pc, apiRole k l.api⟩

/-- What makes a step special. -/
inductive Ev
  | ok
  /-- A worker takes a `RELEASE` job past the test of the socket. -/
  | skipRelease
  /-- `EnterSession` succeeds on a slot whose id `OnClientJoin` has not been given yet. -/
  | lateEnter
  /-- A `RELEASE` job cannot be posted. -/
  | lostRelease
  /-- A `SENDPOST` job cannot be posted. -/
  | lostSend
  /-- `SendPost` gives up after its second pass while `sendQ` holds a packet. -/
  | loadedUnlock
  deriving DecidableEq

/-- The point of a call past `EnterSession`. -/
def Call.body : Call → ApiPc
  | .sendPacket p => .addRef p
  | .disconnect => .xchg

def jobRole : Job → Role
  | .sendPost => .work (.send (.size 0))
  | .release => .rel .cas
  | .sendDone _ => .work .readCnt
  | .recvDone d ser => .work (.recv (.moveRear d ser))

/-- The history of a slot after a worker has skipped a job. -/
def skipHist (h : Hist) : Job → Hist
  | .sendDone n => { h with latch := h.latch + 1, failed := h.failed || n == 0 }
  | _ => h

/-- Points of the receive loop at which no received bytes are in hand. -/
def RecvPc.parsing : RecvPc → Prop
  | .moveRear _ _ => False
  | _ => True

/-- Steps of `ReleaseSession` that leave the slot alone. -/
def RelPc.walk : RelPc → RelPc → Prop
  | .close, .leave | .leave, .leaving | .leaving, .push => True
  | _, _ => False

def cancelAll (h : Sock) (l : List IoReq) : List IoReq :=
  l.map fun io => if io.sock = h then { io with cancelled := true } else io

/-- A step on slot `k`. -/
inductive SStep (k : ℕ) : Ev → View → LV → View → LV → Prop
  /-- `CancelIoEx` on a socket from elsewhere. -/
  | foreign {V l} (h : Sock) : SStep k .ok V l { V with ios := cancelAll h V.ios } l
  -- `SendPacket` and `Disconnect`
  | call {V r} (id : SessionID) (c : Call) (hid : id ∈ V.issued) :
      SStep k .ok V ⟨r, none⟩ V ⟨r, some (id, .enter c)⟩
  | enter {V r id c} : SStep k .ok V ⟨r, some (id, .enter c)⟩
      { V with s := { V.s with ioCount := V.s.ioCount + 1 } } ⟨r, some (id, .chkRel c)⟩
  | chkRelRefuse {V r id c} (hf : V.s.releaseFlag = 1) :
      SStep k .ok V ⟨r, some (id, .chkRel c)⟩ V ⟨r, some (id, .leave)⟩
  | chkRel {V r id c} (hf : V.s.releaseFlag ≠ 1) :
      SStep k .ok V ⟨r, some (id, .chkRel c)⟩ V ⟨r, some (id, .chkID c)⟩
  | chkIDRefuse {V r id c} (hid : V.s.sessionID ≠ id) :
      SStep k .ok V ⟨r, some (id, .chkID c)⟩ V ⟨r, some (id, .leave)⟩
  | chkID {V r id c} (hid : V.s.sessionID = id) :
      SStep k (if V.h.joined then .ok else .lateEnter) V ⟨r, some (id, .chkID c)⟩
        V ⟨r, some (id, Call.body c)⟩
  | addRef {V r id p} : SStep k .ok V ⟨r, some (id, .addRef p)⟩ V ⟨r, some (id, .encode p)⟩
  | encode {V r id p} : SStep k .ok V ⟨r, some (id, .encode p)⟩ V ⟨r, some (id, .enqueue p)⟩
  | enqueue {V r id p} : SStep k .ok V ⟨r, some (id, .enqueue p)⟩
      { V with s := { V.s with sendQ := V.s.sendQ ++ [⟨p, id⟩] }
               h := { V.h with enqd := V.h.enqd ++ [⟨p, id⟩] } } ⟨r, some (id, .post)⟩
  | post {V r id} : SStep k .ok V ⟨r, some (id, .post)⟩
      { V with jobs := V.jobs ++ [.sendPost] } ⟨r, none⟩
  | postFail {V r id} : SStep k .lostSend V ⟨r, some (id, .post)⟩ V ⟨r, some (id, .leave)⟩
  | xchgAgain {V r id} (hm : isMarked V.s.socket = true) : SStep k .ok V ⟨r, some (id, .xchg)⟩
      { V with s := { V.s with socket := mark V.s.socket } } ⟨r, some (id, .leave)⟩
  | xchg {V r id} (hm : isMarked V.s.socket = false) : SStep k .ok V ⟨r, some (id, .xchg)⟩
      { V with s := { V.s with socket := mark V.s.socket }
               h := { V.h with marked := true, cancelled := false } } ⟨r, some (id, .cancel)⟩
  | cancel {V r id} : SStep k .ok V ⟨r, some (id, .cancel)⟩
      { V with ios := cancelAll V.s.relSocket V.ios
               h := { V.h with cancelled := decide (V.s.relSocket = V.h.handle) } }
      ⟨r, some (id, .leave)⟩
  | leaveLast {V r id} (h0 : V.s.ioCount - 1 = 0) : SStep k .ok V ⟨r, some (id, .leave)⟩
      { V with s := { V.s with ioCount := V.s.ioCount - 1 } } ⟨r, some (id, .request)⟩
  | leave {V r id} (h0 : V.s.ioCount - 1 ≠ 0) : SStep k .ok V ⟨r, some (id, .leave)⟩
      { V with s := { V.s with ioCount := V.s.ioCount - 1 } } ⟨r, none⟩
  | request {V r id} : SStep k .ok V ⟨r, some (id, .request)⟩
      { V with jobs := V.jobs ++ [.release] } ⟨r, none⟩
  | requestFail {V r id} : SStep k .lostRelease V ⟨r, some (id, .request)⟩ V ⟨r, none⟩
  -- `AcceptThread`
  | pop {V} (h : Sock) (n st : ℕ) (hst : V.stack = st + 1) : SStep k .ok V ⟨.none, none⟩
      { V with stack := st
               h := { V.h with phase := .init, ser := n, joined := false, enqd := [], gath := [],
                               sent := [], dropped := [], failed := false, bodies := 0 } }
      ⟨.acc (.init h .ioCount), none⟩
  | initIoCount {V h} : SStep k .ok V ⟨.acc (.init h .ioCount), none⟩
      { V with s := { V.s with ioCount := V.s.ioCount + 1 } } ⟨.acc (.init h .socket), none⟩
  | initSocket {V h} : SStep k .ok V ⟨.acc (.init h .socket), none⟩
      { V with s := { V.s with socket := h }
               h := { V.h with handle := h, marked := false, cancelled := false } }
      ⟨.acc (.init h .relSocket), none⟩
  | initRelSocket {V h} : SStep k .ok V ⟨.acc (.init h .relSocket), none⟩
      { V with s := { V.s with relSocket := h } } ⟨.acc (.init h .sessionID), none⟩
  | initSessionID {V h} (id : SessionID) (hid : slotOf id = k) :
      SStep k .ok V ⟨.acc (.init h .sessionID), none⟩
        { V with s := { V.s with sessionID := id } } ⟨.acc (.init h .releaseFlag), none⟩
  | initReleaseFlag {V h} : SStep k .ok V ⟨.acc (.init h .releaseFlag), none⟩
      { V with s := { V.s with releaseFlag := 0 }
               h := { V.h with phase := .live, ever := true } } ⟨.acc (.init h .sendFlag), none⟩
  | initSendFlag {V h} : SStep k .ok V ⟨.acc (.init h .sendFlag), none⟩
      { V with s := { V.s with sendFlag := 0 }, h := { V.h with latch := 0 } }
      ⟨.acc (.init h .sendCnt), none⟩
  | initSendCnt {V h} : SStep k .ok V ⟨.acc (.init h .sendCnt), none⟩
      { V with s := { V.s with sendCnt := 0 }, h := { V.h with owned := [] } }
      ⟨.acc (.init h .recvQ), none⟩
  | initRecvQ {V h} : SStep k .ok V ⟨.acc (.init h .recvQ), none⟩
      { V with s := { V.s with recvQ := [] } } ⟨.acc (.assoc h), none⟩
  | assoc {V h} : SStep k .ok V ⟨.acc (.assoc h), none⟩ V ⟨.acc (.join h), none⟩
  | assocFail {V h} : SStep k .ok V ⟨.acc (.assoc h), none⟩ V ⟨.acc .stop, none⟩
  | join {V h} : SStep k .ok V ⟨.acc (.join h), none⟩
      { V with h := { V.h with joined := true }, issued := V.s.sessionID :: V.issued }
      ⟨.acc (.joining h), none⟩
  | joined {V h} : SStep k .ok V ⟨.acc (.joining h), none⟩ V ⟨.acc (.recv h), none⟩
  | accRecv {V h} (n len : ℕ) : SStep k .ok V ⟨.acc (.recv h), none⟩
      { V with ios := V.ios ++ [⟨n, k, V.h.ser, false, h, len, false, false⟩] } ⟨.none, none⟩
  | accRecvPend {V h} (n len : ℕ) : SStep k .ok V ⟨.acc (.recv h), none⟩
      { V with ios := V.ios ++ [⟨n, k, V.h.ser, false, h, len, true, false⟩] }
      ⟨.acc (.pend n), none⟩
  | accRecvFail {V h} : SStep k .ok V ⟨.acc (.recv h), none⟩ V ⟨.acc .fail, none⟩
  | accPendInvalid {V n} (hs : V.s.socket = invalidSocket) :
      SStep k .ok V ⟨.acc (.pend n), none⟩ V ⟨.acc (.cancel n), none⟩
  | accPend {V n} (hs : V.s.socket ≠ invalidSocket) :
      SStep k .ok V ⟨.acc (.pend n), none⟩ V ⟨.none, none⟩
  | accCancel {V n} : SStep k .ok V ⟨.acc (.cancel n), none⟩
      { V with ios := cancelAll V.s.relSocket V.ios } ⟨.none, none⟩
  | accFailLast {V} (h0 : V.s.ioCount - 1 = 0) : SStep k .ok V ⟨.acc .fail, none⟩
      { V with s := { V.s with ioCount := V.s.ioCount - 1 } } ⟨.rel .cas, none⟩
  | accFail {V} (h0 : V.s.ioCount - 1 ≠ 0) : SStep k .ok V ⟨.acc .fail, none⟩
      { V with s := { V.s with ioCount := V.s.ioCount - 1 } } ⟨.none, none⟩
  -- `IOCPWorkerThread`
  | gqcs {V} (j : Job) (js : List Job) (hj : V.jobs = j :: js) : SStep k .ok V ⟨.none, none⟩
      { V with jobs := js } ⟨.work (.entry j), none⟩
  | entryPass {V j} (hj : j.transferred ≠ 0) (hs : V.s.socket ≠ invalidSocket) :
      SStep k .ok V ⟨.work (.entry j), none⟩ V ⟨jobRole j, none⟩
  | entrySkip {V j} (hj : j ≠ .release) (hs : j.transferred = 0 ∨ V.s.socket = invalidSocket) :
      SStep k .ok V ⟨.work (.entry j), none⟩ { V with h := skipHist V.h j } ⟨.work .dec, none⟩
  | entrySkipRelease {V} (hs : V.s.socket = invalidSocket) :
      SStep k .skipRelease V ⟨.work (.entry .release), none⟩ V ⟨.work .dec, none⟩
  | readCnt {V} : SStep k .ok V ⟨.work .readCnt, none⟩ V ⟨.work (.zeroCnt V.s.sendCnt), none⟩
  | zeroCnt {V bk} : SStep k .ok V ⟨.work (.zeroCnt bk), none⟩
      { V with s := { V.s with sendCnt := 0 } } ⟨.work (.freeArr 0 bk), none⟩
  | freeArr {V j bk} (hj : j < bk) : SStep k .ok V ⟨.work (.freeArr j bk), none⟩
      { V with h := { V.h with owned := V.h.owned.tail
                               dropped := V.h.dropped ++ [V.s.sendPacketArr j] } }
      ⟨.work (.freeArr (j + 1) bk), none⟩
  | freeArrDone {V j bk} (hj : ¬j < bk) :
      SStep k .ok V ⟨.work (.freeArr j bk), none⟩ V ⟨.work .unlock, none⟩
  | unlock {V} : SStep k .ok V ⟨.work .unlock, none⟩
      { V with s := { V.s with sendFlag := 0 } } ⟨.work (.send (.size 0)), none⟩
  | decLast {V} (h0 : V.s.ioCount - 1 = 0) : SStep k .ok V ⟨.work .dec, none⟩
      { V with s := { V.s with ioCount := V.s.ioCount - 1 } } ⟨.rel .cas, none⟩
  | dec {V} (h0 : V.s.ioCount - 1 ≠ 0) : SStep k .ok V ⟨.work .dec, none⟩
      { V with s := { V.s with ioCount := V.s.ioCount - 1 } } ⟨.none, none⟩
  -- `SendPost`
  | sizeEmpty {V cnt} (hq : V.s.sendQ.length = 0) :
      SStep k .ok V ⟨.work (.send (.size cnt)), none⟩ V ⟨.work .dec, none⟩
  | size {V cnt} (hq : V.s.sendQ.length ≠ 0) :
      SStep k .ok V ⟨.work (.send (.size cnt)), none⟩ V ⟨.work (.send (.xchg cnt)), none⟩
  | flagBusy {V cnt} (hf : V.s.sendFlag = 1) : SStep k .ok V ⟨.work (.send (.xchg cnt)), none⟩
      { V with s := { V.s with sendFlag := 1 } } ⟨.work .dec, none⟩
  | flagTake {V cnt} (hf : V.s.sendFlag ≠ 1) : SStep k .ok V ⟨.work (.send (.xchg cnt)), none⟩
      { V with s := { V.s with sendFlag := 1 } } ⟨.work (.send (.use cnt)), none⟩
  | useEmpty {V cnt} (hq : V.s.sendQ.length = 0) :
      SStep k .ok V ⟨.work (.send (.use cnt)), none⟩ V ⟨.work (.send (.unlock cnt)), none⟩
  | use {V cnt} (hq : V.s.sendQ.length ≠ 0) : SStep k .ok V ⟨.work (.send (.use cnt)), none⟩
      V ⟨.work (.send (.gather 0 (min V.s.sendQ.length maxBuf) [])), none⟩
  | retry {V cnt} (hc : cnt + 1 ≠ 2) : SStep k .ok V ⟨.work (.send (.unlock cnt)), none⟩
      { V with s := { V.s with sendFlag := 0 } } ⟨.work (.send (.size (cnt + 1))), none⟩
  | giveUp {V cnt} (hc : cnt + 1 = 2) :
      SStep k (if V.s.sendQ = [] then .ok else .loadedUnlock)
        V ⟨.work (.send (.unlock cnt)), none⟩
        { V with s := { V.s with sendFlag := 0 } } ⟨.work .dec, none⟩
  | gather {V j n bufs} (e : Entry) (q : List Entry) (len : ℕ) (hj : j < n)
      (hq : V.s.sendQ = e :: q) : SStep k .ok V ⟨.work (.send (.gather j n bufs)), none⟩
      { V with s := { V.s with sendQ := q
                               sendPacketArr := Function.update V.s.sendPacketArr j e }
               h := { V.h with gath := V.h.gath ++ [e], owned := V.h.owned ++ [e] } }
      ⟨.work (.send (.gather (j + 1) n (bufs ++ [(e, len)]))), none⟩
  | gatherMiss {V j n bufs} (len : ℕ) (hj : j < n) (hq : V.s.sendQ = []) :
      SStep k .ok V ⟨.work (.send (.gather j n bufs)), none⟩
        V ⟨.work (.send (.gather (j + 1) n (bufs ++ [(V.s.sendPacketArr j, len)]))), none⟩
  | gatherDone {V j n bufs} (hj : ¬j < n) :
      SStep k .ok V ⟨.work (.send (.gather j n bufs)), none⟩
        V ⟨.work (.send (.setCnt n bufs)), none⟩
  | setCnt {V n bufs} : SStep k .ok V ⟨.work (.send (.setCnt n bufs)), none⟩
      { V with s := { V.s with sendCnt := n } } ⟨.work (.send (.inc bufs)), none⟩
  | inc {V bufs} : SStep k .ok V ⟨.work (.send (.inc bufs)), none⟩
      { V with s := { V.s with ioCount := V.s.ioCount + 1 } } ⟨.work (.send (.load bufs)), none⟩
  | load {V bufs} : SStep k .ok V ⟨.work (.send (.load bufs)), none⟩
      V ⟨.work (.send (.send V.s.socket bufs)), none⟩
  | sendError {V s bufs} : SStep k .ok V ⟨.work (.send (.send s bufs)), none⟩
      { V with h := { V.h with sent := V.h.sent ++ [bufs.map Prod.fst], gath := []
                               latch := V.h.latch + 1, failed := true } }
      ⟨.work (.send .fail), none⟩
  | sendDone {V s bufs} (n : ℕ) (hs : s ≠ invalidSocket) :
      SStep k .ok V ⟨.work (.send (.send s bufs)), none⟩
      { V with h := { V.h with sent := V.h.sent ++ [bufs.map Prod.fst], gath := [] }
               ios := V.ios ++ [⟨n, k, V.h.ser, true, s, 0, false, false⟩] }
      ⟨.work .dec, none⟩
  | sendPend {V s bufs} (n : ℕ) (hs : s ≠ invalidSocket) :
      SStep k .ok V ⟨.work (.send (.send s bufs)), none⟩
      { V with h := { V.h with sent := V.h.sent ++ [bufs.map Prod.fst], gath := [] }
               ios := V.ios ++ [⟨n, k, V.h.ser, true, s, 0, true, false⟩] }
      ⟨.work (.send (.pend n)), none⟩
  | pendInvalid {V n} (hs : V.s.socket = invalidSocket) :
      SStep k .ok V ⟨.work (.send (.pend n)), none⟩ V ⟨.work (.send (.cancel n)), none⟩
  | pend {V n} (hs : V.s.socket ≠ invalidSocket) :
      SStep k .ok V ⟨.work (.send (.pend n)), none⟩ V ⟨.work .dec, none⟩
  | sendCancel {V n} : SStep k .ok V ⟨.work (.send (.cancel n)), none⟩
      { V with ios := cancelAll V.s.relSocket V.ios } ⟨.work .dec, none⟩
  | sendFail {V} : SStep k .ok V ⟨.work (.send .fail), none⟩
      { V with s := { V.s with ioCount := V.s.ioCount - 1 } } ⟨.work .dec, none⟩
  -- the receive loop
  | moveRear {V d ser} : SStep k .ok V ⟨.work (.recv (.moveRear d ser)), none⟩
      { V with s := { V.s with recvQ := V.s.recvQ ++ d.map fun b => (b, ser) } }
      ⟨.work (.recv .size), none⟩
  | parse {V} (p p' : RecvPc) (hp : RecvPc.parsing p) (hp' : RecvPc.parsing p') :
      SStep k .ok V ⟨.work (.recv p), none⟩ V ⟨.work (.recv p'), none⟩
  | dequeue {V} (p p' : RecvPc) (n : ℕ) (hp : RecvPc.parsing p) (hp' : RecvPc.parsing p') :
      SStep k .ok V ⟨.work (.recv p), none⟩
        { V with s := { V.s with recvQ := V.s.recvQ.drop n } } ⟨.work (.recv p'), none⟩
  | disconnect {V} : SStep k .ok V ⟨.work (.recv .disconnect), none⟩
      V ⟨.work (.recv .disconnected), some (V.s.sessionID, .enter .disconnect)⟩
  | parsed {V} (p : RecvPc) (hp : RecvPc.parsing p) :
      SStep k .ok V ⟨.work (.recv p), none⟩ V ⟨.work (.post .inc), none⟩
  -- `RecvPost`
  | postInc {V} : SStep k .ok V ⟨.work (.post .inc), none⟩
      { V with s := { V.s with ioCount := V.s.ioCount + 1 } } ⟨.work (.post .load), none⟩
  | postLoad {V} : SStep k .ok V ⟨.work (.post .load), none⟩
      V ⟨.work (.post (.recv V.s.socket)), none⟩
  | recvError {V s} : SStep k .ok V ⟨.work (.post (.recv s)), none⟩ V ⟨.work (.post .fail), none⟩
  | recvDone {V s} (n len : ℕ) (hs : s ≠ invalidSocket) :
      SStep k .ok V ⟨.work (.post (.recv s)), none⟩
      { V with ios := V.ios ++ [⟨n, k, V.h.ser, false, s, len, false, false⟩] } ⟨.work .dec, none⟩
  | recvPend {V s} (n len : ℕ) (hs : s ≠ invalidSocket) :
      SStep k .ok V ⟨.work (.post (.recv s)), none⟩
      { V with ios := V.ios ++ [⟨n, k, V.h.ser, false, s, len, true, false⟩] }
      ⟨.work (.post (.pend n)), none⟩
  | postPendInvalid {V n} (hs : V.s.socket = invalidSocket) :
      SStep k .ok V ⟨.work (.post (.pend n)), none⟩ V ⟨.work (.post (.cancel n)), none⟩
  | postPend {V n} (hs : V.s.socket ≠ invalidSocket) :
      SStep k .ok V ⟨.work (.post (.pend n)), none⟩ V ⟨.work .dec, none⟩
  | postCancel {V n} : SStep k .ok V ⟨.work (.post (.cancel n)), none⟩
      { V with ios := cancelAll V.s.relSocket V.ios } ⟨.work .dec, none⟩
  | postFailed {V} : SStep k .ok V ⟨.work (.post .fail), none⟩
      { V with s := { V.s with ioCount := V.s.ioCount - 1 } } ⟨.work .dec, none⟩
  -- `ReleaseSession`
  | cas {V} (h0 : V.s.ioCount = 0) (hf : V.s.releaseFlag = 0) : SStep k .ok V ⟨.rel .cas, none⟩
      { V with s := { V.s with releaseFlag := 1 }
               h := { V.h with phase := .rel, bodies := V.h.bodies + 1 } } ⟨.rel .drain, none⟩
  | casFail {V} (h0 : ¬(V.s.ioCount = 0 ∧ V.s.releaseFlag = 0)) :
      SStep k .ok V ⟨.rel .cas, none⟩ V ⟨.none, none⟩
  | drainDone {V} (hq : V.s.sendQ = []) :
      SStep k .ok V ⟨.rel .drain, none⟩ V ⟨.rel .readCnt, none⟩
  | drain {V} (e : Entry) (q : List Entry) (hq : V.s.sendQ = e :: q) :
      SStep k .ok V ⟨.rel .drain, none⟩
        { V with s := { V.s with sendQ := q } } ⟨.rel (.drainFree e), none⟩
  | drainFree {V e} : SStep k .ok V ⟨.rel (.drainFree e), none⟩
      { V with h := { V.h with dropped := V.h.dropped ++ [e] } } ⟨.rel .drain, none⟩
  | relReadCnt {V} : SStep k .ok V ⟨.rel .readCnt, none⟩ V ⟨.rel (.freeArr 0 V.s.sendCnt), none⟩
  | relFreeArr {V j bk} (hj : j < bk) : SStep k .ok V ⟨.rel (.freeArr j bk), none⟩
      { V with h := { V.h with owned := V.h.owned.tail
                               dropped := V.h.dropped ++ [V.s.sendPacketArr j] } }
      ⟨.rel (.freeArr (j + 1) bk), none⟩
  | relFreeArrDone {V j bk} (hj : ¬j < bk) :
      SStep k .ok V ⟨.rel (.freeArr j bk), none⟩ V ⟨.rel .close, none⟩
  | relWalk {V p p'} (hp : RelPc.walk p p') : SStep k .ok V ⟨.rel p, none⟩ V ⟨.rel p', none⟩
  | push {V} (hid : slotOf V.s.sessionID = k) : SStep k .ok V ⟨.rel .push, none⟩
      { V with stack := V.stack + 1, h := { V.h with phase := .free } } ⟨.rel .decNow, none⟩
  | decNow {V} : SStep k .ok V ⟨.rel .decNow, none⟩ V ⟨.none, none⟩

end LoginServerChat.SlotStep
