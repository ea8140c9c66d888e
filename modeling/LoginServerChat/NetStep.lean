import LoginServerChat.NetState

/-!
The steps of the session layer. A step of a thread is one atomic access of its code to shared
memory, to a socket or to the completion port; what the system, the client or the contents
code decide is the `Choice` it is given. The functions follow the source one by one.

Two things have no step. `CrashDump::Crash` ends the process. A frame longer than the packet
it is copied into overwrites memory behind the packet, and nothing can be said of what follows.
-/

namespace LoginServerChat.NetStep

open NetPacket NetState

/-- What `WSASend` and `WSARecv` come back with. -/
inductive IoRes | done | pending | error
  deriving DecidableEq

/-- What contents code does to a packet it holds. -/
inductive PacketOp
  | setData (d : List UInt8)
  | getData (n : ℕ)
  | moveWritePos (n : ℕ)
  | moveReadPos (n : ℕ)
  | clear
  deriving DecidableEq

def PacketOp.apply (q : Packet) : PacketOp → Packet
  | .setData d => (q.setData d).2
  | .getData n => (q.getData n).2
  | .moveWritePos n => (q.moveWritePos n).2
  | .moveReadPos n => (q.moveReadPos n).2
  | .clear => q.clear

inductive Choice
  | tick
  /-- What `accept` returns. -/
  | sock (h : Option Sock)
  /-- The answer of `OnConnectionRequest`, `CreateIoCompletionPort` or
  `PostQueuedCompletionStatus`. -/
  | ans (b : Bool)
  | io (r : IoRes)
  /-- `rand() % 256`. -/
  | key (k : UInt8)
  /-- The packet that `_packetpool.Alloc` finds. -/
  | alloc (p : ℕ)
  | free (p : ℕ)
  | edit (p : ℕ) (op : PacketOp)
  | sendPacket (id : SessionID) (p : ℕ)
  | disconnect (id : SessionID)
  /-- A callback returns. -/
  | ret
  deriving DecidableEq

namespace Local

def goto (l : Local) (pc : Pc) : Local := { l with pc := pc }
def call (l : Local) (a : Api) : Local := { l with api := a }

/-- The packets the contents code of a thread may free or pass on. The packet of an `OnRecv`
belongs to the worker. -/
def spare (l : Local) : List ℕ :=
  match l.pc with
  | .work _ (.recv (.onRecv p)) => l.holds.erase p
  | _ => l.holds

/-- Contents code is running. -/
def callback (l : Local) : Bool :=
  match l.pc with
  | .ext | .acc (.request _) | .accOn _ (.joining _) | .work _ (.recv (.onRecv _)) | .rel _ .leaving _ => true
  | _ => false

end Local

/-- `CNetPacket::Alloc`, with the packet the pool hands out. -/
def allocPacket (m : Mem) (l : Local) (p : ℕ) : Option (Mem × Local) :=
  if 0 < m.pool p then
    some ((m.onPool p (· - 1)).onPacket p Packet.addRefCount, { l with holds := p :: l.holds })
  else none

/-- The decrement of `CNetPacket::Free`; at zero the packet is left to `drop`. -/
def freePacket (m : Mem) (l : Local) (p : ℕ) : Mem × Local :=
  (m.onPacket p Packet.decRefCount,
    if (m.packet p).refCount - 1 = 0 then { l with drop := some p } else l)

/-- What contents code may do at any moment. -/
def contentsStep (m : Mem) (l : Local) : Choice → Option (Mem × Local)
  | .alloc p => allocPacket m l p
  | .free p =>
    if p ∈ Local.spare l then
      some (freePacket m { l with holds := l.holds.erase p } p)
    else none
  | .edit p op =>
    if p ∈ l.holds then some (m.onPacket p fun q => op.apply q, l) else none
  | .sendPacket id p =>
    if id ∈ m.issued ∧ p ∈ l.holds then
      some (m, Local.call l (.on (slotOf id) id (.enter (.sendPacket p))))
    else none
  | .disconnect id =>
    if id ∈ m.issued then some (m, Local.call l (.on (slotOf id) id (.enter .disconnect)))
    else none
  | _ => none

/-- `SendPacket` and `Disconnect` on slot `i`, with what they call. -/
def apiStep (m : Mem) (l : Local) (i : ℕ) (id : SessionID) : ApiPc → Choice → Option (Mem × Local)
  | .enter k, .tick =>
    some (m.onSess i fun s => { s with ioCount := s.ioCount + 1 }, Local.call l (.on i id (.chkRel k)))
  | .chkRel k, .tick =>
    if (m.sess i).releaseFlag = 1 then some (m, Local.call l (.on i id .leave))
    else some (m, Local.call l (.on i id (.chkID k)))
  | .chkID k, .tick =>
    if (m.sess i).sessionID ≠ id then some (m, Local.call l (.on i id .leave))
    else match k with
      | .sendPacket p => some (m, Local.call l (.on i id (.addRef p)))
      | .disconnect => some (m, Local.call l (.on i id .xchg))
  | .addRef p, .tick => some (m.onPacket p Packet.addRefCount, Local.call l (.on i id (.encode p)))
  | .encode p, .key k =>
    match (m.packet p).encode k with
    | some q => some (m.onPacket p fun _ => q, Local.call l (.on i id (.enqueue p)))
    | none => none
  | .enqueue p, .tick =>
    some ((m.onSess i fun s => { s with sendQ := s.sendQ ++ [⟨p, id⟩] }).onHist i
      fun h => { h with enqd := h.enqd ++ [⟨p, id⟩] }, Local.call l (.on i id .post))
  | .post, .ans true => some (m.enqueue i .sendPost, Local.call l .idle)
  | .post, .ans false => some (m, Local.call l (.on i id .leave))
  | .xchg, .tick =>
    if isMarked (m.sess i).socket then
      some (m.onSess i fun s => { s with socket := mark s.socket }, Local.call l (.on i id .leave))
    else
      some ((m.onSess i fun s => { s with socket := mark s.socket }).onHist i
        fun h => { h with marked := true, cancelled := false }, Local.call l (.on i id .cancel))
  | .cancel, .tick =>
    some ((m.cancelIoEx (m.sess i).relSocket).onHist i
      fun h => { h with cancelled := decide ((m.sess i).relSocket = h.handle) },
      Local.call l (.on i id .leave))
  | .leave, .tick =>
    let m' := m.onSess i fun s => { s with ioCount := s.ioCount - 1 }
    if (m.sess i).ioCount - 1 = 0 then some (m', Local.call l (.on i id .request))
    else some (m', Local.call l .idle)
  | .request, .ans true => some (m.enqueue i .release, Local.call l .idle)
  | .request, .ans false => some (m, Local.call l .idle)
  | _, _ => none

/-- The stores that prepare slot `i` for the client on socket `h`. -/
def initStep (m : Mem) (l : Local) (i : ℕ) (h : Sock) : InitPc → Mem × Local
  | .ioCount => (m.onSess i fun s => { s with ioCount := s.ioCount + 1 },
      Local.goto l (.accOn i (.init h .socket)))
  | .socket => ((m.onSess i fun s => { s with socket := h }).onHist i
      fun x => { x with handle := h, marked := false, cancelled := false },
      Local.goto l (.accOn i (.init h .relSocket)))
  | .relSocket => (m.onSess i fun s => { s with relSocket := h },
      Local.goto l (.accOn i (.init h .sessionID)))
  | .sessionID => (m.onSess i fun s => { s with sessionID := makeID m.sessionCnt i },
      Local.goto l (.accOn i (.init h .releaseFlag)))
  | .releaseFlag => ((m.onSess i fun s => { s with releaseFlag := 0 }).onHist i
      fun x => { x with phase := .live, ever := true }, Local.goto l (.accOn i (.init h .sendFlag)))
  | .sendFlag => ((m.onSess i fun s => { s with sendFlag := 0 }).onHist i
      fun x => { x with latch := 0 }, Local.goto l (.accOn i (.init h .sendCnt)))
  | .sendCnt => ((m.onSess i fun s => { s with sendCnt := 0 }).onHist i
      fun x => { x with owned := [] }, Local.goto l (.accOn i (.init h .recvQ)))
  | .recvQ => (m.onSess i fun s => { s with recvQ := [] }, Local.goto l (.accOn i (.assoc h)))

/-- `AcceptThread` up to the slot. The loop around `Pop` spins while the stack is empty. -/
def acceptStep (m : Mem) (l : Local) : AccPc → Choice → Option (Mem × Local)
  | .accept, .sock none => some (m, Local.goto l (.acc .stop))
  | .accept, .sock (some h) =>
    if h ≠ invalidSocket ∧ h ∉ m.socks then
      some ({ m with socks := h :: m.socks }, Local.goto l (.acc (.full h)))
    else none
  | .full h, .tick =>
    if m.nowSession = m.maxUser then some (m, Local.goto l (.acc (.refuse h)))
    else some (m, Local.goto l (.acc (.request h)))
  | .request h, .ans true => some (m, Local.goto l (.acc (.incNow h)))
  | .request h, .ans false => some (m, Local.goto l (.acc (.refuse h)))
  | .request _, c => contentsStep m l c
  | .refuse h, .tick => some ({ m with socks := m.socks.erase h }, Local.goto l (.acc .accept))
  | .incNow h, .tick =>
    some ({ m with nowSession := m.nowSession + 1 }, Local.goto l (.acc (.count h)))
  | .count h, .tick =>
    some ({ m with sessionCnt := nextCnt m.sessionCnt }, Local.goto l (.acc (.pop h)))
  | .pop h, .tick =>
    match m.freeStack with
    | [] => some (m, l)
    | i :: st =>
      let m' : Mem := { m with freeStack := st, serial := m.serial + 1 }
      some (m'.onHist i fun x =>
        { x with phase := .init, ser := m.serial + 1, joined := false, enqd := [], gath := [],
                 sent := [], dropped := [], failed := false, bodies := 0 },
        Local.goto l (.accOn i (.init h .ioCount)))
  | _, _ => none

/-- `recvQ.GetFreeSize()`: what the buffers of a receive hold in all. -/
def freeSize (m : Mem) (i : ℕ) : ℕ := recvCap - (m.sess i).recvQ.length

/-- `AcceptThread` on slot `i`. -/
def accOnStep (m : Mem) (l : Local) (i : ℕ) : AccOn → Choice → Option (Mem × Local)
  | .init h p, .tick => some (initStep m l i h p)
  | .assoc h, .ans true => some (m, Local.goto l (.accOn i (.join h)))
  | .assoc _, .ans false => some (m, Local.goto l (.accOn i .stop))
  | .join h, .tick =>
    let m' : Mem := { m with issued := (m.sess i).sessionID :: m.issued }
    some (m'.onHist i fun x => { x with joined := true }, Local.goto l (.accOn i (.joining h)))
  | .joining h, .ret => some (m, Local.goto l (.accOn i (.recv h)))
  | .joining _, c => contentsStep m l c
  | .recv h, .io .done =>
    some (m.postIo i false h (freeSize m i) false, Local.goto l (.acc .accept))
  | .recv h, .io .pending =>
    some (m.postIo i false h (freeSize m i) true,
      Local.goto l (.accOn i (.pend m.ioNum)))
  | .recv _, .io .error => some (m, Local.goto l (.accOn i .fail))
  | .pend n, .tick =>
    if (m.sess i).socket = invalidSocket then some (m, Local.goto l (.accOn i (.cancel n)))
    else some (m, Local.goto l (.acc .accept))
  | .cancel _, .tick => some (m.cancelIoEx (m.sess i).relSocket, Local.goto l (.acc .accept))
  | .fail, .tick =>
    let m' := m.onSess i fun s => { s with ioCount := s.ioCount - 1 }
    if (m.sess i).ioCount - 1 = 0 then some (m', Local.goto l (.rel i .cas true))
    else some (m', Local.goto l (.acc .accept))
  | _, _ => none

/-- `SendPost` on slot `i`. A `Dequeue` that finds nothing leaves the array as it is. -/
def sendStep (m : Mem) (l : Local) (i : ℕ) : SendPc → Choice → Option (Mem × Local)
  | .size cnt, .tick =>
    if (m.sess i).sendQ.length = 0 then some (m, Local.goto l (.work i .dec))
    else some (m, Local.goto l (.work i (.send (.xchg cnt))))
  | .xchg cnt, .tick =>
    let m' := m.onSess i fun s => { s with sendFlag := 1 }
    if (m.sess i).sendFlag = 1 then some (m', Local.goto l (.work i .dec))
    else some (m', Local.goto l (.work i (.send (.use cnt))))
  | .use cnt, .tick =>
    if (m.sess i).sendQ.length = 0 then some (m, Local.goto l (.work i (.send (.unlock cnt))))
    else some (m, Local.goto l (.work i (.send (.gather 0 (min (m.sess i).sendQ.length maxBuf) []))))
  | .unlock cnt, .tick =>
    let m' := m.onSess i fun s => { s with sendFlag := 0 }
    if cnt + 1 = 2 then some (m', Local.goto l (.work i .dec))
    else some (m', Local.goto l (.work i (.send (.size (cnt + 1)))))
  | .gather j n bufs, .tick =>
    if j < n then
      match (m.sess i).sendQ with
      | e :: q =>
        some ((m.onSess i fun s =>
            { s with sendQ := q, sendPacketArr := Function.update s.sendPacketArr j e }).onHist i
            fun h => { h with gath := h.gath ++ [e], owned := h.owned ++ [e] },
          Local.goto l (.work i (.send (.gather (j + 1) n
            (bufs ++ [(e, (m.packet e.pkt).getTotalSize)])))))
      | [] =>
        some (m, Local.goto l (.work i (.send (.gather (j + 1) n (bufs ++
          [((m.sess i).sendPacketArr j,
            (m.packet ((m.sess i).sendPacketArr j).pkt).getTotalSize)])))))
    else some (m, Local.goto l (.work i (.send (.setCnt n bufs))))
  | .setCnt n bufs, .tick =>
    some (m.onSess i fun s => { s with sendCnt := n }, Local.goto l (.work i (.send (.inc bufs))))
  | .inc bufs, .tick =>
    some (m.onSess i fun s => { s with ioCount := s.ioCount + 1 },
      Local.goto l (.work i (.send (.load bufs))))
  | .load bufs, .tick => some (m, Local.goto l (.work i (.send (.send (m.sess i).socket bufs))))
  | .send _ bufs, .io .error =>
    some (m.onHist i fun h => { h with
        sent := h.sent ++ [bufs.map Prod.fst], gath := [], latch := h.latch + 1, failed := true },
      Local.goto l (.work i (.send .fail)))
  | .send s bufs, .io .done =>
    if s = invalidSocket then none
    else some ((m.onHist i fun h => { h with
        sent := h.sent ++ [bufs.map Prod.fst], gath := [] }).postIo i true s 0 false,
      Local.goto l (.work i .dec))
  | .send s bufs, .io .pending =>
    if s = invalidSocket then none
    else some ((m.onHist i fun h => { h with
        sent := h.sent ++ [bufs.map Prod.fst], gath := [] }).postIo i true s 0 true,
      Local.goto l (.work i (.send (.pend m.ioNum))))
  | .pend n, .tick =>
    if (m.sess i).socket = invalidSocket then some (m, Local.goto l (.work i (.send (.cancel n))))
    else some (m, Local.goto l (.work i .dec))
  | .cancel _, .tick => some (m.cancelIoEx (m.sess i).relSocket, Local.goto l (.work i .dec))
  | .fail, .tick =>
    some (m.onSess i fun s => { s with ioCount := s.ioCount - 1 }, Local.goto l (.work i .dec))
  | _, _ => none

/-- `RecvPost` on slot `i`. Its two branches differ in the number of buffers only. -/
def postStep (m : Mem) (l : Local) (i : ℕ) : PostPc → Choice → Option (Mem × Local)
  | .inc, .tick =>
    some (m.onSess i fun s => { s with ioCount := s.ioCount + 1 },
      Local.goto l (.work i (.post .load)))
  | .load, .tick => some (m, Local.goto l (.work i (.post (.recv (m.sess i).socket))))
  | .recv _, .io .error => some (m, Local.goto l (.work i (.post .fail)))
  | .recv s, .io .done =>
    if s = invalidSocket then none
    else some (m.postIo i false s (freeSize m i) false,
      Local.goto l (.work i .dec))
  | .recv s, .io .pending =>
    if s = invalidSocket then none
    else some (m.postIo i false s (freeSize m i) true,
      Local.goto l (.work i (.post (.pend m.ioNum))))
  | .pend n, .tick =>
    if (m.sess i).socket = invalidSocket then some (m, Local.goto l (.work i (.post (.cancel n))))
    else some (m, Local.goto l (.work i .dec))
  | .cancel _, .tick => some (m.cancelIoEx (m.sess i).relSocket, Local.goto l (.work i .dec))
  | .fail, .tick =>
    some (m.onSess i fun s => { s with ioCount := s.ioCount - 1 }, Local.goto l (.work i .dec))
  | _, _ => none

/-- The receive branch of the worker, up to `RecvPost`. -/
def recvStep (m : Mem) (l : Local) (i : ℕ) : RecvPc → Choice → Option (Mem × Local)
  | .moveRear d ser, .tick =>
    if (m.sess i).recvQ.length + d.length ≤ recvCap then
      some (m.onSess i fun s => { s with recvQ := s.recvQ ++ d.map fun b => (b, ser) },
        Local.goto l (.work i (.recv .size)))
    else none
  | .size, .tick =>
    if (m.sess i).recvQ.length < headerSize then some (m, Local.goto l (.work i (.post .inc)))
    else some (m, Local.goto l (.work i (.recv .peek)))
  | .peek, .tick =>
    let h := NetHeader.ofBytes (((m.sess i).recvQ.take headerSize).map Prod.fst)
    if h.code ≠ packetCode then some (m, Local.goto l (.work i (.recv .disconnect)))
    else some (m, Local.goto l (.work i (.recv (.full h))))
  | .full h, .tick =>
    if (m.sess i).recvQ.length < headerSize + h.len then
      some (m, Local.goto l (.work i (.post .inc)))
    else some (m, Local.goto l (.work i (.recv (.alloc h))))
  | .alloc h, .alloc p => allocPacket m (Local.goto l (.work i (.recv (.dequeue h p)))) p
  | .dequeue h p, .tick =>
    match Packet.poke (m.packet p).pBuffer 0
      (((m.sess i).recvQ.take (headerSize + h.len)).map Prod.fst) with
    | some b =>
      some ((m.onSess i fun s => { s with recvQ := s.recvQ.drop (headerSize + h.len) }).onPacket p
        fun q => (Packet.moveWritePos { q with pBuffer := b } h.len).2,
        Local.goto l (.work i (.recv (.decode p))))
    | none => none
  | .decode p, .tick =>
    match (m.packet p).decode with
    | some (true, q) => some (m.onPacket p fun _ => q, Local.goto l (.work i (.recv (.onRecv p))))
    | some (false, q) => some (m.onPacket p fun _ => q, Local.goto l (.work i (.recv (.bad p))))
    | none => none
  | .onRecv p, .ret => some (m, Local.goto l (.work i (.recv (.free p))))
  | .onRecv _, c => contentsStep m l c
  | .free p, .tick =>
    some (freePacket m (Local.goto { l with holds := l.holds.erase p } (.work i (.recv .size))) p)
  | .bad p, .tick =>
    some (freePacket m (Local.goto { l with holds := l.holds.erase p } (.work i (.recv .disconnect)))
      p)
  | .disconnect, .tick =>
    let id := (m.sess i).sessionID
    some (m, Local.call (Local.goto l (.work i (.recv .disconnected)))
      (.on (slotOf id) id (.enter .disconnect)))
  | .disconnected, .tick => some (m, Local.goto l (.work i (.post .inc)))
  | _, _ => none

/-- The point a job leads to past the test of the socket. -/
def dispatch (i : ℕ) : Job → Pc
  | .sendPost => .work i (.send (.size 0))
  | .release => .rel i .cas false
  | .sendDone _ => .work i .readCnt
  | .recvDone d ser => .work i (.recv (.moveRear d ser))

/-- A send that completes past the test is not the session's to complete any more. -/
def skipJob (m : Mem) (i : ℕ) : Job → Mem
  | .sendDone n => m.onHist i fun h =>
      { h with latch := h.latch + 1, failed := h.failed || n == 0 }
  | _ => m

/-- `IOCPWorkerThread` with a job for slot `i`. -/
def workStep (m : Mem) (l : Local) (i : ℕ) : WorkPc → Choice → Option (Mem × Local)
  | .entry j, .tick =>
    if j.transferred ≠ 0 ∧ (m.sess i).socket ≠ invalidSocket then
      some (m, Local.goto l (dispatch i j))
    else some (skipJob m i j, Local.goto l (.work i .dec))
  | .readCnt, .tick => some (m, Local.goto l (.work i (.zeroCnt (m.sess i).sendCnt)))
  | .zeroCnt bk, .tick =>
    some (m.onSess i fun s => { s with sendCnt := 0 }, Local.goto l (.work i (.freeArr 0 bk)))
  | .freeArr j bk, .tick =>
    if j < bk then
      let e := (m.sess i).sendPacketArr j
      some (freePacket (m.onHist i fun h =>
        { h with owned := h.owned.tail, dropped := h.dropped ++ [e] })
        (Local.goto l (.work i (.freeArr (j + 1) bk))) e.pkt)
    else some (m, Local.goto l (.work i .unlock))
  | .unlock, .tick =>
    some (m.onSess i fun s => { s with sendFlag := 0 }, Local.goto l (.work i (.send (.size 0))))
  | .send p, c => sendStep m l i p c
  | .recv p, c => recvStep m l i p c
  | .post p, c => postStep m l i p c
  | .dec, .tick =>
    let m' := m.onSess i fun s => { s with ioCount := s.ioCount - 1 }
    if (m.sess i).ioCount - 1 = 0 then some (m', Local.goto l (.rel i .cas false))
    else some (m', Local.goto l .gqcs)
  | _, _ => none

/-- Where `ReleaseSession` returns to. -/
def relBack (accept : Bool) : Pc := if accept then .acc .accept else .gqcs

/-- `ReleaseSession` on slot `i`. -/
def relStep (m : Mem) (l : Local) (i : ℕ) (a : Bool) : RelPc → Choice → Option (Mem × Local)
  | .cas, .tick =>
    if (m.sess i).ioCount = 0 ∧ (m.sess i).releaseFlag = 0 then
      some ((m.onSess i fun s => { s with releaseFlag := 1 }).onHist i
        fun h => { h with phase := .rel, bodies := h.bodies + 1 }, Local.goto l (.rel i .drain a))
    else some (m, Local.goto l (relBack a))
  | .drain, .tick =>
    match (m.sess i).sendQ with
    | [] => some (m, Local.goto l (.rel i .readCnt a))
    | e :: q => some (m.onSess i fun s => { s with sendQ := q }, Local.goto l (.rel i (.drainFree e) a))
  | .drainFree e, .tick =>
    some (freePacket (m.onHist i fun h => { h with dropped := h.dropped ++ [e] })
      (Local.goto l (.rel i .drain a)) e.pkt)
  | .readCnt, .tick => some (m, Local.goto l (.rel i (.freeArr 0 (m.sess i).sendCnt) a))
  | .freeArr j bk, .tick =>
    if j < bk then
      let e := (m.sess i).sendPacketArr j
      some (freePacket (m.onHist i fun h =>
        { h with owned := h.owned.tail, dropped := h.dropped ++ [e] })
        (Local.goto l (.rel i (.freeArr (j + 1) bk) a)) e.pkt)
    else some (m, Local.goto l (.rel i .close a))
  | .close, .tick =>
    some ({ m with socks := m.socks.erase (m.sess i).relSocket }, Local.goto l (.rel i .leave a))
  | .leave, .tick => some (m, Local.goto l (.rel i .leaving a))
  | .leaving, .ret => some (m, Local.goto l (.rel i .push a))
  | .leaving, c => contentsStep m l c
  | .push, .tick =>
    let m' : Mem := { m with freeStack := slotOf (m.sess i).sessionID :: m.freeStack }
    some (m'.onHist i fun h => { h with phase := .free }, Local.goto l (.rel i .decNow a))
  | .decNow, .tick => some ({ m with nowSession := m.nowSession - 1 }, Local.goto l (relBack a))
  | _, _ => none

/-- One step of a thread. -/
def lstep (m : Mem) (l : Local) (c : Choice) : Option (Mem × Local) :=
  match l.drop with
  | some p =>
    if c = .tick then
      some ((m.onPacket p Packet.clear).onPool p (· + 1), { l with drop := none })
    else none
  | none =>
    match l.api with
    | .on i id p => apiStep m l i id p c
    | .idle =>
      match l.pc with
      | .ext => contentsStep m l c
      | .acc p => acceptStep m l p c
      | .accOn i p => accOnStep m l i p c
      | .gqcs =>
        match m.queue, c with
        | (i, j) :: q, .tick => some ({ m with queue := q }, Local.goto l (.work i (.entry j)))
        | _, _ => none
      | .work i p => workStep m l i p c
      | .rel i p a => relStep m l i a p c

/-! ### The machine -/

/-- An action: a step of a thread, the completion of a posted operation with `n` bytes sent or
the bytes `d` received, or a packet that one thread's contents code passes to another's. -/
inductive Act (τ : Type*)
  | run (t : τ) (c : Choice)
  | complete (io : IoReq) (n : ℕ) (d : List UInt8)
  | give (t u : τ) (p : ℕ)

/-- The completion that an operation queues. -/
def IoReq.done (io : IoReq) (n : ℕ) (d : List UInt8) : Job :=
  if io.send then .sendDone n else .recvDone d io.ser

variable {τ : Type*} [DecidableEq τ]

def step (c : Config τ) : Act τ → Option (Config τ)
  | .run t ch => (lstep c.mem (c.loc t) ch).map fun r => ⟨r.1, Function.update c.loc t r.2⟩
  | .complete io n d =>
    if io ∈ c.mem.inflight ∧ (io.send = true ∨ d.length ≤ io.len) then
      let m : Mem := { c.mem with inflight := c.mem.inflight.erase io }
      some { c with mem := m.enqueue io.slot (IoReq.done io n d) }
    else none
  | .give t u p =>
    if t ≠ u ∧ Local.callback (c.loc t) ∧ Local.callback (c.loc u) ∧
        (c.loc t).api = .idle ∧ (c.loc u).api = .idle ∧ p ∈ Local.spare (c.loc t) then
      let f := Function.update c.loc t { (c.loc t) with holds := (c.loc t).holds.erase p }
      some { c with loc := Function.update f u { (c.loc u) with holds := p :: (c.loc u).holds } }
    else none

/-- The memory that `new SESSION[maxUser]` and the packet pool start from: only `ioCount` and
the two queues of a slot are initialised, and a pooled packet has been constructed. -/
structure Boot where
  maxUser : ℕ
  sess : ℕ → Session
  bytes : ℕ → List UInt8
  maxUser_le : maxUser ≤ 65535
  bytes_length : ∀ p, (bytes p).length = defaultSize

/-- A slot before its first accept. -/
def freshHist : Hist where
  phase := .free
  ever := false
  ser := 0
  handle := 0
  joined := false
  marked := false
  cancelled := false
  enqd := []
  gath := []
  sent := []
  owned := []
  dropped := []
  latch := 0
  failed := false
  bodies := 0

def bootMem (b : Boot) : Mem where
  sess i := { b.sess i with ioCount := 0, sendQ := [], recvQ := [] }
  hist _ := freshHist
  packet p := Packet.construct (b.bytes p)
  pool _ := 1
  queue := []
  inflight := []
  ioNum := 0
  freeStack := (List.range b.maxUser).reverse
  nowSession := 0
  sessionCnt := 0
  maxUser := b.maxUser
  issued := []
  socks := []
  serial := 0

/-- Thread `a` accepts, the threads that `w` says are workers, the others run contents code. -/
def boot (b : Boot) (a : τ) (w : τ → Bool) : Config τ where
  mem := bootMem b
  loc t := ⟨if t = a then .acc .accept else if w t then .gqcs else .ext, .idle, none, []⟩

end LoginServerChat.NetStep
