import LoginServerChat.PacketRefs
import LoginServerChat.SlotWake
import LoginServerChat.RingFifo
import LoginServerChat.PacketHistory
import LoginServerChat.LoginLeftovers
import LoginServerChat.RecvScatter
import LoginServerChat.RecvOverrun
import LoginServerChat.RecvLeave
import LoginServerChat.StaleIds
import LoginServerChat.Restart
import LoginServerChat.QueueEmpty
import LoginServerChat.StackRun
import LoginServerChat.PoolRun
import LoginServerChat.ChunkRun
import LoginServerChat.LoginResults
import LoginServerChat.PacketBytes
import LoginServerChat.PacketTypes
import LoginServerChat.RingResize
import LoginServerChat.RingZero
import LoginServerChat.ChunkQuota
import LoginServerChat.PoolExhaustion
import LoginServerChat.AcceptUndo
import LoginServerChat.QueuesMarks
import LoginServerChat.StackProgress
import LoginServerChat.PoolProgress
import LoginServerChat.QueueProgress
import LoginServerChat.SocketOwners
import LoginServerChat.Quiescence
import LoginServerChat.RecvRoom
import LoginServerChat.Progress
import LoginServerChat.SendStream
import LoginServerChat.LoginRests
import LoginServerChat.LoginServed
