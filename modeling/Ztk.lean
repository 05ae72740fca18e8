import Ztk.Lib.Machine
import Ztk.Lib.Chain
import Ztk.Lib.BinaryHeap
import Ztk.Lib.Lifetime
import Ztk.Lib.Threaded
import Ztk.Lib.KeyedList
import Ztk.Lib.Tally
import Ztk.Lib.Custody
import Ztk.Lib.Block
import Ztk.Lib.Trace
import Ztk.Lib.Roster
import Ztk.Lib.Serial
import Ztk.Lib.Files
import Ztk.Lib.Ledger
import Ztk.Err
import Ztk.Poller.Task
import Ztk.Poller.TaskDeque
import Ztk.Poller.Wakeup
import Ztk.Poller.TimerHeap
import Ztk.Poller.TimerHeapOps
import Ztk.Poller.Timer
import Ztk.Poller.TimerCancel
import Ztk.Poller.TimerSafety
import Ztk.Poller.TimerLeak
import Ztk.Poller.TimerLock
import Ztk.Poller.TimerFlush
import Ztk.Poller.TimerWait
import Ztk.Poller.TimerDates
import Ztk.Poller.TimerDue
import Ztk.Poller.TimerCalls
import Ztk.Poller.TimerEarly
import Ztk.Poller.TimerSchedule
import Ztk.Poller.FdRegistry
import Ztk.Poller.Dispatch
import Ztk.Poller.EpollTurn
import Ztk.Poller.SelectTurn
import Ztk.Poller.PollerLoad
import Ztk.Util.Mpsc
import Ztk.Util.MpscFifo
import Ztk.Util.MpscRuns
import Ztk.Util.MpscSerial
import Ztk.Util.Buf
import Ztk.Util.BufPool
import Ztk.Util.BufPoolRuns
import Ztk.Util.BufStale
import Ztk.Util.BufRefcount
import Ztk.Util.BufAlloc
import Ztk.Util.ByteBuf
import Ztk.Util.ByteBufWrap
import Ztk.Util.Timer
import Ztk.Util.Log
import Ztk.Thread.ThreadPool
import Ztk.Thread.ThreadPoolStart
import Ztk.Thread.ThreadPoolNodes
import Ztk.Poller.PollerPool
import Ztk.Poller.PoolTeardown
import Ztk.Poller.PoolPick
import Ztk.Net.Session
import Ztk.Net.SessionRefs
import Ztk.Net.SessionMeter
import Ztk.Net.SessionStream
import Ztk.Net.SessionSend
import Ztk.Net.SessionRuns
import Ztk.Net.SessionWorld
import Ztk.Net.SessionOutput
import Ztk.Net.SessionRegistry
import Ztk.Net.SessionTeardown
import Ztk.Net.ManagerPass
import Ztk.Net.Socket
import Ztk.Net.SockWin32
import Ztk.Net.SocketRegistry
import Ztk.Net.TcpServer
import Ztk.Net.ManagerDriver
import Ztk.Net.ServerRollback
import Ztk.Net.UdpServer
import Ztk.Net.TcpClient
import Ztk.Net.TcpSend
import Ztk.Net.TlsClient
import Ztk.Net.SocketPoll
import Ztk.Net.TlsOrder
import Ztk.Net.TlsSend
import Ztk.Net.TlsPoll
import Ztk.Net.TlsClose
import Ztk.Net.TlsName
import Ztk.Net.TlsHandle
import Ztk.Net.RtpPort
import Ztk.Net.UdpReceive
import Ztk.Net.SessionFlush
import Ztk.Lib.Flags
import Ztk.Lib.RedBlack
import Ztk.Thread.Sem
import Ztk.Thread.SemNative
import Ztk.Wepoll.Reflock
import Ztk.Wepoll.EpollHandles
import Ztk.Wepoll.Events
import Ztk.Wepoll.PollGroup
import Ztk.Wepoll.Port
import Ztk.Wepoll.PortSafety
import Ztk.Wepoll.PortHandle
import Ztk.Wepoll.PortRuns
import Ztk.Wepoll.PortTimeout
import Ztk.Wepoll.Tree
import Ztk.Wepoll.TreeShape
import Ztk.Wepoll.TreeMend
import Ztk.Wepoll.TreeOps
import Ztk.Wepoll.TreeDel
import Ztk.Wepoll.TreeRuns
import Ztk.Lib.Mixing
import Ztk.Lib.Ring
import Ztk.Poller.PoolKey
import Ztk.Wepoll.PortSet
import Ztk.Wepoll.Queue
import Ztk.Poller.PollerWepoll
