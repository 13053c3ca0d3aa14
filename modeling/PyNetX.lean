import PyNetX.Lib.Search
import PyNetX.Lib.Drain
import PyNetX.Lib.Run
import PyNetX.Lib.Fifo
import PyNetX.Lib.Throwing
import PyNetX.Lib.Mutex
import PyNetX.Lib.FirstLeast
import PyNetX.Lib.Tally
import PyNetX.Lib.Evicting
import PyNetX.Lib.While
import PyNetX.Lib.Outbox
import PyNetX.Lib.LeadsTo
import PyNetX.Lib.Monitor
import PyNetX.Lib.Serial
import PyNetX.Lib.LockOrder
import PyNetX.Lib.LeastLoaded
import PyNetX.Bytes
import PyNetX.Scanner
import PyNetX.Client
import PyNetX.Xml
import PyNetX.Queue
import PyNetX.Parser
import PyNetX.Segments
import PyNetX.Accounting
import PyNetX.Reads
import PyNetX.Framing
import PyNetX.Recovery
import PyNetX.Orphan
import PyNetX.QueueRun
import PyNetX.FullState
import PyNetX.Transport
import PyNetX.Rpc
import PyNetX.Pairing
import PyNetX.LockedEdit
import PyNetX.Subscribe
import PyNetX.ThreadPool
import PyNetX.PoolTasks
import PyNetX.PoolStop
import PyNetX.PoolIdle
import PyNetX.EventBus
import PyNetX.EventOrder
import PyNetX.BusRun
import PyNetX.Manager
import PyNetX.ManagerInv
import PyNetX.SetReactorCount
import PyNetX.Reconfigure
import PyNetX.Lifecycle
import PyNetX.Ownership
import PyNetX.Isolation
import PyNetX.Connecting
import PyNetX.SubscribeFailure
import PyNetX.Handles
import PyNetX.HandleOrder
import PyNetX.ActiveFlag
import PyNetX.WrapFuture
import PyNetX.DropReports
import PyNetX.SessionMode
import PyNetX.Wire
import PyNetX.BlockingReader
import PyNetX.NormalForm
import PyNetX.Callbacks
import PyNetX.CallbackRun
import PyNetX.Silence
import PyNetX.StartTags
import PyNetX.Dispatcher
import PyNetX.WhiteSpace
import PyNetX.MainSession
import PyNetX.ConnectBudget
import PyNetX.Delivery
import PyNetX.BusWakeups
import PyNetX.QueueWakeups
import PyNetX.PoolLive
import PyNetX.AsyncCall
import PyNetX.AwaitLive
import PyNetX.HandleRelease
import PyNetX.ReactorLoad
import PyNetX.Requests
import PyNetX.ReadTimeout
import PyNetX.BlockingReceive
import PyNetX.Subscription
import PyNetX.RpcThreads
import PyNetX.LockScopes
