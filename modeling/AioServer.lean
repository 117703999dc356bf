import AioServer.Allocator
import AioServer.Lib.Custody
import AioServer.Lib.Ledger
import AioServer.Lib.Lts
import AioServer.Lib.Ring
import AioServer.LinkedList.Lifetime
import AioServer.LinkedList.Locked
import AioServer.Linux.Accept
import AioServer.Linux.Accepted
import AioServer.Linux.Clients
import AioServer.Linux.Close
import AioServer.Linux.DebugOutput
import AioServer.Linux.Drain
import AioServer.Linux.Rollback
import AioServer.Linux.Termination
import AioServer.StatsLock
import AioServer.Windows.Access
import AioServer.Windows.ArgumentVector
import AioServer.Windows.ClientList
import AioServer.Windows.Configuration
import AioServer.Windows.Exchange
import AioServer.Windows.Extension
import AioServer.Windows.LiveStats
import AioServer.Windows.OpState
import AioServer.Windows.Path
import AioServer.Windows.Recycle
import AioServer.Windows.Resources
import AioServer.Windows.Segments
import AioServer.Windows.Service
import AioServer.Windows.Settings
import AioServer.Windows.Shutdown
import AioServer.Windows.Startup
import AioServer.Windows.Stuck
import AioServer.Windows.Termination
import AioServer.Windows.TokenBounds
import AioServer.Windows.Transmit
import AioServer.Windows.TryPostAccept
import AioServer.Windows.WorkerArray
