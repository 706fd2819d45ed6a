import LibNet.Runs.Cells
import LibNet.Runs.Ledger
import LibNet.Runs.Lock
import LibNet.Runs.Logged
import LibNet.Runs.Loop
import LibNet.Runs.Machine
import LibNet.Runs.Objects
import LibNet.Runs.Recording
import LibNet.Runs.Settle
import LibNet.Runs.Threads
import LibNet.Base.Buffer
import LibNet.Base.BufferRuns
import LibNet.Base.ThreadPool
import LibNet.Base.ThreadPoolRequests
import LibNet.Base.ThreadPoolWakeups
import LibNet.Base.ThreadPoolDrain
import LibNet.Base.SocketUtil
import LibNet.Base.SocketTimeouts
import LibNet.Base.ReadWriteRuns
import LibNet.Base.Readline
import LibNet.Base.ReadlineRuns
import LibNet.Base.ReadlineBounds
import LibNet.Base.MessageTransfer
import LibNet.Base.IpcSem
import LibNet.Base.IpcSemTable
import LibNet.Base.IpcSemProgress
import LibNet.Base.IpcShm
import LibNet.Net.TcpSocket
import LibNet.Net.SendBuf
import LibNet.Net.TcpTaskPool
import LibNet.Net.TaskTables
import LibNet.Base.ThreadPoolQueue
import LibNet.Net.Server
import LibNet.Net.ServerTables
import LibNet.Net.ServerSteps
import LibNet.Net.ServerRuns
import LibNet.Net.ServerMessages
import LibNet.Net.EventOrder
import LibNet.Net.Lifecycle
import LibNet.Net.Turns
import LibNet.Net.RepliesInTurn
import LibNet.Net.ReplyRouting
import LibNet.Net.ReceivedBytes
import LibNet.Net.ByteIsolation
import LibNet.Net.Descriptors
import LibNet.Net.PeerClose
import LibNet.Net.ServerRest
import LibNet.Net.EdgeTriggered
import LibNet.Net.AcceptQueue
import LibNet.Net.TableIndices
import LibNet.Net.ReplyBuffers
import LibNet.Net.UndoLock
import LibNet.Net.RecvTasks
import LibNet.Net.RecvBuf
import LibNet.Net.Resend
import LibNet.Net.SendOnce
import LibNet.Net.RefusedConnect
import LibNet.Net.MessageSize
import LibNet.Net.FreeStack
import LibNet.Net.SocketReuse
import LibNet.Db.MyDB
import LibNet.Db.Statements
import LibNet.Db.ResultText
import LibNet.Text.Json
import LibNet.Db.ResultJson
import LibNet.Db.TableName
import LibNet.Db.ResultGrid
import LibNet.Runs.Commands
import LibNet.Net.Locking
import LibNet.Net.Streams
import LibNet.Net.StreamDelivery
import LibNet.Net.Echo
import LibNet.Net.Patience
import LibNet.Net.ReadOut
import LibNet.Net.EchoRuns
import LibNet.Runs.Refine
import LibNet.Net.Pooled
import LibNet.Net.PooledRuns
