import NetFrame.Accepting
import NetFrame.ActiveHandlers
import NetFrame.Alternation
import NetFrame.Balance
import NetFrame.BufferMemory
import NetFrame.ByteDeque
import NetFrame.Closing
import NetFrame.Descriptors
import NetFrame.Disabling
import NetFrame.Dispatch
import NetFrame.EventLoop
import NetFrame.EventLoopThread
import NetFrame.FindCRLF
import NetFrame.InetAddress
import NetFrame.InputStream
import NetFrame.Joining
import NetFrame.Lifecycle
import NetFrame.Lockstep
import NetFrame.MessageStream
import NetFrame.MutexLock
import NetFrame.Names
import NetFrame.OutputStream
import NetFrame.Ownership
import NetFrame.Peers
import NetFrame.PollingServer
import NetFrame.QueueLock
import NetFrame.QuitEnds
import NetFrame.Quitting
import NetFrame.Senders
import NetFrame.SendPaths
import NetFrame.Shutdown
import NetFrame.StartLoop
import NetFrame.StartLoopProgress
import NetFrame.Teardown
import NetFrame.ThreadPool
import NetFrame.TypedInts
