import EventEngine.Concurrency.Process
import EventEngine.Concurrency.RelyGuarantee
import EventEngine.Concurrency.Transition
import EventEngine.Concurrency.Thread
import EventEngine.Concurrency.Alike
import EventEngine.Memory.Alignment
import EventEngine.Memory.Bytes
import EventEngine.Memory.Span
import EventEngine.Memory.ReleaseAcquire
import EventEngine.Posix.Table
import EventEngine.Posix.Kernel
import EventEngine.Posix.Ledger
import EventEngine.Event
import EventEngine.Ring.Layout
import EventEngine.Ring.Sizing
import EventEngine.Ring.Handle
import EventEngine.Ring.Setup
import EventEngine.Ring.Footprint
import EventEngine.Ring.Contents
import EventEngine.Ring.Invariant
import EventEngine.Ring.Protocol
import EventEngine.Ring.Publish
import EventEngine.Ring.Acquire
import EventEngine.Ring.Attach
import EventEngine.Ring.Initialize
import EventEngine.Ring.Client
import EventEngine.Ring.Calls
import EventEngine.Ring.ClientInvariant
import EventEngine.Ring.ClientLog
import EventEngine.Ring.System
import EventEngine.Ring.Queue
import EventEngine.Ring.Ownership
import EventEngine.Ring.Closure
import EventEngine.Ring.Sequential
import EventEngine.Ring.Rejected
import EventEngine.Ring.Replace
import EventEngine.Ring.Hostile
import EventEngine.Ring.Operate
import EventEngine.Ring.Drain
import EventEngine.Ring.ReadCursor
import EventEngine.Shm.Segment
import EventEngine.Shm.Contracts
import EventEngine.Shm.Handles
import EventEngine.Shm.Custody
import EventEngine.Shm.Names
import EventEngine.Shm.Releases
import EventEngine.Protocol.ByteIo
import EventEngine.Protocol.Codec
import EventEngine.Protocol.RoundTrip
import EventEngine.Protocol.Grammar
import EventEngine.Protocol.Stores
import EventEngine.Protocol.Reads
import EventEngine.Transport
import EventEngine.Receiver.GapDetector
import EventEngine.Receiver.GapHistory
import EventEngine.Receiver.Run
import EventEngine.Receiver.Accounts
import EventEngine.Receiver.Counters
import EventEngine.Receiver.System
import EventEngine.Receiver.Delivery
import EventEngine.Receiver.Rejection
import EventEngine.Receiver.Interference
import EventEngine.Sender.Run
import EventEngine.Sender.Trace
import EventEngine.Sender.System
import EventEngine.Sender.Attempts
import EventEngine.Sender.Counters
import EventEngine.Sender.Buffer
import EventEngine.Engine.System
import EventEngine.Engine.EndToEnd
import EventEngine.Concurrency.Progress
import EventEngine.Ring.Remaining
import EventEngine.Ring.Construction
import EventEngine.Ring.Startup
import EventEngine.Sender.Turns
import EventEngine.Sender.TurnCount
import EventEngine.Sender.Draining
import EventEngine.Concurrency.Within
import EventEngine.Receiver.Object
import EventEngine.Receiver.Contracts
import EventEngine.Receiver.Receivers
import EventEngine.Receiver.Slots
import EventEngine.Receiver.Custody
import EventEngine.Receiver.Lifecycle
import EventEngine.Ring.Accesses
import EventEngine.Ring.Views
import EventEngine.Ring.WeakSystem
import EventEngine.Ring.WeakInvariant
import EventEngine.Ring.WeakQueue
import EventEngine.Engine.Relay
import EventEngine.Engine.Network
import EventEngine.Posix.Residents
import EventEngine.Sender.Object
import EventEngine.Ring.Consumer
import EventEngine.Sender.Contracts
import EventEngine.Sender.Senders
import EventEngine.Sender.Lifecycle
import EventEngine.Concurrency.Budget
import EventEngine.Ring.WaitFree
import EventEngine.Sender.Prompt
import EventEngine.Receiver.Prompt
import EventEngine.Transport.Socket
import EventEngine.Receiver.Datagrams
import EventEngine.Receiver.Progress
