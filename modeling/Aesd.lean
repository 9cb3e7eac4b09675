import Aesd.Foundation.Exec
import Aesd.Foundation.MachineInt
import Aesd.Foundation.Run
import Aesd.Foundation.Heap
import Aesd.Foundation.CString
import Aesd.Foundation.Lines
import Aesd.Foundation.BoundedQueue
import Aesd.Foundation.Segments
import Aesd.Foundation.Tally
import Aesd.Foundation.Settles
import Aesd.Foundation.Draining
import Aesd.Foundation.Service
import Aesd.Foundation.Ledger
import Aesd.Foundation.Following
import Aesd.Foundation.Window
import Aesd.Foundation.Handles
import Aesd.Foundation.FileTable
import Aesd.Foundation.Objects
import Aesd.Foundation.DoublyLinked
import Aesd.Foundation.Owner
import Aesd.Ring.CircularBuffer
import Aesd.Ring.BoundedQueue
import Aesd.Ring.Lookup
import Aesd.Ring.Translations
import Aesd.Ring.PastEnd
import Aesd.Driver.Device
import Aesd.Driver.Log
import Aesd.Driver.Ownership
import Aesd.Driver.WriteEffect
import Aesd.Driver.Contents
import Aesd.Driver.ReadEffect
import Aesd.Driver.Runs
import Aesd.Driver.StreamLaw
import Aesd.Driver.FailedWrite
import Aesd.Driver.Cleanup
import Aesd.Driver.SeekContract
import Aesd.Driver.ReadLaw
import Aesd.Driver.DebugCopy
import Aesd.Driver.SeekAgreement
import Aesd.Driver.ErrorReporting
import Aesd.Driver.ReaderLaw
import Aesd.Driver.Lifecycle
import Aesd.Monitor.Threads
import Aesd.Monitor.Counters
import Aesd.Monitor.Exclusion
import Aesd.Monitor.Wakeup
import Aesd.Monitor.Drain
import Aesd.Monitor.Waiting
import Aesd.Monitor.Abandoned
import Aesd.Queue.DoublyLinkedList
import Aesd.Queue.Deque
import Aesd.Queue.Refinement
import Aesd.Queue.Lookup
import Aesd.Queue.Splice
import Aesd.Server.Os
import Aesd.Server.Aesdsocket
import Aesd.Server.LineBuffer
import Aesd.Server.SystemCalls
import Aesd.Server.Reception
import Aesd.Server.Framing
import Aesd.Server.Clients
import Aesd.Server.Machine
import Aesd.Server.ReadLine
import Aesd.Server.SendLine
import Aesd.Server.Relay
import Aesd.Server.RegularFile
import Aesd.Server.CharFile
import Aesd.Server.SeekCommand
import Aesd.Server.Serve
import Aesd.Server.DeviceReply
import Aesd.Server.FileCalls
import Aesd.Server.WrittenLine
import Aesd.Server.Recognition
import Aesd.Server.CommandBuffer
import Aesd.Server.Interleaving
import Aesd.Server.Mainloop
import Aesd.Server.Obligations
import Aesd.Server.Handover
import Aesd.Server.ConnectionResources
import Aesd.Server.LineOwnership
import Aesd.Server.PartialWrites
import Aesd.Server.Sessions
import Aesd.Server.DeviceSessions
import Aesd.Server.FileSessions
import Aesd.Server.Program
import Aesd.Server.ProgramRuns
import Aesd.Server.ProgramResources
import Aesd.Server.Shutdown
import Aesd.Server.SharedFile
import Aesd.Server.Descriptors
import Aesd.Server.Timestamp
import Aesd.Server.StampedSessions
import Aesd.Server.Daemon
import Aesd.Server.Signals
import Aesd.Server.Termination
import Aesd.Server.Alarms
import Aesd.Server.ClientRuns
import Aesd.Server.Joining
import Aesd.Systemcalls.DoExec
import Aesd.Threading.Threadfunc
