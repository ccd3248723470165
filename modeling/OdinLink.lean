import OdinLink.Daemon.FetchCopies
import OdinLink.Daemon.LeftoverReads
import OdinLink.Daemon.PathIdentity
import OdinLink.Daemon.Quiescence
import OdinLink.Daemon.SharedFolder
import OdinLink.Daemon.SyncSend
import OdinLink.Daemon.TestCancel
import OdinLink.Driver.AssemblyBound
import OdinLink.Driver.BackBuffers
import OdinLink.Driver.BoundDevices
import OdinLink.Driver.ConcurrentSends
import OdinLink.Driver.FrameSizes
import OdinLink.Driver.Loopback
import OdinLink.Driver.MemoryPressure
import OdinLink.Driver.MsgRelease
import OdinLink.Driver.RawForgery
import OdinLink.Driver.RecvFifo
import OdinLink.Driver.RxReferences
import OdinLink.Driver.RxRefill
import OdinLink.Driver.RxShare
import OdinLink.Driver.StreamWaiters
import OdinLink.Driver.TxCounters
import OdinLink.Nccl.Registrations
import OdinLink.Proto.QuietRemoval
import OdinLink.Proto.RingBuffers
import OdinLink.Proto.RingDepth
import OdinLink.Proto.Verified
import OdinLink.Rccl.Matching
import OdinLink.Rccl.OwnStream
import OdinLink.Tray.TestParse
import OdinLink.Verbs.CompletionEvents
import OdinLink.Verbs.DmabufRanges
import OdinLink.Verbs.QueuePairs
import OdinLink.Verbs.RecvOrder
import OdinLink.Verbs.StreamingCopy
import OdinLink.Verbs.WholeMessages
import OdinLink.Verbs.WholeRequest
