import Fprime.Cfdp.Rx.Delivery
import Fprime.Os.QueueAgreement
import Fprime.Svc.CmdRouting
import Fprime.Svc.ComQueue.Scheduling
import Fprime.Svc.ComLink
import Fprime.Os.LocklessQueue.Protocol
import Fprime.Svc.CmdSequencer.Reading
import Fprime.Svc.PrmDb.Atomicity
import Fprime.Svc.FprimeLink.Integrity
import Fprime.Svc.FileDownlink.Progress
import Fprime.Svc.FileTransfer
import Fprime.Svc.TlmChan.Latest
import Fprime.Svc.DpCatalog.Accounting
import Fprime.Comp.SmMacro.Termination
import Fprime.Svc.GenericHub.Transparent
import Fprime.Cfdp.ChunkArray.Gaps
import Fprime.Cfdp.Rx.CrcPass
import Fprime.Cfdp.Traversal
import Fprime.Cfdp.Tx.BackPressure
import Fprime.Cfdp.Tx.Capacity
import Fprime.Svc.ComRetry.Bounded
import Fprime.Svc.SpacePacketLink
import Fprime.Svc.AosDeframer.Robust
import Fprime.Svc.ApidManager
import Fprime.Svc.Fpy.Arithmetic
import Fprime.Svc.Fpy.Calls
import Fprime.Svc.PrmDb.Answers
import Fprime.Svc.FileManager
import Fprime.Svc.Health
import Fprime.Utils.TokenBucket
import Fprime.Comp.Escrow.Tokens
