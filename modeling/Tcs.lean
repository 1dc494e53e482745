import Tcs.Lib.Run
import Tcs.Lib.Word
import Tcs.Lib.Bytes
import Tcs.Lib.Message
import Tcs.Lib.Ring
import Tcs.Policy
import Tcs.PolicyHistory
import Tcs.Lifecycle
import Tcs.LifecycleRun
import Tcs.Reduction
import Tcs.Mailbox
import Tcs.Deadline
import Tcs.DeadlineRun
import Tcs.Reference
import Tcs.Receipt
import Tcs.Admin
import Tcs.Ipc
import Tcs.AdminPolicy
import Tcs.AdminServer
import Tcs.Admission
import Tcs.Administration
import Tcs.Servers
import Tcs.Seed
import Tcs.ClientView
import Tcs.Terminal
import Tcs.EndToEnd
import Tcs.LineInput
import Tcs.Launch
import Tcs.Operator
import Tcs.Serial
import Tcs.Service
import Tcs.Wakeup
import Tcs.InputLoss
import Tcs.DriverQueue
import Tcs.Interleaved
import Tcs.Replacement
import Tcs.Containment
import Tcs.Adapters
import Tcs.Packet
import Tcs.CommandGrammar
import Tcs.FrameSpec
import Tcs.LineSpec
import Tcs.Output
import Tcs.Echo
import Tcs.SerialFifo
import Tcs.Coalesce
import Tcs.Closing
import Tcs.Fwcfg
import Tcs.Records
import Tcs.Approval
import Tcs.OneShot
import Tcs.SelfStatus
import Tcs.Topology
import Tcs.Authority
import Tcs.SignedImages
import Tcs.Lib.Numeral
import Tcs.Decimal
import Tcs.Shell
import Tcs.Lib.Lossy
import Tcs.Lib.Progress
import Tcs.Drain
import Tcs.Typed
import Tcs.Interactive
import Tcs.Session
import Tcs.Boot
import Tcs.PowerOn
import Tcs.Contained
import Tcs.HungBroker
import Tcs.Host
import Tcs.Operation
