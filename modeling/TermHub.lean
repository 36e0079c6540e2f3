import TermHub.Transition
import TermHub.Sections
import TermHub.Transactions
import TermHub.Config
import TermHub.Session
import TermHub.Persist
import TermHub.PlainCodec
import TermHub.SessionMgr
import TermHub.OrderedMap
import TermHub.AppState
import TermHub.AppLogic
import TermHub.AppLogicSpec
import TermHub.AppSections
import TermHub.Entries
import TermHub.AppInvariant
import TermHub.Ownership
import TermHub.CreateAtomic
import TermHub.Linearizability
import TermHub.RunLoop
import TermHub.RunLoopStatus
import TermHub.RunLoopInput
import TermHub.RunLoopOutput
import TermHub.RunLoopOrder
import TermHub.RunLoopRecord
import TermHub.RunLoopRetry
import TermHub.RunLoopReset
import TermHub.Drivers
import TermHub.ConfigError
import TermHub.Eol
import TermHub.Scan
import TermHub.EolModes
import TermHub.Broadcast
import TermHub.FanOut
import TermHub.SshDoor
import TermHub.Outlive
import TermHub.Admissions
import TermHub.Typing
import TermHub.Tickets
import TermHub.Multiplex
import TermHub.ClientLimit
import TermHub.Resumable
import TermHub.Telnet
import TermHub.TelnetFormat
import TermHub.TelnetNegotiation
import TermHub.TelnetOutbound
import TermHub.TelnetBounds
import TermHub.Views
import TermHub.ConcurrentSaves
import TermHub.LoadSave
import TermHub.Crashes
import TermHub.Settings
import TermHub.Isolation
import TermHub.Restart
import TermHub.Recreate
import TermHub.StartupLoop
import TermHub.ClassMap
import TermHub.SessionMgrRuns
import TermHub.ClientIds
import TermHub.Http
import TermHub.CliRoutes
import TermHub.CliUpdate
import TermHub.EditDialog
import TermHub.CopyLoop
import TermHub.ProxyTcp
import TermHub.ExecReply
import TermHub.Traffic
import TermHub.PortForward
import TermHub.Duplex
import TermHub.DriverLoops
import TermHub.TelnetLoop
import TermHub.Wired
import TermHub.Verdict
import TermHub.Ending
import TermHub.Provenance
import TermHub.SharedSession
import TermHub.LocalShell
import TermHub.Forwards
import TermHub.StatusEvents
import TermHub.ConfigWire
import TermHub.ApiWire
import TermHub.CliRun
import TermHub.HostKey
