import FileGuard.Core.Machine
import FileGuard.Core.KeyMap
import FileGuard.Core.Acl
import FileGuard.Core.JsonText
import FileGuard.Core.JsonPrefix
import FileGuard.Core.Framing
import FileGuard.L4Controller.QueuedController
import FileGuard.L1Policy.ErrorChannel
import FileGuard.L1Policy.Compiler
import FileGuard.L3Enforcer.RuleVerdicts
import FileGuard.L3Enforcer.AuditTrail
import FileGuard.L3Enforcer.RecordBytes
import FileGuard.L3Enforcer.RawMaps
import FileGuard.L3Enforcer.Status
import FileGuard.L3Enforcer.ClearMap
import FileGuard.L4Controller.Reload
import FileGuard.L4Controller.CoreQueue
import FileGuard.L4Controller.StreamQueue
import FileGuard.L4Controller.Resolver
import FileGuard.L4Controller.Consumer
import FileGuard.L4Controller.FanOut
import FileGuard.L4Controller.AuditLive
import FileGuard.L4Controller.ConsoleTable
import FileGuard.L4Controller.StreamWire
import FileGuard.L6Cli.RunEvents
import FileGuard.L6Cli.AuditLog
import FileGuard.L6Cli.EventCount
import FileGuard.L6Cli.PolicyValidate
import FileGuard.L5Daemon.Startup
import FileGuard.L5Daemon.WindDown
import FileGuard.L5Daemon.Descriptors
import FileGuard.L5Daemon.ClientLoop
import FileGuard.L5Daemon.Version
import FileGuard.L6Cli.PolicyLoad
import FileGuard.L6Cli.RequestJson
import FileGuard.L6Cli.Serve
import FileGuard.L6Cli.SessionEnd
import FileGuard.L6Cli.LogFile
import FileGuard.L6Cli.LoadInForce
import FileGuard.L6Cli.CommandLine
