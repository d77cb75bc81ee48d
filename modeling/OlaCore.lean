import OlaCore.Lib.Bytes
import OlaCore.Lib.Sha256
import OlaCore.Lib.HashChain
import OlaCore.Lib.Json
import OlaCore.Lib.JsonCut
import OlaCore.Lib.JsonSize
import OlaCore.Lib.Binary32
import OlaCore.Lib.Checks
import OlaCore.Lib.Runs
import OlaCore.Lib.Windows
import OlaCore.Lib.Program
import OlaCore.Lib.Protocols
import OlaCore.Lib.Guards
import OlaCore.Lib.Subsystems
import OlaCore.Core.Types
import OlaCore.Core.Names
import OlaCore.Core.Config
import OlaCore.Core.Serde
import OlaCore.Core.Effects
import OlaCore.Audit.Entry
import OlaCore.Audit.Verifier
import OlaCore.Audit.Logger
import OlaCore.Audit.Recovery
import OlaCore.Audit.Rotation
import OlaCore.Security.Allowlist
import OlaCore.Security.RateLimit
import OlaCore.Security.Nonce
import OlaCore.Security.NonceRuns
import OlaCore.Security.Attestation
import OlaCore.Policy.Evaluator
import OlaCore.Policy.Parser
import OlaCore.Policy.Meaning
import OlaCore.Adapters.ConfigLoader
import OlaCore.Adapters.Client
import OlaCore.Adapters.Registry
import OlaCore.Adapters.Health
import OlaCore.Adapters.Routing
import OlaCore.Ipc.Protocol
import OlaCore.Ipc.World
import OlaCore.Ipc.VerifyOnce
import OlaCore.Ipc.Audited
import OlaCore.Ipc.Probes
import OlaCore.Ipc.AuditLines
import OlaCore.Ipc.SingleUse
import OlaCore.Ipc.Reload
import OlaCore.Ipc.Connection
import OlaCore.Ipc.LineSize
import OlaCore.Ipc.NonceLeak
import OlaCore.Ipc.InTime
import OlaCore.Ipc.Snapshot
import OlaCore.Ipc.Exchanges
import OlaCore.Ipc.AuditHistory
import OlaCore.Ipc.AdapterPermits
import OlaCore.Pam.Bridge
import OlaCore.Pam.Methods
import OlaCore.Pam.Responses
import OlaCore.Pam.CutConnection
import OlaCore.Pam.Session
import OlaCore.Pam.System
import OlaCore.Pam.Answers
import OlaCore.Pam.Login
import OlaCore.Demo.Fido2
