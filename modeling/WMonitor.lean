import WMonitor.Ingest
import WMonitor.Proofs.Ingest
import WMonitor.Proofs.Ledger
import WMonitor.Proofs.Replay
import WMonitor.Credentials
import WMonitor.Proofs.Credentials
import WMonitor.Proofs.Handshake
import WMonitor.Json
import WMonitor.Proofs.Json
import WMonitor.Prog
import WMonitor.Proofs.Prog
import WMonitor.Spool
import WMonitor.Proofs.SpoolRecord
import WMonitor.Proofs.SpoolProtocol
import WMonitor.Proofs.SpoolSteps
import WMonitor.Proofs.SpoolRules
import WMonitor.Proofs.SpoolAppend
import WMonitor.Proofs.SpoolBind
import WMonitor.Proofs.SpoolDrain
import WMonitor.Proofs.SpoolRuns
import WMonitor.Proofs.Tenants
import WMonitor.Proofs.ReadPage
import WMonitor.Report
import WMonitor.Proofs.Report
import WMonitor.Alerting
import WMonitor.Proofs.Latest
import WMonitor.Proofs.Alerting
import WMonitor.Proofs.AlertSharing
import WMonitor.OpaqueTenant
import WMonitor.Proofs.OpaqueTenant
import WMonitor.Proofs.Revocation
import WMonitor.Delivery
import WMonitor.Proofs.Delivery
import WMonitor.Proofs.Legacy
import WMonitor.Proofs.AuthEpoch
import WMonitor.Proofs.Retention
import WMonitor.Proofs.Plaintext
import WMonitor.Proofs.SpoolRollback
import WMonitor.Proofs.SpoolGroups
import WMonitor.Proofs.AlertRuns
import WMonitor.Proofs.AlertSilence
import WMonitor.Collector
import WMonitor.Proofs.Regroup
import WMonitor.Proofs.Collector
import WMonitor.Proofs.Sizing
import WMonitor.Agent
import WMonitor.Proofs.Accepted
import WMonitor.Proofs.Agent
import WMonitor.Proofs.ExactlyOnce
import WMonitor.Proofs.Contract
import WMonitor.Proofs.JsonSize
import WMonitor.Proofs.Packing
import WMonitor.RangeMap
import WMonitor.RateLimit
import WMonitor.Proofs.RateLimit
import WMonitor.Proofs.Sessions
import WMonitor.DrainLoop
import WMonitor.Proofs.DrainLoop
import WMonitor.HubClient
import WMonitor.Proofs.HubClient
import WMonitor.Proofs.Fleet
import WMonitor.Proofs.StrictJson
import WMonitor.APIKeys
import WMonitor.Handler
import WMonitor.Issuance
import WMonitor.Proofs.Issuance
import WMonitor.Proofs.EnrollCode
import WMonitor.ClientAdmin
import WMonitor.Proofs.ClientAdmin
import WMonitor.InOrder
import WMonitor.Proofs.SpoolAnswers
import WMonitor.Proofs.HeadOfLine
import WMonitor.Proofs.EnrollTyping
import WMonitor.LastSeen
import WMonitor.Proofs.UserTracker
import WMonitor.Proofs.ProgSteps
import WMonitor.Proofs.SpoolSize
import WMonitor.Proofs.SpoolFull
import WMonitor.Backend
import WMonitor.Proofs.Backend
import WMonitor.Proofs.Transactions
import WMonitor.PgIngest
import WMonitor.Proofs.PgIngest
import WMonitor.Bootstrap
import WMonitor.Proofs.Bootstrap
import WMonitor.HubAPI
import WMonitor.Proofs.HubIsolation
