import GhcpConsole.Pool.Generation
import GhcpConsole.Pool.Supply
import GhcpConsole.Pool.Accounting
import GhcpConsole.Pool.NameCapacity
import GhcpConsole.Accounts.Attempts
import GhcpConsole.Accounts.SaveToken
import GhcpConsole.Pool.Draining
import GhcpConsole.Lib.FixedWindow
import GhcpConsole.Pool.Disabled
import GhcpConsole.Login.TaskMoves
import GhcpConsole.Login.TaskStore
import GhcpConsole.Lib.Machine
import GhcpConsole.Requests.HoldRelease
import GhcpConsole.Lib.Numbered
import GhcpConsole.Login.Attempts
import GhcpConsole.Login.Queue
import GhcpConsole.Login.QueueDrain
import GhcpConsole.Login.QueueRuns
import GhcpConsole.Lib.Apportionment
import GhcpConsole.Lib.SortBy
import GhcpConsole.Pool.CallerGate
import GhcpConsole.Pool.CallerGateRuns
import GhcpConsole.Pool.CreationPlan
import GhcpConsole.Pool.ShareFairness
import GhcpConsole.Accounts.LoginAuthorization
import GhcpConsole.Lib.Text
import GhcpConsole.Upgrade.Lossless
import GhcpConsole.Lib.Redo
import GhcpConsole.Lib.Sqlite
import GhcpConsole.Sso.Crashes
import GhcpConsole.Sso.SchemaUpgrade
import GhcpConsole.Copilot.ModelIds
import GhcpConsole.Lib.JsText
import GhcpConsole.Lib.Json
import GhcpConsole.Lib.Segments
import GhcpConsole.Lib.TextDecoder
import GhcpConsole.Streams.Agreement
import GhcpConsole.Management.Batches
import GhcpConsole.Pool.Selection
import GhcpConsole.ClaudeCode.CurrentDate
import GhcpConsole.ClaudeCode.DateFreedom
import GhcpConsole.ClaudeCode.Clone
import GhcpConsole.ClaudeCode.Rewriting
import GhcpConsole.Copilot.ModelsCache
import GhcpConsole.Copilot.ModelsCacheRuns
import GhcpConsole.Console.ApiProxy
import GhcpConsole.EmuImport.Apply
import GhcpConsole.EmuImport.Calls
import GhcpConsole.EmuImport.Isolation
import GhcpConsole.Enterprise.Idempotence
import GhcpConsole.Lib.Session
import GhcpConsole.Migrations.Runner
import GhcpConsole.Migrations.Runs
import GhcpConsole.Sso.ScimListing
import GhcpConsole.Readiness.Client
import GhcpConsole.Readiness.Runs
import GhcpConsole.Diagnostics.DiagnosticLog
import GhcpConsole.Diagnostics.SummaryRedaction
import GhcpConsole.Lib.Python
import GhcpConsole.Lib.Rotation
import GhcpConsole.Litellm.Caller
import GhcpConsole.Litellm.Cleaning
import GhcpConsole.Litellm.TrustedIdentity
import GhcpConsole.Pool.MysqlReclaim
import GhcpConsole.Diagnostics.StoreRuns
import GhcpConsole.Pool.Availability
import GhcpConsole.Sso.SignInFlow
