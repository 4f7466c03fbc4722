import HiveClaw.Admins.LastSuper
import HiveClaw.Agents.Depth
import HiveClaw.Agents.Tree
import HiveClaw.Assistant.Quota
import HiveClaw.Assistant.SseText
import HiveClaw.Auth.Lockout
import HiveClaw.Bus.Queue
import HiveClaw.Channels.Order
import HiveClaw.Context.MergeOrder
import HiveClaw.Context.Prompt
import HiveClaw.Context.RoundTrip
import HiveClaw.Context.Secrets
import HiveClaw.Cron.CorruptStore
import HiveClaw.Cron.OneShot
import HiveClaw.Cron.Validation
import HiveClaw.Files.EditRest
import HiveClaw.Files.EditSafety
import HiveClaw.Files.FileHistory
import HiveClaw.Gui.Replies
import HiveClaw.Hooks.Limit
import HiveClaw.Hooks.Validation
import HiveClaw.Hooks.WebhookUrl
import HiveClaw.Instances.Limits
import HiveClaw.Memory.Cursors
import HiveClaw.Memory.LegacyHistory
import HiveClaw.Plugins.Duel
import HiveClaw.Plugins.Objects
import HiveClaw.Plugins.WasmFormat
import HiveClaw.Providers.AnthropicTurns
import HiveClaw.Providers.Fallback
import HiveClaw.Providers.OpenaiFinal
import HiveClaw.Providers.ResponsesStream
import HiveClaw.Providers.Retry
import HiveClaw.Providers.UserParts
import HiveClaw.RagflowConfig.Convergence
import HiveClaw.Runner.Accounting
import HiveClaw.Runner.Injections
import HiveClaw.Runner.Microcompact
import HiveClaw.Runner.Modes
import HiveClaw.Runner.Persisted
import HiveClaw.Runner.Progress
import HiveClaw.Runner.Snip
import HiveClaw.Runner.Streaming
import HiveClaw.Runner.Violations
import HiveClaw.Runtime.Capabilities
import HiveClaw.Runtime.Failures
import HiveClaw.Runtime.Messages
import HiveClaw.Runtime.NamedQueries
import HiveClaw.Runtime.NetworkHttp
import HiveClaw.Runtime.Parity
import HiveClaw.Runtime.Routing
import HiveClaw.SensitiveWords.Matching
import HiveClaw.Sessions.History
import HiveClaw.Sessions.Repair
import HiveClaw.Store.ListQueries
import HiveClaw.Subagents.Announce
import HiveClaw.Subagents.Tracking
import HiveClaw.Tools.Alignment
import HiveClaw.Tools.Sandbox
import HiveClaw.Tools.Schema
import HiveClaw.Tools.ShellQuote
import HiveClaw.Turns.Boundaries
import HiveClaw.Turns.Checkpoint
import HiveClaw.Turns.ContextSync
import HiveClaw.Updates.Conflict
import HiveClaw.Utils.SplitMessage
import HiveClaw.Workflow.Confluence
import HiveClaw.Workflow.Resubmit
import HiveClaw.Workflow.Templates
