import ExecutionProvider.Foundation.Substitution
import ExecutionProvider.Foundation.Occurrences
import ExecutionProvider.Foundation.Utf8
import ExecutionProvider.Foundation.Table
import ExecutionProvider.Foundation.Index
import ExecutionProvider.Foundation.Recency
import ExecutionProvider.Foundation.Notify
import ExecutionProvider.Foundation.Runs
import ExecutionProvider.Foundation.Window
import ExecutionProvider.Foundation.PrefixCode
import ExecutionProvider.Foundation.CommandLine
import ExecutionProvider.Foundation.Programs
import ExecutionProvider.Foundation.FileTree
import ExecutionProvider.Foundation.Paging
import ExecutionProvider.Core.Error
import ExecutionProvider.Core.Text
import ExecutionProvider.Protocol.Uuid
import ExecutionProvider.Core.Types
import ExecutionProvider.Protocol.Json
import ExecutionProvider.Protocol.JsonText
import ExecutionProvider.Protocol.Messages
import ExecutionProvider.Protocol.Framing
import ExecutionProvider.Protocol.Serde
import ExecutionProvider.Protocol.JsonSize
import ExecutionProvider.Protocol.JsonValue
import ExecutionProvider.Protocol.Operations
import ExecutionProvider.Protocol.Codec
import ExecutionProvider.Protocol.Wire
import ExecutionProvider.Protocol.Transport
import ExecutionProvider.Protocol.Dispatcher
import ExecutionProvider.Protocol.Results
import ExecutionProvider.Daemon.Receipts
import ExecutionProvider.Daemon.Host
import ExecutionProvider.Daemon.Capacity
import ExecutionProvider.Daemon.Accounting
import ExecutionProvider.Runtime.Registry
import ExecutionProvider.Runtime.Cancellation
import ExecutionProvider.Runtime.Retries
import ExecutionProvider.Runtime.Calls
import ExecutionProvider.Runtime.Retained
import ExecutionProvider.Runtime.Journal
import ExecutionProvider.Runtime.OutputSpool
import ExecutionProvider.Runtime.ShellSnapshot
import ExecutionProvider.Runtime.SnapshotCache
import ExecutionProvider.Runtime.Listing
import ExecutionProvider.Runtime.Shutdown
import ExecutionProvider.Session.Data
import ExecutionProvider.Session.Tasks
import ExecutionProvider.Session.Steps
import ExecutionProvider.Session.Capture
import ExecutionProvider.Session.StopCause
import ExecutionProvider.Session.Lifecycle
import ExecutionProvider.Session.Wakeups
import ExecutionProvider.Session.InputQueue
import ExecutionProvider.Session.Visibility
import ExecutionProvider.Session.RunResult
import ExecutionProvider.Runtime.CursorStream
import ExecutionProvider.Backend.Windows
import ExecutionProvider.Filesystem.Path
import ExecutionProvider.Filesystem.Steps
import ExecutionProvider.Filesystem.Calls
import ExecutionProvider.Filesystem.Disk
import ExecutionProvider.Filesystem.Resolution
import ExecutionProvider.Filesystem.Files
import ExecutionProvider.Filesystem.Faults
import ExecutionProvider.Filesystem.Staging
import ExecutionProvider.Filesystem.Writing
import ExecutionProvider.Filesystem.Alike
import ExecutionProvider.Filesystem.Straying
import ExecutionProvider.Filesystem.Conditional
import ExecutionProvider.Filesystem.Messages
import ExecutionProvider.Patch.Receipt
import ExecutionProvider.Filesystem.Mutations
import ExecutionProvider.Filesystem.Locking
import ExecutionProvider.Filesystem.Serialization
import ExecutionProvider.Filesystem.Idempotency
import ExecutionProvider.Patch.Target
import ExecutionProvider.Patch.Naming
import ExecutionProvider.Patch.Codex
import ExecutionProvider.Patch.Search
import ExecutionProvider.Patch.CodexResult
import ExecutionProvider.Patch.Replacements
import ExecutionProvider.Patch.Parser
import ExecutionProvider.Patch.Reader
import ExecutionProvider.Patch.Blocks
import ExecutionProvider.Patch.RoundTrip
import ExecutionProvider.Patch.Directives
import ExecutionProvider.Patch.Opacity
import ExecutionProvider.Gateway.Database
import ExecutionProvider.Gateway.Requests
import ExecutionProvider.Gateway.Agreement
import ExecutionProvider.Gateway.Settlement
import ExecutionProvider.Gateway.Jobs
import ExecutionProvider.Gateway.Paging
import ExecutionProvider.Gateway.Redaction
import ExecutionProvider.Gateway.Machines
import ExecutionProvider.Gateway.Session
import ExecutionProvider.Gateway.Effect
import ExecutionProvider.Gateway.Accounts
import ExecutionProvider.Gateway.Keys
import ExecutionProvider.Gateway.Retention
import ExecutionProvider.Gateway.Admission
import ExecutionProvider.Gateway.TerminalEvents
import ExecutionProvider.Gateway.Rows
import ExecutionProvider.Gateway.Completions
import ExecutionProvider.Gateway.Subscriptions
import ExecutionProvider.Gateway.Validity
import ExecutionProvider.Gateway.Fencing
import ExecutionProvider.Gateway.Promises
import ExecutionProvider.Gateway.Waiting
import ExecutionProvider.Gateway.Slots
import ExecutionProvider.Gateway.Handover
import ExecutionProvider.Gateway.Deadlines
import ExecutionProvider.Gateway.Enrollment
import ExecutionProvider.Gateway.Credentials
import ExecutionProvider.Gateway.Dispatch
import ExecutionProvider.Gateway.Webhooks
import ExecutionProvider.Gateway.RetryCycles
import ExecutionProvider.Protocol.FileResults
import ExecutionProvider.Protocol.Batch
import ExecutionProvider.Daemon.Responses
import ExecutionProvider.Recovery.World
import ExecutionProvider.Recovery.Flow
import ExecutionProvider.Recovery.Links
import ExecutionProvider.Recovery.Transit
import ExecutionProvider.Recovery.Answers
import ExecutionProvider.Recovery.Retention
import ExecutionProvider.Foundation.Unified
import ExecutionProvider.Patch.Diff
import ExecutionProvider.Patch.Execute
import ExecutionProvider.Patch.Plan
import ExecutionProvider.Patch.Messages
import ExecutionProvider.Patch.ReceiptSize
import ExecutionProvider.Patch.Effects
import ExecutionProvider.Transport.Endpoint
import ExecutionProvider.Daemon.Store
