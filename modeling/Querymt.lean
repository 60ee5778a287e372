import Querymt.Provider.CodexReasoning
import Querymt.Provider.ToolSlices
import Querymt.Provider.AssistantFormat
import Querymt.Library.Offsets
import Querymt.Dashboard.Attribution
import Querymt.Dashboard.Pairing
import Querymt.Library.Histories
import Querymt.Dashboard.Delegations
import Querymt.Dashboard.ChatView
import Querymt.Provider.MediaMarkers
import Querymt.Agent.HookedCalls
import Querymt.Agent.Hooks
import Querymt.Provider.ModelRefs
import Querymt.Provider.GoogleResponse
import Querymt.Remote.ErrorPayload
import Querymt.Tools.StrUtils
import Querymt.Provider.CodexStream
import Querymt.Index.FileIndex
import Querymt.Remote.MeshCache
import Querymt.Index.FunctionIndex
import Querymt.Knowledge.Query
import Querymt.Library.Rankings
import Querymt.Session.ListView
import Querymt.Library.Forests
import Querymt.Provider.GoogleStream
import Querymt.Export.Sft
import Querymt.Session.JournalViews
import Querymt.Delegation.Notifications
import Querymt.Provider.GemmaLabels
import Querymt.Provider.Reasoning
import Querymt.Library.Holding
import Querymt.Provider.OpenAIMessages
import Querymt.Provider.OpenAIStream
import Querymt.Library.HashMaps
import Querymt.Provider.AnthropicStream
import Querymt.Library.Parts
import Querymt.Agent.StreamAttempts
import Querymt.Agent.Streaming
import Querymt.Library.Gathering
import Querymt.Agent.DelegationGuard
import Querymt.Scheduler.Queues
import Querymt.Scheduler.Recovery
import Querymt.Scheduler.Lease
import Querymt.Library.Timestamps
import Querymt.Tools.Truncation
import Querymt.Library.JoinedLines
import Querymt.Agent.Costs
import Querymt.Agent.PruningOrder
import Querymt.Library.Budgets
import Querymt.Agent.Machine
import Querymt.Agent.Stored
import Querymt.Agent.EffectiveHistory
import Querymt.Agent.History
import Querymt.Agent.Answers
import Querymt.Agent.Context
import Querymt.Agent.Permissions
import Querymt.Session.Cancellation
import Querymt.Library.Runs
import Querymt.Scheduler.Domain
import Querymt.Scheduler.Actor
import Querymt.Scheduler.Handlers
import Querymt.Scheduler.Rows
import Querymt.Scheduler.Settle
import Querymt.Scheduler.Effects
import Querymt.Scheduler.Pause
import Querymt.Scheduler.Legal
import Querymt.Scheduler.Cycles
import Querymt.Scheduler.Accumulator
import Querymt.Scheduler.Events
import Querymt.Library.Transactions
import Querymt.Tools.Edits
import Querymt.Tools.SymbolSplices
import Querymt.Tools.DiffHunks
import Querymt.Tools.Replacers
import Querymt.Tools.EditOutcomes
import Querymt.Tools.EditRanges
import Querymt.Tools.EditPanics
import Querymt.Tools.EditAll
import Querymt.Tools.Ambiguity
import Querymt.Scheduler.Deadlines
import Querymt.Export.Turns
import Querymt.Export.Streams
import Querymt.Session.Undo
import Querymt.Session.Timeline
import Querymt.Session.Cleanup
import Querymt.Session.Fork
import Querymt.Session.Materializer
import Querymt.Snapshot.RoundTrip
import Querymt.Agent.Compaction
import Querymt.Agent.Limits
import Querymt.Agent.TurnLimit
import Querymt.Agent.Waiting
import Querymt.Delegation.Settlement
import Querymt.Remote.Relays
import Querymt.Remote.EachEventOnce
import Querymt.Remote.StreamLaws
import Querymt.Remote.ProviderHost
import Querymt.Remote.RelayDelivery
import Querymt.Session.Journal
import Querymt.Session.Search
import Querymt.Library.Encodings
import Querymt.Library.Faults
import Querymt.Library.FullText
import Querymt.Library.Lines
import Querymt.Library.Splices
import Querymt.Library.Strings
import Querymt.Library.Texts
import Querymt.Provider.HttpStream
import Querymt.Agent.Pruning
import Querymt.Remote.Invite
import Querymt.Remote.InviteWire
import Querymt.Remote.InviteStore
import Querymt.Remote.InviteLifetimes
import Querymt.Provider.ToolCalls
import Querymt.Provider.ToolGrammar
import Querymt.Provider.ToolTokens
import Querymt.Provider.ToolFormats
import Querymt.Knowledge.Lifecycle
import Querymt.Remote.Membership
