import Cronymax.Cronygraph.DepthFirst
import Cronymax.Cronygraph.Topological
import Cronymax.Flow.Disk
import Cronymax.Flow.Concurrency
import Cronymax.Flow.Finished
import Cronymax.Flow.Approvals
import Cronymax.Flow.Budget
import Cronymax.Flow.Feedback
import Cronymax.Flow.Suggestions
import Cronymax.Authority.Restart
import Cronymax.Agent.Reflections
import Cronymax.Agent.Resume
import Cronymax.Agent.ChatHistory
import Cronymax.Agent.Children
import Cronymax.Agent.Pausing
import Cronymax.Rpc.Json
import Cronymax.Rpc.Chunks
import Cronymax.Rpc.Correlation
import Cronymax.Extensions.Secrets
import Cronymax.Extensions.ConfigStore
import Cronymax.Extensions.Outcome
import Cronymax.Llm.Chunking
import Cronymax.Capability.Confinement
import Cronymax.Sandbox.Confirmation
import Cronymax.Extensions.Installed
import Cronymax.Terminal.Ownership
import Cronymax.Llm.Migration
import Cronymax.Llm.Request
import Cronymax.Llm.Turn
import Cronymax.Memory.Survival
import Cronymax.Handler.FlowReviews
import Cronymax.Protocol.Discipline
import Cronymax.Spaces.Active
import Cronymax.Flow.Trace
import Cronymax.Events.Stream
import Cronymax.Events.Apart
import Cronymax.Gips.Order
import Cronymax.Handler.Waiters
import Cronymax.Proxy.Answers
import Cronymax.Bridge.Restarts
import Cronymax.Extensions.CrashLoop
import Cronymax.Extensions.Interference
import Cronymax.Extensions.Mirrored
import Cronymax.Extensions.Respawn
import Cronymax.Extensions.CrashRecovery
import Cronymax.Agent.Compaction
import Cronymax.Agent.Assembly
import Cronymax.Flow.Classification
import Cronymax.Flow.Producers
import Cronymax.Agent.Bounded
import Cronymax.Browser.ContentPolicy
import Cronymax.Migration.Preserved
import Cronymax.Chat.Survival
import Cronymax.Encoding.Base64
import Cronymax.Capability.Paging
import Cronymax.Capability.Replacing
import Cronymax.Extensions.Credentials
import Cronymax.Agent.HistoryFile
import Cronymax.Events.UuidV7
import Cronymax.Extensions.LogChannels
import Cronymax.Capability.TestRunner
import Cronymax.Flow.Mentions
import Cronymax.Agent.Prompt
import Cronymax.Workbench.BlockEdits
import Cronymax.Agent.Definitions
import Cronymax.FlowEditor.Selection
import Cronymax.Cronygraph.Ending
