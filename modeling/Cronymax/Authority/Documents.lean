import Mathlib
import Cronymax.Authority.State
import Cronymax.Codec.Documents

/-! How the snapshot is written as JSON and read back, type by type: which fields are left out when they
are empty, which may be missing, and what is lost.  The text of a document is left to a parameter of
the persistence. -/

namespace Cronymax.Authority

open Codec (raw record field? required orDefault unlessEmpty)

namespace Value

def isNull : Value → Bool
  | .null => true
  | _ => false

def items : Value → Option (List Value)
  | .array items => some items
  | _ => none

def fields : Value → Option (List (String × Value))
  | .object fields => some fields
  | _ => none

end Value

instance : Documents Value where
  null := .null
  list := .array
  object := .object
  isNull := Value.isNull
  items := Value.items
  fields := Value.fields
  isNull_null := rfl
  isNull_list _ := rfl
  isNull_object _ := rfl
  items_list _ := rfl
  fields_object _ := rfl

def stringJson : Codec Value String := ⟨.string, Value.asStr, id, fun _ => rfl⟩

instance : stringJson.Plain := ⟨fun _ => rfl, fun _ => rfl⟩

def boolJson : Codec Value Bool where
  write := .bool
  read
    | .bool b => some b
    | _ => none
  stored := id
  read_write _ := rfl

instance : boolJson.Plain := ⟨fun _ => rfl, fun _ => rfl⟩

/-- A number by its text. -/
def numberJson : Codec Value String where
  write := .number
  read
    | .number text => some text
    | _ => none
  stored := id
  read_write _ := rfl

instance : numberJson.Plain := ⟨fun _ => rfl, fun _ => rfl⟩

/-- Numbers without a bound. -/
abbrev natJson : Codec Value Nat := numberJson.via Nat.repr String.toNat? Nat.toNat?_repr

abbrev intJson : Codec Value Int := numberJson.via Int.repr String.toInt? Int.toInt?_repr

abbrev u8Json : Codec Value UInt8 :=
  natJson.via UInt8.toNat (fun n => if n < 2 ^ 8 then some (UInt8.ofNat n) else none) fun n => by
    rw [if_pos n.toNat_lt, UInt8.ofNat_toNat]

abbrev u32Json : Codec Value UInt32 :=
  natJson.via UInt32.toNat (fun n => if n < 2 ^ 32 then some (UInt32.ofNat n) else none) fun n => by
    rw [if_pos n.toNat_lt, UInt32.ofNat_toNat]

abbrev spaceIdJson : Codec Value SpaceId := stringJson.via (·.uuid) (some ⟨·⟩) fun _ => rfl

abbrev runIdJson : Codec Value RunId := stringJson.via (·.uuid) (some ⟨·⟩) fun _ => rfl

abbrev agentIdJson : Codec Value AgentId := stringJson.via (·.uuid) (some ⟨·⟩) fun _ => rfl

abbrev reviewIdJson : Codec Value ReviewId := stringJson.via (·.uuid) (some ⟨·⟩) fun _ => rfl

abbrev taskIdJson : Codec Value TaskId := stringJson.via (·.uuid) (some ⟨·⟩) fun _ => rfl

abbrev sessionIdJson : Codec Value SessionId := stringJson.via (·.text) (some ⟨·⟩) fun _ => rfl

abbrev namespaceIdJson : Codec Value MemoryNamespaceId :=
  stringJson.via (·.text) (some ⟨·⟩) fun _ => rfl

namespace ChatRole

def label : ChatRole → String
  | .system => "system"
  | .user => "user"
  | .assistant => "assistant"
  | .tool => "tool"

abbrev json : Codec Value ChatRole :=
  stringJson.named label [.system, .user, .assistant, .tool] fun role => by cases role <;> rfl

end ChatRole

abbrev PermissionState.json : Codec Value PermissionState :=
  stringJson.named label [.pending, .approved, .rejected, .deferred] fun state => by
    cases state <;> rfl

namespace TaskStatus

def label : TaskStatus → String
  | .pending => "pending"
  | .running => "running"
  | .completed => "completed"
  | .failed => "failed"

abbrev json : Codec Value TaskStatus :=
  stringJson.named label [.pending, .running, .completed, .failed] fun status => by
    cases status <;> rfl

end TaskStatus

def RunStatus.json : Codec Value RunStatus where
  write status := record [
    ("status", some (stringJson.write status.label)),
    ("message", match status with
      | .failed message => some (stringJson.write message)
      | _ => none)]
  read d :=
    (required stringJson (field? d "status")).bind fun label =>
      match label with
      | "pending" => some .pending
      | "running" => some .running
      | "paused" => some .paused
      | "awaiting_review" => some .awaitingReview
      | "succeeded" => some .succeeded
      | "failed" => (required stringJson (field? d "message")).map .failed
      | "cancelled" => some .cancelled
      | _ => none
  stored status := status
  read_write status := by cases status <;> simp [RunStatus.label]

instance : RunStatus.json.Plain := ⟨fun _ => rfl, fun _ => Codec.isNull_record _⟩

def Space.json : Codec Value Space where
  write s := record [
    ("id", some (spaceIdJson.write s.id)),
    ("name", some (stringJson.write s.name)),
    ("compaction_threshold_pct", some (u8Json.write s.compactionThresholdPct)),
    ("compaction_recency_turns", some (natJson.write s.compactionRecencyTurns))]
  read d := do
    let id ← required spaceIdJson (field? d "id")
    let name ← required stringJson (field? d "name")
    let compactionThresholdPct ← orDefault u8Json 80 (field? d "compaction_threshold_pct")
    let compactionRecencyTurns ← orDefault natJson 6 (field? d "compaction_recency_turns")
    some { id, name, compactionThresholdPct, compactionRecencyTurns }
  stored s := s
  read_write s := by simp

instance : Space.json.Plain := ⟨fun _ => rfl, fun _ => Codec.isNull_record _⟩

def Agent.json : Codec Value Agent where
  write a := record [
    ("id", some (agentIdJson.write a.id)),
    ("space_id", some (spaceIdJson.write a.spaceId)),
    ("name", some (stringJson.write a.name)),
    ("payload", some (raw.write a.payload))]
  read d := do
    let id ← required agentIdJson (field? d "id")
    let spaceId ← required spaceIdJson (field? d "space_id")
    let name ← required stringJson (field? d "name")
    let payload ← required raw (field? d "payload")
    some { id, spaceId, name, payload }
  stored a := a
  read_write a := by simp

instance : Agent.json.Plain := ⟨fun _ => rfl, fun _ => Codec.isNull_record _⟩

def ToolCall.json : Codec Value ToolCall where
  write c := record [
    ("id", some (stringJson.write c.id)),
    ("name", some (stringJson.write c.name)),
    ("arguments", some (stringJson.write c.arguments))]
  read d := do
    let id ← required stringJson (field? d "id")
    let name ← required stringJson (field? d "name")
    let arguments ← required stringJson (field? d "arguments")
    some { id, name, arguments }
  stored c := c
  read_write c := by simp

instance : ToolCall.json.Plain := ⟨fun _ => rfl, fun _ => Codec.isNull_record _⟩

def ChatMessage.json : Codec Value ChatMessage where
  write m := record [
    ("role", some (ChatRole.json.write m.role)),
    ("content", m.content.map stringJson.write),
    ("tool_calls", unlessEmpty ToolCall.json m.toolCalls),
    ("tool_call_id", m.toolCallId.map stringJson.write),
    ("name", m.name.map stringJson.write)]
  read d := do
    let role ← required ChatRole.json (field? d "role")
    let content ← orDefault stringJson.nullable none (field? d "content")
    let toolCalls ← orDefault ToolCall.json.list [] (field? d "tool_calls")
    let toolCallId ← orDefault stringJson.nullable none (field? d "tool_call_id")
    let name ← orDefault stringJson.nullable none (field? d "name")
    some { role, content, toolCalls, toolCallId, name }
  stored m := m
  read_write m := by simp

instance : ChatMessage.json.Plain := ⟨fun _ => rfl, fun _ => Codec.isNull_record _⟩

def ForkPoint.json : Codec Value ForkPoint where
  write f := record [
    ("message_idx", some (natJson.write f.messageIdx)),
    ("run_id", f.runId.map runIdJson.write),
    ("created_at_ms", some (intJson.write f.createdAtMs))]
  read d := do
    let messageIdx ← required natJson (field? d "message_idx")
    let runId ← orDefault runIdJson.nullable none (field? d "run_id")
    let createdAtMs ← required intJson (field? d "created_at_ms")
    some { messageIdx, runId, createdAtMs }
  stored f := f
  read_write f := by simp

instance : ForkPoint.json.Plain := ⟨fun _ => rfl, fun _ => Codec.isNull_record _⟩

def Session.json : Codec Value Session where
  write s := record [
    ("id", some (sessionIdJson.write s.id)),
    ("space_id", some (spaceIdJson.write s.spaceId)),
    ("name", some (stringJson.nullable.write s.name)),
    ("agent_id", some (agentIdJson.nullable.write s.agentId)),
    ("thread", unlessEmpty ChatMessage.json s.thread),
    ("run_ids", some (runIdJson.list.write s.runIds)),
    ("flow_run_ids", unlessEmpty stringJson s.flowRunIds),
    ("read_namespace", some (namespaceIdJson.nullable.write s.readNamespace)),
    ("write_namespace", some (namespaceIdJson.nullable.write s.writeNamespace)),
    ("parent_session_id", s.parentSessionId.map sessionIdJson.write),
    ("fork_point", s.forkPoint.map ForkPoint.json.write),
    ("created_at_ms", some (intJson.write s.createdAtMs)),
    ("updated_at_ms", some (intJson.write s.updatedAtMs)),
    ("manually_named", some (boolJson.write s.manuallyNamed))]
  read d := do
    let id ← required sessionIdJson (field? d "id")
    let spaceId ← required spaceIdJson (field? d "space_id")
    let name ← orDefault stringJson.nullable none (field? d "name")
    let agentId ← orDefault agentIdJson.nullable none (field? d "agent_id")
    let thread ← orDefault ChatMessage.json.list [] (field? d "thread")
    let runIds ← orDefault runIdJson.list [] (field? d "run_ids")
    let flowRunIds ← orDefault stringJson.list [] (field? d "flow_run_ids")
    let readNamespace ← orDefault namespaceIdJson.nullable none (field? d "read_namespace")
    let writeNamespace ← orDefault namespaceIdJson.nullable none (field? d "write_namespace")
    let parentSessionId ← orDefault sessionIdJson.nullable none (field? d "parent_session_id")
    let forkPoint ← orDefault ForkPoint.json.nullable none (field? d "fork_point")
    let createdAtMs ← required intJson (field? d "created_at_ms")
    let updatedAtMs ← required intJson (field? d "updated_at_ms")
    let manuallyNamed ← orDefault boolJson false (field? d "manually_named")
    some { id, spaceId, name, agentId, thread, runIds, flowRunIds, readNamespace, writeNamespace,
           parentSessionId, forkPoint, createdAtMs, updatedAtMs, manuallyNamed }
  stored s := s
  read_write s := by simp

instance : Session.json.Plain := ⟨fun _ => rfl, fun _ => Codec.isNull_record _⟩

def MemoryEntry.json : Codec Value MemoryEntry where
  write e := record [
    ("key", some (stringJson.write e.key)),
    ("value", some (raw.write e.value)),
    ("updated_at_ms", some (intJson.write e.updatedAtMs))]
  read d := do
    let key ← required stringJson (field? d "key")
    let value ← required raw (field? d "value")
    let updatedAtMs ← required intJson (field? d "updated_at_ms")
    some { key, value, updatedAtMs }
  stored e := e
  read_write e := by simp

instance : MemoryEntry.json.Plain := ⟨fun _ => rfl, fun _ => Codec.isNull_record _⟩

abbrev entriesJson : Codec Value (Table String MemoryEntry) :=
  .table id some (fun _ => rfl) MemoryEntry.json

def MemoryNamespace.json : Codec Value MemoryNamespace where
  write n := record [
    ("id", some (namespaceIdJson.write n.id)),
    ("entries", some (entriesJson.write n.entries))]
  read d := do
    let id ← required namespaceIdJson (field? d "id")
    let entries ← required entriesJson (field? d "entries")
    some { id, entries }
  stored n := n
  read_write n := by simp

instance : MemoryNamespace.json.Plain := ⟨fun _ => rfl, fun _ => Codec.isNull_record _⟩

def HistoryEntry.json : Codec Value HistoryEntry where
  write e := record [
    ("recorded_at_ms", some (intJson.write e.recordedAtMs)),
    ("payload", some (raw.write e.payload))]
  read d := do
    let recordedAtMs ← required intJson (field? d "recorded_at_ms")
    let payload ← required raw (field? d "payload")
    some { recordedAtMs, payload }
  stored e := e
  read_write e := by simp

instance : HistoryEntry.json.Plain := ⟨fun _ => rfl, fun _ => Codec.isNull_record _⟩

def ProducedDoc.json : Codec Value ProducedDoc where
  write p := record [
    ("doc_type", some (stringJson.write p.docType)),
    ("path", some (stringJson.write p.path)),
    ("revision", some (u32Json.write p.revision))]
  read d := do
    let docType ← required stringJson (field? d "doc_type")
    let path ← required stringJson (field? d "path")
    let revision ← required u32Json (field? d "revision")
    some { docType, path, revision }
  stored p := p
  read_write p := by simp

instance : ProducedDoc.json.Plain := ⟨fun _ => rfl, fun _ => Codec.isNull_record _⟩

def ResolvedReview.json : Codec Value ResolvedReview where
  write r := record [
    ("review_id", some (reviewIdJson.write r.reviewId)),
    ("request", some (raw.write r.request)),
    ("decision", some (PermissionState.json.write r.decision)),
    ("notes", r.notes.map stringJson.write),
    ("resolved_at_ms", some (intJson.write r.resolvedAtMs))]
  read d := do
    let reviewId ← required reviewIdJson (field? d "review_id")
    let request ← required raw (field? d "request")
    let decision ← required PermissionState.json (field? d "decision")
    let notes ← orDefault stringJson.nullable none (field? d "notes")
    let resolvedAtMs ← required intJson (field? d "resolved_at_ms")
    some { reviewId, request, decision, notes, resolvedAtMs }
  stored r := r
  read_write r := by simp

instance : ResolvedReview.json.Plain := ⟨fun _ => rfl, fun _ => Codec.isNull_record _⟩

def FileChange.json : Codec Value FileChange where
  write c := record [
    ("path", some (stringJson.write c.path)),
    ("additions", some (intJson.write c.additions)),
    ("deletions", some (intJson.write c.deletions))]
  read d := do
    let path ← required stringJson (field? d "path")
    let additions ← required intJson (field? d "additions")
    let deletions ← required intJson (field? d "deletions")
    some { path, additions, deletions }
  stored c := c
  read_write c := by simp

instance : FileChange.json.Plain := ⟨fun _ => rfl, fun _ => Codec.isNull_record _⟩

def Run.json : Codec Value Run where
  write r := record [
    ("id", some (runIdJson.write r.id)),
    ("space_id", some (spaceIdJson.write r.spaceId)),
    ("agent_id", some (agentIdJson.nullable.write r.agentId)),
    ("session_id", some (sessionIdJson.nullable.write r.sessionId)),
    ("flow_run_id", some (stringJson.nullable.write r.flowRunId)),
    ("status", some (RunStatus.json.write r.status)),
    ("spec", some (raw.write r.spec)),
    ("history", some (HistoryEntry.json.list.write r.history)),
    ("created_at_ms", some (intJson.write r.createdAtMs)),
    ("updated_at_ms", some (intJson.write r.updatedAtMs)),
    ("goal", r.goal.map stringJson.write),
    ("parent_run_id", r.parentRunId.map runIdJson.write),
    ("produces", unlessEmpty ProducedDoc.json r.produces),
    ("resolved_reviews", unlessEmpty ResolvedReview.json r.resolvedReviews),
    ("file_changes", unlessEmpty FileChange.json r.fileChanges)]
  read d := do
    let id ← required runIdJson (field? d "id")
    let spaceId ← required spaceIdJson (field? d "space_id")
    let agentId ← orDefault agentIdJson.nullable none (field? d "agent_id")
    let sessionId ← orDefault sessionIdJson.nullable none (field? d "session_id")
    let flowRunId ← orDefault stringJson.nullable none (field? d "flow_run_id")
    let status ← required RunStatus.json (field? d "status")
    let spec ← required raw (field? d "spec")
    let history ← required HistoryEntry.json.list (field? d "history")
    let createdAtMs ← required intJson (field? d "created_at_ms")
    let updatedAtMs ← required intJson (field? d "updated_at_ms")
    let goal ← orDefault stringJson.nullable none (field? d "goal")
    let parentRunId ← orDefault runIdJson.nullable none (field? d "parent_run_id")
    let produces ← orDefault ProducedDoc.json.list [] (field? d "produces")
    let resolvedReviews ← orDefault ResolvedReview.json.list [] (field? d "resolved_reviews")
    let fileChanges ← orDefault FileChange.json.list [] (field? d "file_changes")
    some { id, spaceId, agentId, sessionId, flowRunId, status, spec, history, createdAtMs,
           updatedAtMs, goal, parentRunId, produces, resolvedReviews, fileChanges }
  stored r := r
  read_write r := by simp

instance : Run.json.Plain := ⟨fun _ => rfl, fun _ => Codec.isNull_record _⟩

def PendingReview.json : Codec Value PendingReview where
  write r := record [
    ("id", some (reviewIdJson.write r.id)),
    ("run_id", some (runIdJson.write r.runId)),
    ("request", some (raw.write r.request)),
    ("state", some (PermissionState.json.write r.state)),
    ("notes", some (stringJson.nullable.write r.notes)),
    ("created_at_ms", some (intJson.write r.createdAtMs)),
    ("updated_at_ms", some (intJson.write r.updatedAtMs))]
  read d := do
    let id ← required reviewIdJson (field? d "id")
    let runId ← required runIdJson (field? d "run_id")
    let request ← required raw (field? d "request")
    let state ← required PermissionState.json (field? d "state")
    let notes ← orDefault stringJson.nullable none (field? d "notes")
    let createdAtMs ← required intJson (field? d "created_at_ms")
    let updatedAtMs ← required intJson (field? d "updated_at_ms")
    some { id, runId, request, state, notes, createdAtMs, updatedAtMs }
  stored r := r
  read_write r := by simp

instance : PendingReview.json.Plain := ⟨fun _ => rfl, fun _ => Codec.isNull_record _⟩

/-- A task as it comes back: an output of `null` reads as none. -/
def Task.stored (t : Task) : Task := { t with output := t.output.filter fun d => !d.isNull }

def Task.json : Codec Value Task where
  write t := record [
    ("id", some (taskIdJson.write t.id)),
    ("parent_id", t.parentId.map taskIdJson.write),
    ("label", some (stringJson.write t.label)),
    ("agent_id", t.agentId.map agentIdJson.write),
    ("flow_id", t.flowId.map stringJson.write),
    ("status", some (TaskStatus.json.write t.status)),
    ("output", t.output.map raw.write),
    ("created_at_ms", some (intJson.write t.createdAtMs))]
  read d := do
    let id ← required taskIdJson (field? d "id")
    let parentId ← orDefault taskIdJson.nullable none (field? d "parent_id")
    let label ← required stringJson (field? d "label")
    let agentId ← orDefault agentIdJson.nullable none (field? d "agent_id")
    let flowId ← orDefault stringJson.nullable none (field? d "flow_id")
    let status ← required TaskStatus.json (field? d "status")
    let output ← orDefault raw.nullable none (field? d "output")
    let createdAtMs ← required intJson (field? d "created_at_ms")
    some { id, parentId, label, agentId, flowId, status, output, createdAtMs }
  stored := Task.stored
  read_write t := by
    have hOutput : raw.nullable.stored t.output = t.output.filter fun d => !d.isNull :=
      congrFun Option.map_id _
    simp [hOutput, Task.stored]

abbrev tasksJson : Codec Value (Table TaskId Task) :=
  .table (·.uuid) (some ⟨·⟩) (fun _ => rfl) Task.json

def TaskTree.json : Codec Value TaskTree where
  write t := record [("tasks", some (tasksJson.write t.tasks))]
  read d := do
    let tasks ← required tasksJson (field? d "tasks")
    some { tasks }
  stored t := ⟨t.tasks.mapValues Task.stored⟩
  read_write t := by
    simp
    rfl

abbrev spacesJson : Codec Value (Table SpaceId Space) :=
  .table (·.uuid) (some ⟨·⟩) (fun _ => rfl) Space.json

abbrev agentsJson : Codec Value (Table AgentId Agent) :=
  .table (·.uuid) (some ⟨·⟩) (fun _ => rfl) Agent.json

abbrev sessionsJson : Codec Value (Table SessionId Session) :=
  .table (·.text) (some ⟨·⟩) (fun _ => rfl) Session.json

abbrev runsJson : Codec Value (Table RunId Run) :=
  .table (·.uuid) (some ⟨·⟩) (fun _ => rfl) Run.json

abbrev memoryJson : Codec Value (Table MemoryNamespaceId MemoryNamespace) :=
  .table (·.text) (some ⟨·⟩) (fun _ => rfl) MemoryNamespace.json

abbrev reviewsJson : Codec Value (Table ReviewId PendingReview) :=
  .table (·.uuid) (some ⟨·⟩) (fun _ => rfl) PendingReview.json

abbrev taskTreesJson : Codec Value (Table RunId TaskTree) :=
  .table (·.uuid) (some ⟨·⟩) (fun _ => rfl) TaskTree.json

/-- A snapshot as it comes back: the memory is left out of the file. -/
def Snapshot.stored (s : Snapshot) : Snapshot :=
  { s with
    memory := ∅
    taskTrees := s.taskTrees.mapValues fun t => ⟨t.tasks.mapValues Task.stored⟩ }

/-- The document of a snapshot. -/
def Snapshot.json : Codec Value Snapshot where
  write s := record [
    ("schema_version", some (u32Json.write s.schemaVersion)),
    ("spaces", some (spacesJson.write s.spaces)),
    ("agents", some (agentsJson.write s.agents)),
    ("sessions", some (sessionsJson.write s.sessions)),
    ("runs", some (runsJson.write s.runs)),
    ("reviews", some (reviewsJson.write s.reviews)),
    ("task_trees", some (taskTreesJson.write s.taskTrees))]
  read d := do
    let schemaVersion ← orDefault u32Json 0 (field? d "schema_version")
    let spaces ← orDefault spacesJson ∅ (field? d "spaces")
    let agents ← orDefault agentsJson ∅ (field? d "agents")
    let sessions ← orDefault sessionsJson ∅ (field? d "sessions")
    let runs ← orDefault runsJson ∅ (field? d "runs")
    let memory ← orDefault memoryJson ∅ (field? d "memory")
    let reviews ← orDefault reviewsJson ∅ (field? d "reviews")
    let taskTrees ← orDefault taskTreesJson ∅ (field? d "task_trees")
    some { schemaVersion, spaces, agents, sessions, runs, memory, reviews, taskTrees }
  stored := Snapshot.stored
  read_write s := by
    have hTrees : taskTreesJson.stored s.taskTrees =
        s.taskTrees.mapValues fun t => ⟨t.tasks.mapValues Task.stored⟩ := rfl
    simp [hTrees, Snapshot.stored, orDefault]

end Cronymax.Authority
