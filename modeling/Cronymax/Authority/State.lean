import Cronymax.Table.Edits

/-! The data that the runtime authority owns: spaces, agents, sessions, runs, reviews, and task
trees, together in one snapshot.  An identifier stands by its text. -/

namespace Cronymax.Authority

structure SpaceId where
  uuid : String
deriving DecidableEq

structure RunId where
  uuid : String
deriving DecidableEq

structure AgentId where
  uuid : String
deriving DecidableEq

structure ReviewId where
  uuid : String
deriving DecidableEq

structure TaskId where
  uuid : String
deriving DecidableEq

structure SubscriptionId where
  uuid : String
deriving DecidableEq

structure SessionId where
  text : String
deriving DecidableEq

structure MemoryNamespaceId where
  text : String
deriving DecidableEq

/-- A JSON value.  A number stands by its text. -/
inductive Value where
  | null
  | bool (b : Bool)
  | number (text : String)
  | string (s : String)
  | array (items : List Value)
  | object (fields : List (String × Value))

namespace Value

/-- `get` on an object. -/
def get : Value → String → Option Value
  | .object fields, key => fields.lookup key
  | _, _ => none

def asStr : Value → Option String
  | .string s => some s
  | _ => none

end Value

structure Space where
  id : SpaceId
  name : String
  compactionThresholdPct : UInt8
  compactionRecencyTurns : Nat
deriving DecidableEq

structure Agent where
  id : AgentId
  spaceId : SpaceId
  name : String
  payload : Value

inductive ChatRole where
  | system
  | user
  | assistant
  | tool
deriving DecidableEq

structure ToolCall where
  id : String
  name : String
  arguments : String
deriving DecidableEq

structure ChatMessage where
  role : ChatRole
  content : Option String
  toolCalls : List ToolCall
  toolCallId : Option String
  name : Option String
deriving DecidableEq

structure ForkPoint where
  messageIdx : Nat
  runId : Option RunId
  createdAtMs : Int
deriving DecidableEq

structure Session where
  id : SessionId
  spaceId : SpaceId
  name : Option String
  agentId : Option AgentId
  thread : List ChatMessage
  runIds : List RunId
  flowRunIds : List String
  readNamespace : Option MemoryNamespaceId
  writeNamespace : Option MemoryNamespaceId
  parentSessionId : Option SessionId
  forkPoint : Option ForkPoint
  createdAtMs : Int
  updatedAtMs : Int
  manuallyNamed : Bool
deriving DecidableEq

structure MemoryEntry where
  key : String
  value : Value
  updatedAtMs : Int

structure MemoryNamespace where
  id : MemoryNamespaceId
  entries : Table String MemoryEntry

/-- `RunStatus`. -/
inductive RunStatus where
  | pending
  | running
  | paused
  | awaitingReview
  | succeeded
  | failed (message : String)
  | cancelled
deriving DecidableEq

namespace RunStatus

def isTerminal : RunStatus → Bool
  | .succeeded | .failed _ | .cancelled => true
  | _ => false

/-- `status_label`. -/
def label : RunStatus → String
  | .pending => "pending"
  | .running => "running"
  | .paused => "paused"
  | .awaitingReview => "awaiting_review"
  | .succeeded => "succeeded"
  | .failed _ => "failed"
  | .cancelled => "cancelled"

end RunStatus

inductive PermissionState where
  | pending
  | approved
  | rejected
  | deferred
deriving DecidableEq

def PermissionState.label : PermissionState → String
  | .pending => "pending"
  | .approved => "approved"
  | .rejected => "rejected"
  | .deferred => "deferred"

/-- A permission prompt of a run. -/
structure PendingReview where
  id : ReviewId
  runId : RunId
  request : Value
  state : PermissionState
  notes : Option String
  createdAtMs : Int
  updatedAtMs : Int

structure HistoryEntry where
  recordedAtMs : Int
  payload : Value

structure ProducedDoc where
  docType : String
  path : String
  revision : UInt32
deriving DecidableEq

structure ResolvedReview where
  reviewId : ReviewId
  request : Value
  decision : PermissionState
  notes : Option String
  resolvedAtMs : Int

structure FileChange where
  path : String
  additions : Int
  deletions : Int
deriving DecidableEq

structure Run where
  id : RunId
  spaceId : SpaceId
  agentId : Option AgentId
  sessionId : Option SessionId
  flowRunId : Option String
  status : RunStatus
  spec : Value
  history : List HistoryEntry
  createdAtMs : Int
  updatedAtMs : Int
  goal : Option String
  parentRunId : Option RunId
  produces : List ProducedDoc
  resolvedReviews : List ResolvedReview
  fileChanges : List FileChange

/-- The agent that a spec names. -/
def agentName (spec : Value) : Option String := (spec.get "agent_name").bind Value.asStr

/-- What the events of a run call its agent. -/
def Run.agentLabel (run : Run) : Option String := (run.agentId.map (·.uuid)).or (agentName run.spec)

inductive TaskStatus where
  | pending
  | running
  | completed
  | failed
deriving DecidableEq

structure Task where
  id : TaskId
  parentId : Option TaskId
  label : String
  agentId : Option AgentId
  flowId : Option String
  status : TaskStatus
  output : Option Value
  createdAtMs : Int

/-- The tasks of one run. -/
structure TaskTree where
  tasks : Table TaskId Task

/-- `Snapshot`, the state that is saved. -/
structure Snapshot where
  schemaVersion : UInt32
  spaces : Table SpaceId Space
  agents : Table AgentId Agent
  sessions : Table SessionId Session
  runs : Table RunId Run
  memory : Table MemoryNamespaceId MemoryNamespace
  reviews : Table ReviewId PendingReview
  taskTrees : Table RunId TaskTree

def snapshotSchemaVersion : UInt32 := 5

namespace Snapshot

/-- `Snapshot::default`. -/
def empty : Snapshot := ⟨snapshotSchemaVersion, ∅, ∅, ∅, ∅, ∅, ∅, ∅⟩

variable (s : Snapshot)

@[grind =] def status? (runId : RunId) : Option RunStatus := (s.runs.lookup runId).map (·.status)

/-- The snapshot with this run. -/
@[grind =] def setRun (runId : RunId) (run : Run) : Snapshot := { s with runs := s.runs.insert runId run }

@[grind =] def setSession (sessionId : SessionId) (session : Session) : Snapshot :=
  { s with sessions := s.sessions.insert sessionId session }

def setReview (reviewId : ReviewId) (review : PendingReview) : Snapshot :=
  { s with reviews := s.reviews.insert reviewId review }

@[simp] theorem status_setRun (runId r : RunId) (run : Run) :
    (s.setRun runId run).status? r = if r = runId then some run.status else s.status? r := by
  simp only [status?, setRun, Table.lookup_insert_if]
  split <;> rfl

@[simp] theorem status_setReview (reviewId : ReviewId) (review : PendingReview) (r : RunId) :
    (s.setReview reviewId review).status? r = s.status? r := rfl

@[simp] theorem status_setSession (sessionId : SessionId) (session : Session) (r : RunId) :
    (s.setSession sessionId session).status? r = s.status? r := rfl

@[simp] theorem reviews_setRun (runId : RunId) (run : Run) :
    (s.setRun runId run).reviews = s.reviews := rfl

@[simp] theorem reviews_setSession (sessionId : SessionId) (session : Session) :
    (s.setSession sessionId session).reviews = s.reviews := rfl

theorem status_of_lookup {runId : RunId} {run : Run} (h : s.runs.lookup runId = some run) :
    s.status? runId = some run.status := by
  rw [status?, h, Option.map_some]

end Snapshot

inductive LogLevel where
  | trace
  | debug
  | info
  | warn
  | error
deriving DecidableEq

inductive RuntimeEventPayload where
  | runStatus (runId status : String) (agentId flowRunId : Option String) (detail : Option Value)
  | trace (runId : String) (trace : Value)
  | token (runId turnId delta : String)
  | thinkingToken (runId turnId delta : String)
  | permissionRequest (runId reviewId : String) (request : Value)
  | log (level : LogLevel) (target message : String)
  | raw (data : Value)
  | fileEdited (runId : String) (sessionId : Option String) (path diff : String)
  | gitCommitCreated (runId : String) (sessionId : Option String) (hash message : String)
      (filesChanged : List String)
  | gitPushed (runId : String) (sessionId : Option String) (remote branch : String)
      (commitsPushed : Nat)
  | taskStarted (runId taskId : String)
  | taskCompleted (runId taskId : String) (success : Bool)
  | sessionRenamed (sessionId name : String) (manuallyNamed : Bool)
  | criticResult (runId agentName : String) (passed : Bool) (summary : String)
      (revision maxRevisions : UInt32)

/-- `RuntimeEvent`: a payload with its number in the subscription. -/
structure RuntimeEvent where
  sequence : Nat
  emittedAtMs : Int
  payload : RuntimeEventPayload

end Cronymax.Authority
