import Cronymax.Ballot.Tally
import Cronymax.Flow.Definition

/-! The state of one run of a flow, and what each critical section of the runtime does to it. -/

namespace Cronymax.Flow

inductive FlowRunStatus where
  | pending
  | running
  | paused
  | completed
  | cancelled
  | failed
deriving DecidableEq

/-- `is_terminal`. -/
def FlowRunStatus.isTerminal : FlowRunStatus → Bool
  | .completed | .cancelled | .failed => true
  | _ => false

structure FlowRunDocumentEntry where
  name : String
  docType : String
  producerNode : String
  currentRevision : UInt32
deriving DecidableEq

inductive PortStatus where
  | pending
  | inReview
  | awaitingOwner
  | approved
  | seeded
deriving DecidableEq, Inhabited

inductive TriggerKind where
  | initial
  | andJoin
  | cycleRetrigger
  | implicitReinvoke
  | rejectedRequeue
  | humanSubmit
  | reviewerInvocation
  | humanReviewPending
  | humanFeedback
deriving DecidableEq

/-- `InvocationTrigger`, which stands for an `InvocationRecord` too. -/
structure InvocationTrigger where
  kind : TriggerKind
  approvedPort : Option String := none
  fromNode : Option String := none
  reviewerDocPath : Option String := none
deriving DecidableEq

/-- `NodeRunState`: the ports of a node, its counters and its invocations. -/
structure NodeRunState where
  ports : AList fun _ : String => PortStatus
  invocations : List InvocationTrigger
  portCycles : AList fun _ : String => UInt32

instance : Inhabited NodeRunState := ⟨⟨∅, [], ∅⟩⟩

structure ReviewComment where
  severity : String
  message : String
  suggestion : Option String := none
deriving DecidableEq

structure AvailableDoc where
  path : String
  docType : String
  revision : UInt32
deriving DecidableEq

inductive BlackboardWriter where
  | agentGenerated (taskId : Option String)
  | humanInjected
  | autoSeeded (fromTaskId : String)
deriving DecidableEq

structure BlackboardEntry where
  doc : AvailableDoc
  writtenBy : BlackboardWriter
deriving DecidableEq

/-- `InvocationContext`, with which an agent is invoked. -/
structure InvocationContext where
  nodeId : String
  owner : String
  trigger : InvocationTrigger
  availableDocs : List AvailableDoc := []
  pendingPorts : List String := []
  reviewComments : Option (List ReviewComment) := none
  humanProvidedKeys : List String := []
deriving DecidableEq

inductive ReviewVerdict where
  | approve
  | reject
deriving DecidableEq

/-- `FlowRunState`, which `state.json` holds. -/
structure FlowRunState where
  runId : String
  flowId : String
  status : FlowRunStatus
  startedAt : String
  endedAt : Option String
  documents : List FlowRunDocumentEntry
  failureReason : Option String
  initialInput : String
  nodeStates : AList fun _ : String => NodeRunState
  reviewerVerdicts : AList fun _ : String => List (String × ReviewVerdict)
  originatingSessionId : Option String
  blackboard : AList fun _ : String => BlackboardEntry

namespace FlowRunState

def new (runId flowId initialInput now : String) : FlowRunState where
  runId := runId
  flowId := flowId
  status := .running
  startedAt := now
  endedAt := none
  documents := []
  failureReason := none
  initialInput := initialInput
  nodeStates := ∅
  reviewerVerdicts := ∅
  originatingSessionId := none
  blackboard := ∅

variable (s : FlowRunState)

/-- The state of a node, empty if it has none. -/
def nodeState (node : String) : NodeRunState := (s.nodeStates.lookup node).getD default

/-- The status of a port, pending if it has none. -/
@[grind =] def portStatus (node port : String) : PortStatus := ((s.nodeState node).ports.lookup port).getD .pending

/-- The state of a node is edited; a node without one gets one. -/
def modifyNode (node : String) (f : NodeRunState → NodeRunState) : FlowRunState :=
  { s with nodeStates := s.nodeStates.insert node (f (s.nodeState node)) }

/-- `node_states.entry(node).or_default()`, which changes nothing where the node has an entry. -/
def openNode (node : String) : FlowRunState :=
  if (s.nodeStates.lookup node).isSome then s else s.modifyNode node id

def setPort (node port : String) (status : PortStatus) : FlowRunState :=
  s.modifyNode node fun ns => { ns with ports := ns.ports.insert port status }

/-- `mark_port_status` changes the status. -/
def marks (node port : String) (status : PortStatus) : Bool :=
  !(s.portStatus node port = .approved && status ≠ .approved) && s.portStatus node port ≠ status

/-- The section of `mark_port_status`. -/
def markPort (node port : String) (status : PortStatus) : FlowRunState :=
  if s.marks node port status then s.setPort node port status else s.openNode node

/-- The section of `record_invocation`. -/
def recordInvocation (node : String) (trigger : InvocationTrigger) : FlowRunState :=
  s.modifyNode node fun ns => { ns with invocations := ns.invocations ++ [trigger] }

def portCycles (node port : String) : UInt32 := ((s.nodeState node).portCycles.lookup port).getD 0

/-- The section of `increment_port_cycles`: the counter is a `u32`. -/
def incrementPortCycles (node port : String) : FlowRunState :=
  s.modifyNode node fun ns =>
    { ns with portCycles := ns.portCycles.insert port ((ns.portCycles.lookup port).getD 0 + 1) }

def writeBlackboard (key : String) (entry : BlackboardEntry) : FlowRunState :=
  { s with blackboard := s.blackboard.insert key entry }

def verdicts (key : String) : List (String × ReviewVerdict) := (s.reviewerVerdicts.lookup key).getD []

/-- A reviewer's first verdict stands. -/
def recordVerdict (key reviewer : String) (verdict : ReviewVerdict) : FlowRunState :=
  { s with
    reviewerVerdicts := s.reviewerVerdicts.insert key
      (Ballot.record (s.verdicts key) reviewer verdict) }

/-- The section of `transition_run`. -/
@[grind =] def transition (status : FlowRunStatus) (reason : Option String) (now : String) : FlowRunState :=
  if s.status.isTerminal then s
  else { s with
    status
    endedAt := if status.isTerminal then some now else s.endedAt
    failureReason := reason.or s.failureReason }

/-- The ports of a node whose status passes the test. -/
def portsWhere (node : String) (test : PortStatus → Bool) : List String :=
  keysWhere (s.nodeState node).ports test

/-- The input is approved or seeded. -/
def satisfied (input : PortRef) : Bool :=
  s.portStatus input.1 input.2 = .approved || s.portStatus input.1 input.2 = .seeded

theorem nodeState_modifyNode (node node' : String) (f : NodeRunState → NodeRunState) :
    (s.modifyNode node f).nodeState node' =
      if node' = node then f (s.nodeState node) else s.nodeState node' := by
  unfold nodeState modifyNode
  split
  · subst node'
    simp [nodeState]
  · rw [AList.lookup_insert_ne ‹_›]

@[simp] theorem nodeState_openNode (node node' : String) :
    (s.openNode node).nodeState node' = s.nodeState node' := by
  unfold openNode
  split
  · rfl
  · rw [nodeState_modifyNode]
    split
    · subst node'
      rfl
    · rfl

theorem portStatus_modifyNode {node : String} {f : NodeRunState → NodeRunState}
    (hf : ∀ ns, (f ns).ports = ns.ports) (node' port' : String) :
    (s.modifyNode node f).portStatus node' port' = s.portStatus node' port' := by
  unfold portStatus
  rw [nodeState_modifyNode]
  split
  · subst node'
    rw [hf]
  · rfl

theorem portStatus_setPort (node port : String) (status : PortStatus) (node' port' : String) :
    (s.setPort node port status).portStatus node' port' =
      if node' = node ∧ port' = port then status else s.portStatus node' port' := by
  unfold portStatus setPort
  rw [nodeState_modifyNode]
  by_cases hn : node' = node
  · subst node'
    by_cases hp : port' = port
    · subst port'
      simp
    · simp [hp, AList.lookup_insert_ne]
  · simp [hn]

theorem portStatus_markPort (node port : String) (status : PortStatus) (node' port' : String) :
    (s.markPort node port status).portStatus node' port' =
      if node' = node ∧ port' = port ∧ s.portStatus node port ≠ .approved then status
      else s.portStatus node' port' := by
  unfold markPort
  by_cases hMarks : s.marks node port status = true
  · rw [if_pos hMarks, portStatus_setPort]
    simp only [marks, Bool.and_eq_true, Bool.not_eq_true', decide_eq_true_eq, decide_eq_false_iff_not,
      Bool.and_eq_false_imp] at hMarks
    by_cases hPort : node' = node ∧ port' = port
    · obtain ⟨rfl, rfl⟩ := hPort
      by_cases hApproved : s.portStatus node' port' = .approved
      · have hStatus : status = .approved := by simpa [hApproved] using hMarks.1
        simp [hApproved, hStatus]
      · simp [hApproved]
    · rw [if_neg hPort, if_neg fun h => hPort ⟨h.1, h.2.1⟩]
  · rw [if_neg hMarks, portStatus, nodeState_openNode, ← portStatus]
    split
    · rename_i h
      obtain ⟨rfl, rfl, hNot⟩ := h
      simpa [marks, hNot] using hMarks
    · rfl

@[simp] theorem portStatus_recordInvocation (node : String) (trigger : InvocationTrigger)
    (node' port' : String) :
    (s.recordInvocation node trigger).portStatus node' port' = s.portStatus node' port' :=
  s.portStatus_modifyNode (by intro _; rfl) node' port'

@[simp] theorem portStatus_incrementPortCycles (node port node' port' : String) :
    (s.incrementPortCycles node port).portStatus node' port' = s.portStatus node' port' :=
  s.portStatus_modifyNode (by intro _; rfl) node' port'

@[simp] theorem portStatus_writeBlackboard (key : String) (entry : BlackboardEntry)
    (node port : String) :
    (s.writeBlackboard key entry).portStatus node port = s.portStatus node port := rfl

@[simp] theorem portStatus_recordVerdict (key reviewer : String) (verdict : ReviewVerdict)
    (node port : String) :
    (s.recordVerdict key reviewer verdict).portStatus node port = s.portStatus node port := rfl

@[simp] theorem portStatus_transition (status : FlowRunStatus) (reason : Option String)
    (now node port : String) :
    (s.transition status reason now).portStatus node port = s.portStatus node port := by
  unfold transition
  split <;> rfl

def invocations (node : String) : List InvocationTrigger := (s.nodeState node).invocations

theorem invocations_modifyNode {node : String} {f : NodeRunState → NodeRunState}
    (hf : ∀ ns, (f ns).invocations = ns.invocations) (node' : String) :
    (s.modifyNode node f).invocations node' = s.invocations node' := by
  unfold invocations
  rw [nodeState_modifyNode]
  split
  · subst node'
    rw [hf]
  · rfl

theorem invocations_markPort (node port : String) (status : PortStatus) (node' : String) :
    (s.markPort node port status).invocations node' = s.invocations node' := by
  unfold markPort
  split
  · exact s.invocations_modifyNode (by intro _; rfl) node'
  · rw [invocations, nodeState_openNode, invocations]

theorem invocations_recordInvocation (node : String) (trigger : InvocationTrigger)
    (node' : String) :
    (s.recordInvocation node trigger).invocations node' =
      s.invocations node' ++ if node = node' then [trigger] else [] := by
  unfold invocations recordInvocation
  rw [nodeState_modifyNode]
  by_cases h : node' = node
  · subst node'
    simp
  · simp [h, Ne.symm h]

theorem verdicts_recordVerdict (key reviewer : String) (verdict : ReviewVerdict) (key' : String) :
    (s.recordVerdict key reviewer verdict).verdicts key' =
      if key' = key then Ballot.record (s.verdicts key) reviewer verdict
      else s.verdicts key' := by
  unfold verdicts recordVerdict
  split
  · subst key'
    simp [verdicts]
  · rw [AList.lookup_insert_ne ‹_›]

theorem portCycles_modifyNode {node : String} {f : NodeRunState → NodeRunState}
    (hf : ∀ ns, (f ns).portCycles = ns.portCycles) (node' port' : String) :
    (s.modifyNode node f).portCycles node' port' = s.portCycles node' port' := by
  unfold portCycles
  rw [nodeState_modifyNode]
  split
  · subst node'
    rw [hf]
  · rfl

theorem portCycles_incrementPortCycles (node port node' port' : String) :
    (s.incrementPortCycles node port).portCycles node' port' =
      if node' = node ∧ port' = port then s.portCycles node port + 1
      else s.portCycles node' port' := by
  unfold portCycles incrementPortCycles
  rw [nodeState_modifyNode]
  by_cases hn : node' = node
  · subst node'
    by_cases hp : port' = port
    · subst port'
      simp
    · simp [hp, AList.lookup_insert_ne]
  · simp [hn]

theorem transition_of_terminal (h : s.status.isTerminal = true) (status : FlowRunStatus)
    (reason : Option String) (now : String) : s.transition status reason now = s := by
  simp [transition, h]

/-- The status, with what an end of the run sets. -/
def lifecycle : FlowRunStatus × Option String × Option String :=
  (s.status, s.endedAt, s.failureReason)

theorem markPort_eq (node port : String) (status : PortStatus) :
    ∃ nodes, s.markPort node port status = { s with nodeStates := nodes } := by
  unfold markPort openNode
  split
  · exact ⟨_, rfl⟩
  · split
    · exact ⟨s.nodeStates, rfl⟩
    · exact ⟨_, rfl⟩

end FlowRunState

structure Revision where
  rev : UInt32
  submittedAt : String
  submittedBy : String
  sha : String
deriving DecidableEq

structure StoredComment where
  comment : ReviewComment
  reviewer : String
  timestamp : String
deriving DecidableEq

/-- The entry of a document in `reviews.json`. -/
structure ReviewEntry where
  currentRevision : UInt32 := 0
  status : String := "DRAFT"
  roundCount : Nat := 0
  revisions : List Revision := []
  comments : List StoredComment := []
deriving DecidableEq

/-- The `docs` object. -/
abbrev Reviews := AList fun _ : String => ReviewEntry

namespace Reviews

variable (reviews : Reviews)

def entry (doc : String) : ReviewEntry := (reviews.lookup doc).getD {}

/-- One replacement of `unescape` of a JSON pointer. -/
def unescape (code char : Char) : List Char → List Char
  | '~' :: c :: rest =>
    if c = code then char :: unescape code char rest else '~' :: unescape code char (c :: rest)
  | c :: rest => c :: unescape code char rest
  | [] => []

/-- The member that the JSON pointer of the port leads to. -/
def pointed (port : String) : Option String :=
  if '/' ∈ port.toList then none
  else some (String.ofList (unescape '0' '~' (unescape '1' '/' port.toList)))

/-- The comments that the pointer finds. -/
def commentsAt (port : String) : List ReviewComment :=
  match (pointed port).bind reviews.lookup with
  | some entry => entry.comments.map (·.comment)
  | none => []

/-- The file with the comments added to its entry. -/
def addComments (port reviewer now : String) (comments : List ReviewComment) : Reviews :=
  let entry := reviews.entry port
  reviews.insert port
    { entry with comments := entry.comments ++ comments.map (⟨·, reviewer, now⟩) }

/-- The file with a revision entered or its status changed. -/
def upsert (doc node sha : String) (revision : UInt32) (status now : String) : Reviews :=
  let entry := reviews.entry doc
  let entry := if revision = 0 then entry else { entry with
    currentRevision := revision
    revisions := entry.revisions ++ [⟨revision, now, node, sha⟩]
    roundCount := if status = "IN_REVIEW" then entry.roundCount + 1 else entry.roundCount }
  reviews.insert doc { entry with status }

end Reviews

end Cronymax.Flow
