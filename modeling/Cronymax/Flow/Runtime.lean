import Cronymax.Atomic.Program
import Cronymax.Flow.Activation

/-! The flow runtime.  Its operations are programs whose actions are the sections of the source
that hold a lock or make a file operation; other operations may act between any two of them.  What
the operating system will answer is part of the state: the outcome of each file operation to come
and each reading of the clock to come. -/

namespace Cronymax.Flow

open Atomic

/-- `FlowRuntime` with the files that it writes, the faults of the file system and the clock still to
come. -/
structure FlowRuntime where
  runs : AList fun _ : String => FlowRunState
  chatSessions : AList fun _ : String => String
  stateFiles : AList fun _ : String × String => FlowRunState
  reviewFiles : AList fun _ : String × String => Reviews
  reviewTmps : AList fun _ : String × String => Reviews
  faults : List (Option String)
  clock : List String

namespace FlowRuntime

variable (w : FlowRuntime)

def getRun (runId : String) : Option FlowRunState := w.runs.lookup runId

/-- `port_status`: pending for a port or a run that is not there. -/
@[grind =] def portStatus (runId node port : String) : PortStatus :=
  match w.getRun runId with
  | some s => s.portStatus node port
  | none => .pending

/-- The record of a run under the lock. -/
@[grind =] def modifyRun (runId : String) (f : FlowRunState → FlowRunState) : FlowRuntime :=
  match w.getRun runId with
  | some s => { w with runs := w.runs.insert runId (f s) }
  | none => w

/-- The error of the next write, if it fails. -/
@[grind =] def fault : Option String := w.faults.headD none

/-- The next reading of the clock. -/
def now : String := w.clock.headD ""

/-- A rename fails too where there is no temporary file. -/
def renameFault (flowId runId : String) : Option String :=
  match w.fault, w.reviewTmps.lookup (flowId, runId) with
  | some e, _ => some e
  | none, none => some "No such file or directory (os error 2)"
  | none, some _ => none

end FlowRuntime

/-- The sections of the operations. -/
inductive Act where
  | getRun (runId : String)
  | snapshot (runId : String)
  | portStatus (runId node port : String)
  | markPortStatus (runId node port : String) (status : PortStatus)
  | markPortStatusUnchecked (runId node port : String) (status : PortStatus)
  | recordInvocation (runId node : String) (trigger : InvocationTrigger)
  | incrementPortCycles (runId node port : String)
  | recordVerdict (runId key reviewer : String) (verdict : ReviewVerdict)
  | writeBlackboardEntry (runId key : String) (entry : BlackboardEntry)
  | transition (runId : String) (status : FlowRunStatus) (reason : Option String)
  | register (state : FlowRunState)
  | insertChatSession (runId sessionId : String)
  | setOriginatingSession (runId sessionId : String)
  | utcNowIso
  | persistRun (state : FlowRunState)
  | readReviews (flowId runId : String)
  | writeReviewsTmp (flowId runId : String) (reviews : Reviews)
  | renameReviews (flowId runId : String)

/-- What a section does to the state. -/
@[grind =] def Act.apply : Act → FlowRuntime → FlowRuntime
  | .getRun _, w | .snapshot _, w | .portStatus _ _ _, w => w
  | .markPortStatus runId node port status, w => w.modifyRun runId (·.markPort node port status)
  | .markPortStatusUnchecked runId node port status, w =>
    w.modifyRun runId (·.setPort node port status)
  | .recordInvocation runId node trigger, w => w.modifyRun runId (·.recordInvocation node trigger)
  | .incrementPortCycles runId node port, w => w.modifyRun runId (·.incrementPortCycles node port)
  | .recordVerdict runId key reviewer verdict, w =>
    w.modifyRun runId (·.recordVerdict key reviewer verdict)
  | .writeBlackboardEntry runId key entry, w => w.modifyRun runId (·.writeBlackboard key entry)
  | .transition runId status reason, w =>
    { w.modifyRun runId (·.transition status reason w.now) with clock := w.clock.tail }
  | .register state, w => { w with runs := w.runs.insert state.runId state }
  | .insertChatSession runId sessionId, w =>
    { w with chatSessions := w.chatSessions.insert runId sessionId }
  | .setOriginatingSession runId sessionId, w =>
    w.modifyRun runId fun s => { s with originatingSessionId := some sessionId }
  | .utcNowIso, w => { w with clock := w.clock.tail }
  | .persistRun state, w =>
    { w with
      stateFiles :=
        if w.fault.isSome then w.stateFiles
        else w.stateFiles.insert (state.flowId, state.runId) state
      faults := w.faults.tail }
  | .readReviews _ _, w => { w with faults := w.faults.tail }
  | .writeReviewsTmp flowId runId reviews, w =>
    { w with
      reviewTmps :=
        if w.fault.isSome then w.reviewTmps else w.reviewTmps.insert (flowId, runId) reviews
      faults := w.faults.tail }
  | .renameReviews flowId runId, w =>
    match w.fault, w.reviewTmps.lookup (flowId, runId) with
    | none, some reviews =>
      { w with
        reviewFiles := w.reviewFiles.insert (flowId, runId) reviews
        reviewTmps := w.reviewTmps.erase (flowId, runId)
        faults := w.faults.tail }
    | _, _ => { w with faults := w.faults.tail }

instance : Acts Act FlowRuntime := ⟨Act.apply⟩

inductive FlowError where
  | runNotFound (runId : String)
  | verdictRunNotFound (runId : String)
  | verdictRunNotInMap (runId : String)
  | cycleLimit (node port action : String)
  | pass (e : PassError)
  | io (message : String)

def FlowError.message : FlowError → Option String
  | .runNotFound runId => some s!"run '{runId}' not found"
  | .verdictRunNotFound runId => some s!"run {runId} not found"
  | .verdictRunNotInMap runId => some s!"run {runId} not found in map"
  | .cycleLimit node port action =>
    some s!"cycle limit exceeded on node {node} port {port}; action={action}"
  | .pass _ => none
  | .io message => some message

abbrev Op (α : Type) := Prog Act FlowRuntime FlowError α

namespace FlowRuntime

/-- `persist_run`: `state.json` by way of a temporary file. -/
@[grind =] def persistRun (state : FlowRunState) : Op Unit := do
  let w ← Prog.perform (.persistRun state)
  match w.fault with
  | some e => .fail (.io e)
  | none => pure ()

/-- A section that edits the record and returns the copy it leaves. -/
@[grind =] def updateRun (act : Act) (runId : String) (f : FlowRunState → FlowRunState) : Op FlowRunState := do
  let w ← Prog.perform act
  match w.getRun runId with
  | none => .fail (.runNotFound runId)
  | some s => do
    persistRun (f s)
    pure (f s)

def utcNowIso : Op String := do
  let w ← Prog.perform .utcNowIso
  pure w.now

/-- The reading of the review file. -/
@[grind =] def readReviews (flowId runId : String) : Op Reviews := do
  let w ← Prog.perform (.readReviews flowId runId)
  match w.fault with
  | some _ => pure ∅
  | none => pure ((w.reviewFiles.lookup (flowId, runId)).getD ∅)

/-- The write of the review file, through one temporary path. -/
def writeReviews (flowId runId : String) (reviews : Reviews) : Op Unit := do
  let w ← Prog.perform (.writeReviewsTmp flowId runId reviews)
  match w.fault with
  | some e => .fail (.io e)
  | none => do
    let w ← Prog.perform (.renameReviews flowId runId)
    match w.renameFault flowId runId with
    | some e => .fail (.io e)
    | none => pure ()

/-- `read_review_comments`. -/
@[grind =] def readReviewComments (flowId runId port : String) : Op (List ReviewComment) := do
  let reviews ← readReviews flowId runId
  pure (reviews.commentsAt port)

/-- `write_review_comments`: reading and writing are two steps. -/
def writeReviewComments (flowId runId port reviewer : String) (comments : List ReviewComment) :
    Op Unit := do
  let reviews ← readReviews flowId runId
  let now ← utcNowIso
  writeReviews flowId runId (reviews.addComments port reviewer now comments)

/-- `upsert_review_state`. -/
def upsertReviewState (flowId runId doc node sha : String) (revision : UInt32)
    (status : String) : Op Unit := do
  let reviews ← readReviews flowId runId
  let now ← (if revision > 0 then utcNowIso else pure "")
  writeReviews flowId runId (reviews.upsert doc node sha revision status now)

/-- The call of `upsert_review_state` for a run that is there. -/
def noteReview (runId doc node sha : String) (revision : UInt32) (status : String) : Op Unit := do
  let w ← Prog.perform (.getRun runId)
  match w.getRun runId with
  | none => pure ()
  | some s => do
    let _ ← (upsertReviewState s.flowId runId doc node sha revision status).attempt
    pure ()

def readPortStatus (runId node port : String) : Op PortStatus := do
  let w ← Prog.perform (.portStatus runId node port)
  pure (w.portStatus runId node port)

/-- `mark_port_status`: an approved port stays approved. -/
def markPortStatus (runId node port : String) (status : PortStatus) : Op Unit := do
  let w ← Prog.perform (.markPortStatus runId node port status)
  match w.getRun runId with
  | none => .fail (.runNotFound runId)
  | some s =>
    if s.marks node port status then persistRun (s.setPort node port status) else pure ()

/-- `mark_port_status_unchecked`. -/
def markPortStatusUnchecked (runId node port : String) (status : PortStatus) : Op Unit := do
  let _ ← updateRun (.markPortStatusUnchecked runId node port status) runId
    (·.setPort node port status)
  pure ()

def recordInvocation (runId node : String) (trigger : InvocationTrigger) : Op Unit := do
  let _ ← updateRun (.recordInvocation runId node trigger) runId (·.recordInvocation node trigger)
  pure ()

/-- `increment_port_cycles`. -/
def incrementPortCycles (runId node port : String) : Op UInt32 := do
  let s ← updateRun (.incrementPortCycles runId node port) runId (·.incrementPortCycles node port)
  pure (s.portCycles node port)

def writeBlackboardEntry (runId key : String) (entry : BlackboardEntry) : Op Unit := do
  let _ ← Prog.perform (.writeBlackboardEntry runId key entry)
  pure ()

def registerChatSession (runId sessionId : String) : Op Unit := do
  let _ ← Prog.perform (.insertChatSession runId sessionId)
  let _ ← Prog.perform (.setOriginatingSession runId sessionId)
  pure ()

/-- The documents that a context lists. -/
def availableDocs (s : FlowRunState) (node : FlowNode) : List AvailableDoc :=
  if node.reads.isEmpty then
    s.documents.map fun d =>
      ⟨s!".cronymax/specs/{s.runId}/{d.name}.md", d.docType, d.currentRevision⟩
  else node.reads.filterMap fun key => (s.blackboard.lookup key).map (·.doc)

/-- The keys that a human has written. -/
def humanProvidedKeys (s : FlowRunState) (node : FlowNode) : List String :=
  node.reads.filter fun key => (s.blackboard.lookup key).any (·.writtenBy = .humanInjected)

/-- The comments that a requeued producer gets to see. -/
def feedbackFor (flowId runId : String) (trigger : InvocationTrigger) :
    Op (Option (List ReviewComment)) :=
  match trigger.kind, trigger.approvedPort with
  | .rejectedRequeue, some port => do
    let comments ← readReviewComments flowId runId port
    pure (some comments)
  | _, _ => pure none

/-- `build_invocation_context`. -/
@[grind =] def buildInvocationContext (runId nodeId : String) (trigger : InvocationTrigger)
    (flow : FlowDefinition) : Op (Option InvocationContext) := do
  let w ← Prog.perform (.getRun runId)
  match w.getRun runId, flow.node nodeId with
  | some s, some node => do
    let reviewComments ← feedbackFor s.flowId runId trigger
    let approvedPorts := s.portsWhere nodeId fun status => status = .approved || status = .seeded
    pure (some {
      nodeId
      owner := node.owner
      trigger
      availableDocs := availableDocs s node
      pendingPorts := flow.pendingPortsFor nodeId approvedPorts
      reviewComments
      humanProvidedKeys := humanProvidedKeys s node })
  | _, _ => pure none

/-- `schedule_node_with_context`: the context is built, then the invocation is recorded. -/
def scheduleNodeWithContext (runId nodeId : String) (trigger : InvocationTrigger)
    (flow : FlowDefinition) : Op (Option InvocationContext) := do
  let ctx ← buildInvocationContext runId nodeId trigger flow
  recordInvocation runId nodeId trigger
  pure ctx

/-- One node is scheduled and its context collected. -/
def activateNode (runId : String) (flow : FlowDefinition) (nodeId : String)
    (trigger : InvocationTrigger) : Op (List InvocationContext) :=
  match flow.node nodeId with
  | none => pure []
  | some node =>
    if node.owner = "human" then
      Prog.collect (fun output : FlowNodeOutput => do
        markPortStatusUnchecked runId nodeId output.port .awaitingOwner
        pure []) node.outputs
    else do
      let ctx ← scheduleNodeWithContext runId nodeId trigger flow
      pure ctx.toList

/-- The loops over nodes to be activated. -/
def activateNodes (runId : String) (flow : FlowDefinition) (trigger : InvocationTrigger)
    (nodes : List String) : Op (List InvocationContext) :=
  Prog.collect (fun nodeId => activateNode runId flow nodeId trigger) nodes

@[grind =] def andJoinTrigger (producingNode port : String) : InvocationTrigger :=
  { kind := .andJoin, approvedPort := some port, fromNode := some producingNode }

def cycleRetriggerTrigger (node port : String) : InvocationTrigger :=
  { kind := .cycleRetrigger, approvedPort := some port, fromNode := some node }

def implicitReinvokeTrigger (port : String) : InvocationTrigger :=
  { kind := .implicitReinvoke, approvedPort := some port }

def rejectedRequeueTrigger (port : String) : InvocationTrigger :=
  { kind := .rejectedRequeue, approvedPort := some port }

/-- `fire_and_join_for`: one snapshot decides for all awaiting nodes. -/
def fireAndJoinFor (producingNode port runId : String) (flow : FlowDefinition) :
    Op (List InvocationContext) :=
  let awaiting := flow.graph.nodesAwaiting producingNode port
  if awaiting.isEmpty then pure []
  else do
    let w ← Prog.perform (.snapshot runId)
    match w.getRun runId with
    | none => pure []
    | some runState =>
      match activationPass ⟨runState, flow.graph⟩ awaiting (andJoinTrigger producingNode port) with
      | .error e => .fail (.pass e)
      | .ok toActivate =>
        Prog.collect (fun (nodeId, trigger) => activateNode runId flow nodeId trigger) toActivate

/-- The blackboard entry of an approved output. -/
def publishOutput (runId node port : String) (flow : FlowDefinition) : Op Unit :=
  match (flow.output node port).bind (·.blackboardKey) with
  | none => pure ()
  | some key => do
    let w ← Prog.perform (.getRun runId)
    let doc := (w.getRun runId).bind fun s =>
      (s.documents.find? fun d => d.producerNode == node && d.docType == port).map fun d =>
        AvailableDoc.mk s!".cronymax/specs/{s.runId}/{d.name}.md" d.docType d.currentRevision
    match doc with
    | none => pure ()
    | some doc => writeBlackboardEntry runId key ⟨doc, .agentGenerated (some node)⟩

/-- The nodes with the port among their cycle inputs are activated again. -/
def retriggerCycles (runId node port : String) (flow : FlowDefinition) :
    Op (List InvocationContext) :=
  activateNodes runId flow (cycleRetriggerTrigger node port)
    (flow.graph.nodesRetriggeredBy node port)

/-- The producer goes on as long as ports of its own are pending. -/
def reinvokeProducer (runId node port : String) (flow : FlowDefinition) :
    Op (List InvocationContext) :=
  match flow.node node with
  | none => pure []
  | some producer =>
    if producer.owner = "human" then pure []
    else do
      let w ← Prog.perform (.getRun runId)
      match w.getRun runId with
      | none => pure []
      | some s =>
        if (flow.pendingPortsFor node (s.portsWhere node (· = .approved))).isEmpty then pure []
        else do
          let ctx ← scheduleNodeWithContext runId node (implicitReinvokeTrigger port) flow
          pure ctx.toList

/-- The status is set, the entry published and the review noted. -/
def approvePort (runId node port : String) (flow : FlowDefinition) : Op Unit := do
  markPortStatus runId node port .approved
  publishOutput runId node port flow
  noteReview runId port node "" 0 "APPROVED"

/-- What `on_document_approved` does after the joins. -/
def followApproval (runId node port : String) (flow : FlowDefinition)
    (joined : List InvocationContext) : Op (List InvocationContext) := do
  let retriggered ← retriggerCycles runId node port flow
  let reinvoked ← reinvokeProducer runId node port flow
  pure (joined ++ retriggered ++ reinvoked)

@[grind =] def cascadeApproval (runId node port : String) (flow : FlowDefinition) :
    Op (List InvocationContext) := do
  approvePort runId node port flow
  let joined ← fireAndJoinFor node port runId flow
  followApproval runId node port flow joined

/-- `on_document_approved`. -/
def onDocumentApproved (runId node port : String) (flow : FlowDefinition) :
    Op (List InvocationContext) := do
  let status ← readPortStatus runId node port
  if status = .approved then pure [] else cascadeApproval runId node port flow

/-- `on_rejected_requeue`. -/
def onRejectedRequeue (runId node port : String) (flow : FlowDefinition) :
    Op (Option InvocationContext) := do
  markPortStatusUnchecked runId node port .pending
  noteReview runId port node "" 0 "CHANGES_REQUESTED"
  scheduleNodeWithContext runId node (rejectedRequeueTrigger port) flow

/-- `check_cycle_limit`: the count goes up first and is then compared. -/
def checkCycleLimit (runId node port : String) (flow : FlowDefinition) : Op (Option String) :=
  match flow.output node port with
  | none => pure none
  | some output =>
    match output.maxCycles with
    | none => pure none
    | some maxCycles =>
      if maxCycles > 0 then do
        let count ← incrementPortCycles runId node port
        pure (if count > maxCycles then some (output.onCycleExhausted.getD "halt") else none)
      else pure none

/-- One context for each agent that reviews. -/
def reviewContexts (node port docPath : String) (reviewers : List String) :
    List InvocationContext :=
  let trigger (kind : TriggerKind) : InvocationTrigger :=
    { kind, approvedPort := some port, fromNode := some node, reviewerDocPath := some docPath }
  (reviewers.filter (· ≠ "human")).map (fun reviewer =>
      { nodeId := reviewer, owner := reviewer, trigger := trigger .reviewerInvocation }) ++
    if "human" ∈ reviewers then
      [{ nodeId := node, owner := "human", trigger := trigger .humanReviewPending }]
    else []

/-- The port is in review and its reviewers are invoked. -/
def requestReviews (runId node port : String) (reviewers : List String) :
    Op (List InvocationContext) := do
  markPortStatus runId node port .inReview
  let w ← Prog.perform (.getRun runId)
  let docPath :=
    if (w.getRun runId).isSome then s!".cronymax/specs/{runId}/{port}.md" else ""
  pure (reviewContexts node port docPath reviewers)

/-- A document without reviewers is approved at once. -/
def receiveDocument (runId node port : String) (flow : FlowDefinition) :
    Op (List InvocationContext) :=
  let reviewers := ((flow.output node port).map (·.reviewers)).getD []
  if reviewers.isEmpty then onDocumentApproved runId node port flow
  else requestReviews runId node port reviewers

/-- `on_document_submitted`. -/
def onDocumentSubmitted (runId node port : String) (flow : FlowDefinition) (sha : String)
    (revision : UInt32) : Op (List InvocationContext) := do
  match ← checkCycleLimit runId node port flow with
  | some action => .fail (.cycleLimit node port action)
  | none => do
    noteReview runId port node sha revision "IN_REVIEW"
    receiveDocument runId node port flow

/-- The key of the verdicts in the record. -/
def verdictKey (runId node port : String) : String := s!"{runId}/{node}/{port}"

/-- The reviewers that are agents. -/
def agentReviewers (flow : FlowDefinition) (node port : String) : List String :=
  ((flow.output node port).map (·.reviewers.filter (· ≠ "human"))).getD []

def hasHumanReviewer (flow : FlowDefinition) (node port : String) : Bool :=
  ((flow.output node port).map fun output => decide ("human" ∈ output.reviewers)).getD false

/-- The context that tells of a human's review. -/
def humanReviewPending (node port : String) : InvocationContext where
  nodeId := node
  owner := "human"
  trigger := { kind := .humanReviewPending, approvedPort := some port, fromNode := some node }

/-- The tally: a rejection, enough approvals, or nothing yet. -/
@[grind =] def settleVerdict (runId node port : String) (flow : FlowDefinition)
    (verdicts : List (String × ReviewVerdict)) : Op (Option (List InvocationContext)) :=
  if Ballot.Vetoed ReviewVerdict.reject verdicts then do
    let ctx ← onRejectedRequeue runId node port flow
    pure (some ctx.toList)
  else if (agentReviewers flow node port).length ≤ verdicts.length then
    if hasHumanReviewer flow node port then pure (some [humanReviewPending node port])
    else do
      let ctxs ← onDocumentApproved runId node port flow
      pure (some ctxs)
  else pure none

/-- The comments of a verdict go to the review file, if there are any. -/
def keepComments (flowId runId port reviewer : String) (comments : List ReviewComment) :
    Op Unit :=
  if comments.isEmpty then pure ()
  else writeReviewComments flowId runId port reviewer comments

def persistVerdicts (runId : String) : Op Unit := do
  let w ← Prog.perform (.getRun runId)
  match w.getRun runId with
  | none => pure ()
  | some s => do
    let _ ← (persistRun s).attempt
    pure ()

/-- The verdict is entered under its key, and the record is saved. -/
def countVerdict (runId node port reviewer : String) (verdict : ReviewVerdict) :
    Op (List (String × ReviewVerdict)) := do
  let key := verdictKey runId node port
  let w ← Prog.perform (.recordVerdict runId key reviewer verdict)
  match w.getRun runId with
  | none => .fail (.verdictRunNotInMap runId)
  | some s => pure (Ballot.record (s.verdicts key) reviewer verdict)

/-- `on_reviewer_verdict`. -/
def onReviewerVerdict (runId node port reviewer : String) (verdict : ReviewVerdict)
    (comments : List ReviewComment) (flow : FlowDefinition) :
    Op (Option (List InvocationContext)) := do
  let w ← Prog.perform (.getRun runId)
  match w.getRun runId with
  | none => .fail (.verdictRunNotFound runId)
  | some s => do
    keepComments s.flowId runId port reviewer comments
    let verdicts ← countVerdict runId node port reviewer verdict
    persistVerdicts runId
    settleVerdict runId node port flow verdicts

/-- One entry of `apply_seeded_entries`. -/
def applySeededEntry (runId : String) (flow : FlowDefinition) (seed : String × BlackboardEntry) :
    Op (List InvocationContext) := do
  writeBlackboardEntry runId seed.1 seed.2
  match flow.findOutputByBlackboardKey seed.1 with
  | none => pure []
  | some (node, port) => do
    markPortStatusUnchecked runId node port .seeded
    fireAndJoinFor node port runId flow

def applySeededEntries (runId : String) (flow : FlowDefinition)
    (seeds : List (String × BlackboardEntry)) : Op (List InvocationContext) :=
  Prog.collect (applySeededEntry runId flow) seeds

/-- `transition_run`: an ended run stays as it is. -/
def transitionRun (runId : String) (status : FlowRunStatus) (reason : Option String) :
    Op Unit := do
  let w ← Prog.perform (.transition runId status reason)
  match w.getRun runId with
  | none => .fail (.runNotFound runId)
  | some s =>
    if s.status.isTerminal then pure ()
    else persistRun (s.transition status reason w.now)

def cancelRun (runId : String) : Op Unit := transitionRun runId .cancelled none

def completeRun (runId : String) : Op Unit := transitionRun runId .completed none

def failRun (runId reason : String) : Op Unit := transitionRun runId .failed (some reason)

/-- `start_run`. -/
def startRun (runId : String) (flow : FlowDefinition) (initialInput : String) :
    Op (String × List InvocationContext) := do
  let now ← utcNowIso
  let state := (FlowRunState.new runId flow.name initialInput now).setPort
    "__chat__" "initial-brief" .approved
  persistRun state
  let _ ← Prog.perform (.register state)
  let contexts ← fireAndJoinFor "__chat__" "initial-brief" runId flow
  pure (runId, contexts)

end FlowRuntime

end Cronymax.Flow
