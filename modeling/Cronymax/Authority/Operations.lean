import Cronymax.Authority.Runtime

/-! The operations of the runtime authority: what each decides under the lock, the sections that they
consist of, and the calls that a client makes.  An identifier that an operation draws is an
argument. -/

namespace Cronymax.Authority

open Atomic

/-- A session as `get_or_create_session` makes it. -/
@[grind =] def Session.new (id : SessionId) (spaceId : SpaceId) (name : Option String) (now : Int) : Session where
  id := id
  spaceId := spaceId
  name := name
  agentId := none
  thread := []
  runIds := []
  flowRunIds := []
  readNamespace := none
  writeNamespace := none
  parentSessionId := none
  forkPoint := none
  createdAtMs := now
  updatedAtMs := now
  manuallyNamed := false

/-- The session lists the run, once. -/
def Session.attachRun (session : Session) (runId : RunId) (now : Int) : Session :=
  if runId ∈ session.runIds then session
  else { session with runIds := session.runIds ++ [runId], updatedAtMs := now }

/-- The run is listed by its session, where there is one. -/
def attachRun (sessionId : Option SessionId) (runId : RunId) (now : Int)
    (sessions : Table SessionId Session) : Table SessionId Session :=
  match sessionId with
  | some sid => sessions.modify sid (·.attachRun runId now)
  | none => sessions

/-- A run as `start_run_with_session` makes it. -/
@[grind =] def Run.new (id : RunId) (spaceId : SpaceId) (agentId : Option AgentId) (sessionId : Option SessionId)
    (spec : Value) (now : Int) : Run where
  id := id
  spaceId := spaceId
  agentId := agentId
  sessionId := sessionId
  flowRunId := none
  status := .pending
  spec := spec
  history := []
  createdAtMs := now
  updatedAtMs := now
  goal := none
  parentRunId := none
  produces := []
  resolvedReviews := []
  fileChanges := []

/-- The event of a status. -/
def Run.announce (run : Run) (runId : RunId) (status : RunStatus) (detail : Option Value) : Effect :=
  .emit (runTopics runId run.sessionId)
    (.runStatus runId.uuid status.label run.agentLabel run.flowRunId detail)

def failureDetail : RunStatus → Option Value
  | .failed message => if message = "" then none else some (.object [("message", .string message)])
  | _ => none

/-- The uses of `transition_run`. -/
inductive Transition where
  | cancel
  | pause
  | resume
  | markRunning
  | complete
  | fail (message : String)
deriving DecidableEq

namespace Transition

/-- The word of the error when the transition is refused. -/
def action : Transition → String
  | .cancel => "cancel"
  | .pause => "pause"
  | .resume => "resume"
  | .markRunning => "mark_running"
  | .complete => "complete"
  | .fail _ => "fail"

/-- Where a transition leads, if the status allows it. -/
@[grind =] def next : Transition → RunStatus → Option RunStatus
  | .cancel, status => if status.isTerminal then none else some .cancelled
  | .pause, .running | .pause, .pending => some .paused
  | .pause, _ => none
  | .resume, .paused | .resume, .awaitingReview => some .running
  | .resume, _ => none
  | .markRunning, .pending | .markRunning, .paused | .markRunning, .awaitingReview => some .running
  | .markRunning, _ => none
  | .complete, _ => some .succeeded
  | .fail message, _ => some (.failed message)

end Transition

namespace RuntimeAuthority

variable (w : RuntimeAuthority)

/-- `upsert_space`. -/
def upsertSpace (space : Space) : Decision :=
  let snapshot := w.inner.snapshot
  w.put { snapshot with spaces := snapshot.spaces.insert space.id space } .checked [] .unit

/-- `upsert_agent`. -/
@[grind =] def upsertAgent (agent : Agent) : Decision :=
  let snapshot := w.inner.snapshot
  match snapshot.spaces.lookup agent.spaceId with
  | none => .refuse (.unknownSpace agent.spaceId)
  | some _ => w.put { snapshot with agents := snapshot.agents.insert agent.id agent } .checked [] .unit

/-- `get_or_create_session`. -/
@[grind =] def getOrCreateSession (sessionId : SessionId) (spaceId : SpaceId) (name : Option String) : Decision :=
  let snapshot := w.inner.snapshot
  match snapshot.spaces.lookup spaceId with
  | none => .refuse (.unknownSpace spaceId)
  | some _ =>
    match snapshot.sessions.lookup sessionId with
    | some session => w.put snapshot .checked [] (.thread session.thread)
    | none =>
      w.put (snapshot.setSession sessionId (.new sessionId spaceId name w.now)) .checked []
        (.thread [])

/-- `attach_run_to_session`: the run is not looked up. -/
def attachRunToSession (sessionId : SessionId) (runId : RunId) : Decision :=
  let snapshot := w.inner.snapshot
  w.put { snapshot with sessions := attachRun (some sessionId) runId w.now snapshot.sessions }
    .checked [] .unit

/-- `attach_flow_run_to_session`. -/
@[grind =] def attachFlowRunToSession (sessionId : SessionId) (flowRunId : String) : Decision :=
  let snapshot := w.inner.snapshot
  match snapshot.sessions.lookup sessionId with
  | none => w.keep [] .unit
  | some session =>
    if flowRunId ∈ session.flowRunIds then w.keep [] .unit
    else
      w.put (snapshot.setSession sessionId { session with
        flowRunIds := session.flowRunIds ++ [flowRunId], updatedAtMs := w.now }) .ignored [] .unit

@[grind =] def renameSession (sessionId : SessionId) (name : String) : Decision :=
  let snapshot := w.inner.snapshot
  match snapshot.sessions.lookup sessionId with
  | none => .refuse (.unknownSession sessionId)
  | some session =>
    w.put (snapshot.setSession sessionId { session with
        name := some name, manuallyNamed := true, updatedAtMs := w.now }) .checked
      [.emit ["*"] (.sessionRenamed sessionId.text name true)] .unit

/-- `auto_name_session`: only a session without a name. -/
@[grind =] def autoNameSession (sessionId : SessionId) (name : String) : Decision :=
  let snapshot := w.inner.snapshot
  match snapshot.sessions.lookup sessionId with
  | none => w.keep [] .unit
  | some session =>
    if session.manuallyNamed then w.keep [] .unit
    else
      w.put (snapshot.setSession sessionId { session with
          name := some name, updatedAtMs := w.now }) .ignored
        [.emit ["*"] (.sessionRenamed sessionId.text name false)] .unit

@[grind =] def setSessionForkPoint (sessionId parentSessionId : SessionId) (forkPoint : ForkPoint) : Decision :=
  let snapshot := w.inner.snapshot
  match snapshot.sessions.lookup sessionId with
  | none => w.keep [] .unit
  | some session =>
    w.put (snapshot.setSession sessionId { session with
      parentSessionId := some parentSessionId, forkPoint := some forkPoint
      updatedAtMs := w.now }) .ignored [] .unit

/-- `flush_thread`. -/
@[grind =] def flushThread (sessionId : SessionId) (thread : List ChatMessage) : Decision :=
  let snapshot := w.inner.snapshot
  match snapshot.sessions.lookup sessionId with
  | none => w.keep [] .unit
  | some session =>
    w.put (snapshot.setSession sessionId { session with thread, updatedAtMs := w.now }) .checked []
      .unit

/-- `update_session_namespaces`. -/
@[grind =] def updateSessionNamespaces (sessionId : SessionId) (target : String)
    (namespaceId : MemoryNamespaceId) : Decision :=
  let snapshot := w.inner.snapshot
  match snapshot.sessions.lookup sessionId with
  | none => w.keep [] (.flag false)
  | some session =>
    let session :=
      match target with
      | "read" => { session with readNamespace := some namespaceId }
      | "write" => { session with writeNamespace := some namespaceId }
      | _ => { session with readNamespace := some namespaceId, writeNamespace := some namespaceId }
    w.put (snapshot.setSession sessionId { session with updatedAtMs := w.now }) .ignored []
      (.flag true)

/-- `start_run` starts a run without a session. -/
def startRunWithSession (spaceId : SpaceId) (agentId : Option AgentId) (spec : Value)
    (sessionId : Option SessionId) (drawn : RunId) : Decision :=
  let snapshot := w.inner.snapshot
  match snapshot.spaces.lookup spaceId with
  | none => .refuse (.unknownSpace spaceId)
  | some _ =>
    if agentId.any fun aid => (snapshot.agents.lookup aid).isNone then
      .refuse (.invalidTransition drawn .pending "start with unknown agent")
    else
      let run := Run.new drawn spaceId agentId sessionId spec w.now
      let sessions := attachRun sessionId drawn w.now snapshot.sessions
      w.put ({ snapshot with sessions }.setRun drawn run) .checked
        [.emit (runTopics drawn sessionId)
          (.runStatus drawn.uuid "pending" (agentName spec) none none)]
        (.run drawn)

/-- `set_run_flow_id`. -/
@[grind =] def setRunFlowId (runId : RunId) (flowRunId : String) : Decision :=
  match w.run? runId with
  | none => w.keep [] .unit
  | some run =>
    w.put (w.inner.snapshot.setRun runId { run with
      flowRunId := some flowRunId, updatedAtMs := w.now }) .ignored [] .unit

@[grind =] def setRunGoal (runId : RunId) (goal : Option String) : Decision :=
  match w.run? runId with
  | none => .refuse (.unknownRun runId)
  | some run =>
    w.put (w.inner.snapshot.setRun runId { run with goal, updatedAtMs := w.now }) .checked [] .unit

/-- `append_produced_doc`. -/
@[grind =] def appendProducedDoc (runId : RunId) (doc : ProducedDoc) : Decision :=
  match w.run? runId with
  | none => w.keep [] .unit
  | some run =>
    w.put (w.inner.snapshot.setRun runId { run with
      produces := run.produces ++ [doc], updatedAtMs := w.now }) .ignored [] .unit

@[grind =] def transitionRun (runId : RunId) (t : Transition) : Decision :=
  match w.run? runId with
  | none => .refuse (.unknownRun runId)
  | some run =>
    match t.next run.status with
    | none => .refuse (.invalidTransition runId run.status t.action)
    | some next =>
      w.put (w.inner.snapshot.setRun runId { run with status := next, updatedAtMs := w.now })
        .checked [run.announce runId next (failureDetail next)] .unit

/-- `post_input`. -/
@[grind =] def postInput (runId : RunId) (payload : Value) : Decision :=
  match w.run? runId with
  | none => .refuse (.unknownRun runId)
  | some run =>
    if run.status.isTerminal then .refuse (.invalidTransition runId run.status "post_input")
    else
      w.put (w.inner.snapshot.setRun runId { run with
          history := run.history ++ [⟨w.now, payload⟩], updatedAtMs := w.now }) .checked
        [.emit (runTopics runId run.sessionId)
          (.trace runId.uuid (.object [("kind", .string "user_input"), ("payload", payload)]))]
        .unit

/-- `append_history`. -/
@[grind =] def appendHistory (runId : RunId) (payload : Value) : Decision :=
  match w.run? runId with
  | none => .refuse (.unknownRun runId)
  | some run =>
    w.put (w.inner.snapshot.setRun runId { run with
      history := run.history ++ [⟨w.now, payload⟩], updatedAtMs := w.now }) .checked [] .unit

@[grind =] def runStatus (runId : RunId) : Decision :=
  match w.run? runId with
  | none => .refuse (.unknownRun runId)
  | some run => w.keep [] (.status run.status)

/-- `open_review`: not of a run that has ended. -/
def openReview (runId : RunId) (request : Value) (drawn : ReviewId) : Decision :=
  match w.run? runId with
  | none => .refuse (.unknownRun runId)
  | some run =>
    if run.status.isTerminal then .refuse (.invalidTransition runId run.status "open_review")
    else
      let review : PendingReview := ⟨drawn, runId, request, .pending, none, w.now, w.now⟩
      w.put ((w.inner.snapshot.setRun runId { run with
          status := .awaitingReview, updatedAtMs := w.now }).setReview drawn review) .checked
        [run.announce runId .awaitingReview none,
          .emit (runTopics runId run.sessionId)
            (.permissionRequest runId.uuid drawn.uuid request)]
        (.review drawn)

/-- The event of a resolved review. -/
def reviewResolved (reviewId : ReviewId) (decision : PermissionState) : Value :=
  .object [("kind", .string "review_resolved"), ("review_id", .string reviewId.uuid),
    ("decision", .string decision.label)]

/-- `resolve_review`: the run need not stand where the review has left it. -/
def resolveReview (runId : RunId) (reviewId : ReviewId) (decision : PermissionState)
    (notes : Option String) : Decision :=
  if decision = .pending then
    .refuse (.invalidTransition runId .awaitingReview "resolve_review with Pending")
  else
    match w.review? reviewId with
    | none => .refuse (.unknownReview reviewId)
    | some review =>
      if review.runId ≠ runId then .refuse (.unknownReview reviewId)
      else if review.state ≠ .pending then .refuse .reviewAlreadyResolved
      else
        let snapshot := w.inner.snapshot.setReview reviewId
          { review with state := decision, notes, updatedAtMs := w.now }
        match w.run? runId with
        | none => .abort (.unknownRun runId) snapshot
        | some run =>
          w.put (snapshot.setRun runId { run with
              status := if decision = .approved then .running else run.status
              updatedAtMs := w.now
              resolvedReviews := run.resolvedReviews ++
                [⟨reviewId, review.request, decision, notes, w.now⟩] }) .checked
            (.emit (runTopics runId run.sessionId)
                (.trace runId.uuid (reviewResolved reviewId decision)) ::
              (if decision = .approved then [run.announce runId .running none] else []) ++
              [.fire reviewId ⟨decision, notes⟩])
            .unit

/-- The second lock of `open_review_with_completion`. -/
def registerCompletion (reviewId : ReviewId) : Decision :=
  w.keep [.park reviewId] (.handle ⟨reviewId, ⟨w.completions⟩⟩)

def subscribe (topic : String) (drawn : SubscriptionId) : Decision :=
  w.keep [.open drawn topic] (.subscription drawn)

def unsubscribe (id : SubscriptionId) : Decision :=
  w.keep [.close id] (.flag (w.inner.subscriptions.lookup id).isSome)

/-- The topics of a run's events. -/
def topicsOf (runId : RunId) : List String := runTopics runId ((w.run? runId).bind (·.sessionId))

def emitForRun (runId : RunId) (payload : RuntimeEventPayload) : Decision :=
  w.keep [.emit (w.topicsOf runId) payload] .unit

def emit (topic : String) (payload : RuntimeEventPayload) : Decision :=
  w.keep [.emit [topic] payload] .unit

/-- `emit_many`: a subscription is reached once. -/
def emitMany (topics : List String) (payload : RuntimeEventPayload) : Decision :=
  w.keep [.emit topics payload] .unit

def emitLog (target : String) (level : LogLevel) (message : String) : Decision :=
  w.keep [.emit ["*"] (.log level target message)] .unit

/-- The flow runs' sessions are kept in memory only. -/
def routeSessions (flowSessions : Table String String) : Decision :=
  .commit ⟨w.inner.snapshot, flowSessions, w.inner.taskTrees, .never, [], .unit⟩

/-- `bind_session`. -/
def bindSession (flowRunId sessionId : String) : Decision :=
  w.routeSessions (w.inner.flowSessions.insert flowRunId sessionId)

def seedFlowSessions (pairs : List (String × String)) : Decision :=
  w.routeSessions (pairs.foldl (fun sessions pair =>
    if (sessions.lookup pair.1).isSome then sessions else sessions.insert pair.1 pair.2)
      w.inner.flowSessions)

/-- `put_memory`. -/
def putMemory (namespaceId : MemoryNamespaceId) (entry : MemoryEntry) : Decision :=
  let snapshot := w.inner.snapshot
  let ns := (snapshot.memory.lookup namespaceId).getD ⟨namespaceId, ∅⟩
  w.put { snapshot with
    memory := snapshot.memory.insert namespaceId
      { ns with entries := ns.entries.insert entry.key entry } } .checked [] .unit

end RuntimeAuthority

/-- The task comes to the tree of its run. -/
def addTask (runId : RunId) (task : Task) (trees : Table RunId TaskTree) : Table RunId TaskTree :=
  trees.insert runId ⟨((trees.lookup runId).elim ∅ (·.tasks)).insert task.id task⟩

/-- The task is marked as ended. -/
def endTask (runId : RunId) (taskId : TaskId) (output : Option Value) (success : Bool)
    (trees : Table RunId TaskTree) : Table RunId TaskTree :=
  trees.modify runId fun tree => ⟨tree.tasks.modify taskId fun task =>
    { task with status := if success then .completed else .failed, output }⟩

namespace RuntimeAuthority

variable (w : RuntimeAuthority)

/-- The tree in the snapshot and the one in memory are edited alike. -/
def editTasks (edit : Table RunId TaskTree → Table RunId TaskTree) (effects : List Effect)
    (reply : Reply) : Decision :=
  let snapshot := w.inner.snapshot
  .commit ⟨{ snapshot with taskTrees := edit snapshot.taskTrees }, w.inner.flowSessions,
    edit w.inner.taskTrees, .checked, effects, reply⟩

/-- `start_child_task`. -/
def startChildTask (runId : RunId) (parentId : Option TaskId) (label : String)
    (agentId : Option AgentId) (flowId : Option String) (drawn : TaskId) : Decision :=
  w.editTasks (addTask runId ⟨drawn, parentId, label, agentId, flowId, .running, none, w.now⟩)
    [.emit (w.topicsOf runId) (.taskStarted runId.uuid drawn.uuid)] (.task drawn)

/-- `complete_child_task`. -/
def completeChildTask (runId : RunId) (taskId : TaskId) (output : Option Value) (success : Bool) :
    Decision :=
  w.editTasks (endTask runId taskId output success)
    [.emit (w.topicsOf runId) (.taskCompleted runId.uuid taskId.uuid success)] .unit

end RuntimeAuthority

/-- The operations that hold the lock once. -/
inductive Operation where
  | upsertSpace (space : Space)
  | upsertAgent (agent : Agent)
  | getOrCreateSession (sessionId : SessionId) (spaceId : SpaceId) (name : Option String)
  | attachRunToSession (sessionId : SessionId) (runId : RunId)
  | attachFlowRunToSession (sessionId : SessionId) (flowRunId : String)
  | renameSession (sessionId : SessionId) (name : String)
  | autoNameSession (sessionId : SessionId) (name : String)
  | setSessionForkPoint (sessionId parentSessionId : SessionId) (forkPoint : ForkPoint)
  | flushThread (sessionId : SessionId) (thread : List ChatMessage)
  | updateSessionNamespaces (sessionId : SessionId) (target : String)
      (namespaceId : MemoryNamespaceId)
  | subscribe (topic : String) (drawn : SubscriptionId)
  | unsubscribe (id : SubscriptionId)
  | startRunWithSession (spaceId : SpaceId) (agentId : Option AgentId) (spec : Value)
      (sessionId : Option SessionId) (drawn : RunId)
  | setRunFlowId (runId : RunId) (flowRunId : String)
  | setRunGoal (runId : RunId) (goal : Option String)
  | appendProducedDoc (runId : RunId) (doc : ProducedDoc)
  | cancelRun (runId : RunId)
  | pauseRun (runId : RunId)
  | resumeRun (runId : RunId)
  | postInput (runId : RunId) (payload : Value)
  | openReview (runId : RunId) (request : Value) (drawn : ReviewId)
  | resolveReview (runId : RunId) (reviewId : ReviewId) (decision : PermissionState)
      (notes : Option String)
  | emitForRun (runId : RunId) (payload : RuntimeEventPayload)
  | emit (topic : String) (payload : RuntimeEventPayload)
  | emitMany (topics : List String) (payload : RuntimeEventPayload)
  | bindSession (flowRunId sessionId : String)
  | seedFlowSessions (pairs : List (String × String))
  | appendHistory (runId : RunId) (payload : Value)
  | putMemory (namespaceId : MemoryNamespaceId) (entry : MemoryEntry)
  | startChildTask (runId : RunId) (parentId : Option TaskId) (label : String)
      (agentId : Option AgentId) (flowId : Option String) (drawn : TaskId)
  | completeChildTask (runId : RunId) (taskId : TaskId) (output : Option Value) (success : Bool)
  | emitLog (target : String) (level : LogLevel) (message : String)

/-- What an operation decides under its lock. -/
@[grind =] def Operation.decide (w : RuntimeAuthority) : Operation → Decision
  | .upsertSpace space => w.upsertSpace space
  | .upsertAgent agent => w.upsertAgent agent
  | .getOrCreateSession sessionId spaceId name => w.getOrCreateSession sessionId spaceId name
  | .attachRunToSession sessionId runId => w.attachRunToSession sessionId runId
  | .attachFlowRunToSession sessionId flowRunId => w.attachFlowRunToSession sessionId flowRunId
  | .renameSession sessionId name => w.renameSession sessionId name
  | .autoNameSession sessionId name => w.autoNameSession sessionId name
  | .setSessionForkPoint sessionId parent forkPoint =>
    w.setSessionForkPoint sessionId parent forkPoint
  | .flushThread sessionId thread => w.flushThread sessionId thread
  | .updateSessionNamespaces sessionId target namespaceId =>
    w.updateSessionNamespaces sessionId target namespaceId
  | .subscribe topic drawn => w.subscribe topic drawn
  | .unsubscribe id => w.unsubscribe id
  | .startRunWithSession spaceId agentId spec sessionId drawn =>
    w.startRunWithSession spaceId agentId spec sessionId drawn
  | .setRunFlowId runId flowRunId => w.setRunFlowId runId flowRunId
  | .setRunGoal runId goal => w.setRunGoal runId goal
  | .appendProducedDoc runId doc => w.appendProducedDoc runId doc
  | .cancelRun runId => w.transitionRun runId .cancel
  | .pauseRun runId => w.transitionRun runId .pause
  | .resumeRun runId => w.transitionRun runId .resume
  | .postInput runId payload => w.postInput runId payload
  | .openReview runId request drawn => w.openReview runId request drawn
  | .resolveReview runId reviewId decision notes => w.resolveReview runId reviewId decision notes
  | .emitForRun runId payload => w.emitForRun runId payload
  | .emit topic payload => w.emit topic payload
  | .emitMany topics payload => w.emitMany topics payload
  | .bindSession flowRunId sessionId => w.bindSession flowRunId sessionId
  | .seedFlowSessions pairs => w.seedFlowSessions pairs
  | .appendHistory runId payload => w.appendHistory runId payload
  | .putMemory namespaceId entry => w.putMemory namespaceId entry
  | .startChildTask runId parentId label agentId flowId drawn =>
    w.startChildTask runId parentId label agentId flowId drawn
  | .completeChildTask runId taskId output success => w.completeChildTask runId taskId output success
  | .emitLog target level message => w.emitLog target level message

/-- The time in which a call holds the lock. -/
inductive Section where
  | operation (o : Operation)
  | runStatus (runId : RunId)
  | markRunning (runId : RunId)
  | complete (runId : RunId)
  | fail (runId : RunId) (message : String)
  | registerCompletion (reviewId : ReviewId)
  | dropReceiver (id : SubscriptionId)

namespace Section

@[grind =] def decide (w : RuntimeAuthority) : Section → Decision
  | .operation o => o.decide w
  | .runStatus runId => w.runStatus runId
  | .markRunning runId => w.transitionRun runId .markRunning
  | .complete runId => w.transitionRun runId .complete
  | .fail runId message => w.transitionRun runId (.fail message)
  | .registerCompletion reviewId => w.registerCompletion reviewId
  | .dropReceiver id => w.keep [.drop id] .unit

/-- A section decides, and what it has decided comes to pass. -/
@[grind =] def apply (x : Section) (w : RuntimeAuthority) : RuntimeAuthority := w.tick.settle (x.decide w)

end Section

instance : Acts Section RuntimeAuthority := ⟨Section.apply⟩

abbrev Op := Prog Section RuntimeAuthority AuthorityError

/-- A call that takes the lock once. -/
def lock (x : Section) : Op Reply := do
  let w ← Prog.perform x
  match w.answer (x.decide w) with
  | .ok reply => pure reply
  | .error e => .fail e

/-- `run_status`. -/
@[grind =] def runStatus (runId : RunId) : Op RunStatus := do
  let w ← Prog.perform (.runStatus runId)
  match w.run? runId with
  | some run => pure run.status
  | none => .fail (.unknownRun runId)

/-- A call that looks at the status under one lock and writes under the next. -/
@[grind =] def checkThen (settled : RunStatus → Bool) (runId : RunId) (x : Section) : Op Reply := do
  let status ← runStatus runId
  if settled status then pure .unit else lock x

/-- `mark_run_running`. -/
def markRunRunning (runId : RunId) : Op Reply := checkThen (· = .running) runId (.markRunning runId)

/-- `complete_run`. -/
def completeRun (runId : RunId) : Op Reply := checkThen (·.isTerminal) runId (.complete runId)

/-- `fail_run`. -/
def failRun (runId : RunId) (message : String) : Op Reply :=
  checkThen (·.isTerminal) runId (.fail runId message)

/-- `open_review_with_completion`. -/
def openReviewWithCompletion (runId : RunId) (request : Value) (drawn : ReviewId) : Op Reply := do
  let _ ← lock (.operation (.openReview runId request drawn))
  lock (.registerCompletion drawn)

theorem lock_only {P : Section → Prop} {x : Section} (hx : P x) : (lock x).Only P := by
  refine .perform hx fun w => ?_
  cases w.answer (x.decide w) <;> trivial

theorem checkThen_only {P : Section → Prop} {settled : RunStatus → Bool} {r : RunId} {x : Section}
    (hCheck : P (.runStatus r)) (hx : P x) : (checkThen settled r x).Only P := by
  refine Prog.Only.bind (.perform hCheck fun w => ?_) fun status => ?_
  · cases w.run? r <;> trivial
  · split
    · trivial
    · exact lock_only hx

/-- What a client of the authority does. -/
inductive Call where
  | operation (o : Operation)
  | markRunRunning (runId : RunId)
  | completeRun (runId : RunId)
  | failRun (runId : RunId) (message : String)
  | openReviewWithCompletion (runId : RunId) (request : Value) (drawn : ReviewId)
  | dropReceiver (id : SubscriptionId)

namespace Call

/-- The operation of the source that a call is. -/
def op : Call → Op Reply
  | .operation o => lock (.operation o)
  | .markRunRunning runId => Authority.markRunRunning runId
  | .completeRun runId => Authority.completeRun runId
  | .failRun runId message => Authority.failRun runId message
  | .openReviewWithCompletion runId request drawn =>
    Authority.openReviewWithCompletion runId request drawn
  | .dropReceiver id => lock (.dropReceiver id)

/-- The state after a call. -/
@[grind =] def step (w : RuntimeAuthority) (c : Call) : RuntimeAuthority := (c.op.run w).2

/-- What a call returns. -/
@[grind =] def result (w : RuntimeAuthority) (c : Call) : Except AuthorityError Reply := (c.op.run w).1

end Call

/-- The states in which no run is left after a restart. -/
def RunStatus.isAbandoned : RunStatus → Bool
  | .running | .pending | .awaitingReview => true
  | _ => false

namespace Snapshot

variable (s : Snapshot)

/-- What `rehydrate` makes of a snapshot. -/
@[grind =] def recover (now : Int) : Snapshot :=
  { s with
    runs := s.runs.mapValues fun run =>
      if run.status.isAbandoned then { run with status := .paused, updatedAtMs := now } else run
    reviews := ∅ }

/-- `rehydrate` has to change something. -/
def isStale : Bool :=
  (∃ id ∈ s.runs.keys, (s.runs.lookup id).any (·.status.isAbandoned)) ∨ s.reviews.keys.Nonempty

end Snapshot

/-- An authority with this snapshot, and what its environment is going to answer. -/
def RuntimeAuthority.start (snapshot saved : Snapshot) (faults : List (Option PersistenceError))
    (clock : List Int) : RuntimeAuthority :=
  ⟨⟨snapshot, ∅, ∅, ∅, ∅⟩, ∅, 0, [], [], saved, faults, clock⟩

/-- `rehydrate`: what has been changed is saved at once. -/
@[grind =] def rehydrate (loaded : Except PersistenceError Snapshot) (faults : List (Option PersistenceError))
    (clock : List Int) : Except AuthorityError RuntimeAuthority :=
  match loaded with
  | .error e => .error (.persistence e)
  | .ok snapshot =>
    let recovered := snapshot.recover (clock.headD 0)
    if snapshot.isStale then
      match faults.headD none with
      | some e => .error (.persistence e)
      | none => .ok (.start recovered recovered faults.tail clock.tail)
    else .ok (.start recovered snapshot faults clock.tail)

/-- `in_memory`. -/
def inMemory (clock : List Int) : RuntimeAuthority := .start .empty .empty [] clock

end Cronymax.Authority
