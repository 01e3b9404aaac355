import Cronymax.Agent.Tasks

/-! The control requests for runs, and the server that handles them.  Handlers and the tasks that they
spawn run side by side: the next step of any of them may be the next step of the server.  What a request
draws or what its surroundings provide are fields of the request. -/

namespace Cronymax.Agent

open Atomic Authority

inductive ControlError where
  | unknownRun (runId : RunId)
  | invalidState (message : String)
  | invalidRequest (message : String)
  | authority (e : AuthorityError)
deriving DecidableEq

inductive ControlResponse where
  | ack
  | runStarted (runId : RunId) (subscription : SubscriptionId)
  | err (e : ControlError)
deriving DecidableEq

inductive Dispatch where
  | native
  | extension
  | refused (message : String)
deriving DecidableEq

/-- What `handle_start_run` is asked for, with what its environment answers. -/
structure StartRequest where
  space : Space
  sessionId : Option SessionId
  sessionName : Option String
  spec : Value
  goal : Option String
  dispatch : Dispatch
  chatStore : Bool
  provider : Except String LoopConfig
  summarizePrompt : String
  drawn : RunId
  subscription : SubscriptionId

/-- What `handle_resume_run` is asked for. -/
structure ResumeRequest where
  runId : RunId
  providerLabel : String
  chatStore : Bool
  provider : Value → Except String LoopConfig
  summarizePrompt : String
  subscription : SubscriptionId

/-- What the two other sites are asked for that spawn a loop. -/
structure SpawnRequest where
  chat : Bool
  spaceId : SpaceId
  sessionId : Option SessionId
  flowRunId : Option String
  spec : Value
  dispatch : Dispatch
  chatStore : Bool
  provider : Except String LoopConfig
  drawn : RunId

inductive Request where
  | startRun (req : StartRequest)
  | resumeRun (req : ResumeRequest)
  | pauseRun (runId : RunId)
  | cancelRun (runId : RunId)
  | postInput (runId : RunId) (payload : Value)
  | resolveReview (runId : Option RunId) (reviewId : ReviewId) (decision : PermissionState)
      (notes : Option String)
  | spawn (req : SpawnRequest)

/-- The session is made or found, and its thread is read. -/
def StartRequest.openSession (req : StartRequest) : HostOp (List ChatMessage) :=
  match req.sessionId with
  | none => pure []
  | some sid => do
    let create := lock (.operation (.getOrCreateSession sid req.space.id req.sessionName))
    let _ ← call create
    if req.chatStore then priorThread sid true
    else
      match ← call create with
      | .ok (.thread thread) => pure thread
      | _ => pure []

def StartRequest.task (req : StartRequest) (prior : List ChatMessage) : LoopTask :=
  ⟨.startRun, req.drawn, req.sessionId, req.chatStore, prior, req.provider, req.summarizePrompt⟩

/-- The goal of the session. -/
def StartRequest.setGoal (req : StartRequest) : HostOp Unit :=
  match req.goal with
  | some goal => do
    let _ ← call (lock (.operation (.setRunGoal req.drawn (some goal))))
    pure ()
  | none => pure ()

/-- The run is started and its loop spawned. -/
def StartRequest.launch (req : StartRequest) (prior : List ChatMessage) : HostOp ControlResponse := do
  req.setGoal
  let _ ← call (lock (.operation (.subscribe (runTopic req.drawn) req.subscription)))
  match req.dispatch with
  | .native => do
    let _ ← Prog.perform .await
    let _ ← Prog.perform (.spawn (req.task prior))
    pure (.runStarted req.drawn req.subscription)
  | _ => pure (.runStarted req.drawn req.subscription)

/-- `handle_start_run`.  The flow of a request is left out, with the branch in which its start fails. -/
def handleStartRun (req : StartRequest) : HostOp ControlResponse := do
  let _ ← Prog.perform .await
  match req.dispatch with
  | .refused message => pure (.err (.invalidState message))
  | _ => do
    let prior ← req.openSession
    let _ ← call (lock (.operation (.upsertSpace req.space)))
    match ← call (lock (.operation (.startRunWithSession req.space.id none req.spec req.sessionId
      req.drawn))) with
    | .error e => pure (.err (.authority e))
    | .ok _ => req.launch prior

/-- The states that a resumption accepts. -/
def RunStatus.isResumable : RunStatus → Bool
  | .paused | .awaitingReview => true
  | _ => false

/-- The run is one of an agent that an extension provides. -/
def isExtensionRun (spec : Value) : Bool :=
  (spec.get "contribution_kind").bind Value.asStr = some "cronymax.agents.provider"

def ResumeRequest.task (req : ResumeRequest) (run : Run) (prior : List ChatMessage) : LoopTask :=
  ⟨.resumeRun, req.runId, run.sessionId, req.chatStore, prior, req.provider run.spec,
    req.summarizePrompt⟩

/-- The thread with which a resumed run goes on. -/
@[grind =] def ResumeRequest.priorThread (req : ResumeRequest) (run : Run) : HostOp (List ChatMessage) :=
  match run.sessionId with
  | some sid => Agent.priorThread sid req.chatStore
  | none => pure []

/-- The run is marked and its loop spawned. -/
def ResumeRequest.launch (req : ResumeRequest) (run : Run) (prior : List ChatMessage) :
    HostOp ControlResponse := do
  let _ ← call (lock (.operation (.subscribe (runTopic req.runId) req.subscription)))
  let _ ← Prog.perform .await
  let _ ← Prog.perform (.spawn (req.task run prior))
  pure (.runStarted req.runId req.subscription)

/-- `handle_resume_run`. -/
def handleResumeRun (req : ResumeRequest) : HostOp ControlResponse := do
  let h ← Prog.perform .snapshot
  match h.world.authority.run? req.runId with
  | none => pure (.err (.unknownRun req.runId))
  | some run =>
    if !RunStatus.isResumable run.status then pure .ack
    else if isExtensionRun run.spec then
      pure (.err (.invalidState ("run " ++ "`" ++ req.runId.uuid ++ "`" ++
        " was driven by extension provider " ++ req.providerLabel ++
        "; extension sessions cannot be resumed — start a new chat")))
    else do
      let prior ← req.priorThread run
      match ← call (markRunRunning req.runId) with
      | .error e => pure (.err (.authority e))
      | .ok _ => req.launch run prior

/-- `run_op`, for an operation of the authority. -/
def runOp (o : Operation) : HostOp ControlResponse := do
  match ← call (lock (.operation o)) with
  | .ok _ => pure .ack
  | .error e => pure (.err (.authority e))

/-- `handle_resolve_review`: of a run that stands in the authority. -/
def handleResolveReview (runId : Option RunId) (reviewId : ReviewId) (decision : PermissionState)
    (notes : Option String) : HostOp ControlResponse :=
  match runId with
  | some runId => runOp (.resolveReview runId reviewId decision notes)
  | none => do
    let h ← Prog.perform .snapshot
    match h.world.authority.review? reviewId with
    | some review => runOp (.resolveReview review.runId reviewId decision notes)
    | none => pure (.err (.invalidRequest ("unknown review: " ++ reviewId.uuid)))

def SpawnRequest.task (req : SpawnRequest) : LoopTask :=
  ⟨if req.chat then .spawnChat else .spawnAgent, req.drawn, if req.chat then req.sessionId else none,
    req.chatStore, [], req.provider, ""⟩

def SpawnRequest.setFlow (req : SpawnRequest) (flowRunId : String) : HostOp Unit :=
  if req.chat ∧ flowRunId = "" then pure ()
  else do
    let _ ← call (lock (.operation (.setRunFlowId req.drawn flowRunId)))
    pure ()

def SpawnRequest.bindChat (req : SpawnRequest) (flowRunId : String) : HostOp Unit :=
  match req.sessionId.filter fun _ => req.chat with
  | some sid => do
    let _ ← call (lock (.operation (.bindSession flowRunId sid.text)))
    pure ()
  | none => pure ()

/-- The run is tied to its flow run and to its chat. -/
def SpawnRequest.tie (req : SpawnRequest) : HostOp Unit :=
  match req.flowRunId with
  | none => pure ()
  | some flowRunId => do
    req.setFlow flowRunId
    req.bindChat flowRunId

/-- What drives the run. -/
def SpawnRequest.launch (req : SpawnRequest) : HostOp ControlResponse := do
  req.tie
  match req.dispatch with
  | .native => do
    let _ ← Prog.perform (.spawn req.task)
    pure .ack
  | .extension => pure .ack
  | .refused message => do
    let _ ← call (failRun req.drawn message)
    pure .ack

/-- `spawn_agent` and `spawn_chat`. -/
def handleSpawn (req : SpawnRequest) : HostOp ControlResponse := do
  match ← call (lock (.operation (.startRunWithSession req.spaceId none req.spec req.sessionId
    req.drawn))) with
  | .error e => pure (.err (.authority e))
  | .ok _ => req.launch

/-- The handler of a request. -/
def Request.prog : Request → HostOp ControlResponse
  | .startRun req => handleStartRun req
  | .resumeRun req => handleResumeRun req
  | .pauseRun runId => runOp (.pauseRun runId)
  | .cancelRun runId => runOp (.cancelRun runId)
  | .postInput runId payload => runOp (.postInput runId payload)
  | .resolveReview runId reviewId decision notes => handleResolveReview runId reviewId decision notes
  | .spawn req => handleSpawn req

/-- A handler or a spawned loop, as far as it has come. -/
inductive Job where
  | handler (request : Request) (rest : HostOp ControlResponse)
  | loop (task : LoopTask) (rest : HostOp Unit)

namespace Job

def step (h : Host) : Job → Option (HostAct × Job)
  | .handler request (.act x next) => some (x, .handler request (next h))
  | .loop task (.act x next) => some (x, .loop task (next h))
  | _ => none

end Job

def HostAct.spawned : HostAct → List Job
  | .spawn task => [.loop task task.prog]
  | _ => []

/-- The host and all that goes on in it. -/
structure Server where
  host : Host
  jobs : List Job

inductive Turn where
  | receive (request : Request)
  | job (k : Nat)

namespace Server

variable (s : Server)

def action : Turn → Option HostAct
  | .receive _ => none
  | .job k => (s.jobs[k]?.bind (·.step s.host)).map (·.1)

/-- A request comes in, or one job makes a step. -/
def step : Turn → Server
  | .receive request => { s with jobs := s.jobs ++ [.handler request request.prog] }
  | .job k =>
    match s.jobs[k]?.bind (·.step s.host) with
    | some (x, job) => ⟨Acts.apply x s.host, s.jobs.set k job ++ x.spawned⟩
    | none => s

end Server

end Cronymax.Agent
