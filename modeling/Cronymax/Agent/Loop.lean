import Cronymax.Atomic.Monitor
import Cronymax.Authority.Operations
import Cronymax.Agent.Messages

/-! The agent loop: turn after turn it asks the provider, runs the tools that the reply calls, and goes on
until the reply is final, something fails, or the run is not to go on.  What it asks of others is an
action: a section of the authority, a request to the provider, a gate, a tool, a channel.  The
answers to come are part of the state.  Events and traces that the loop emits are left out. -/

namespace Cronymax.Agent

open Atomic Authority

/-- What a child agent or flow delivers. -/
structure AgentResult where
  success : Bool
  output : Value
  error : Option String

inductive ToolOutcome where
  | output (v : Value)
  | error (message : String)
  | needsApproval (request : Value)
  | terminal (v : Value)
  | spawnsAgent (taskId : String)

/-- `ToolGate`, the answer of a middleware. -/
inductive ToolGate where
  | allow
  | block (reason : String)
deriving DecidableEq

/-- A middleware, by its name. -/
structure Middleware where
  name : String
deriving DecidableEq

structure TurnContext where
  runId : RunId
  turn : Nat
  model : String
deriving DecidableEq

/-- A handler of a tool, by the number of its `Arc`. -/
structure Handler where
  number : Nat
deriving DecidableEq

/-- An access of a tool: its handler, a section of the authority, or a child. -/
inductive ToolAct where
  | handle (handler : Handler) (arguments : String)
  | authority (x : Section)

/-- What a request to the provider is for. -/
inductive Purpose where
  | turn
  | reflection
  | critic
deriving DecidableEq

/-- An access of the loop. -/
inductive Act where
  | locked (x : Section)
  | stream (runId : RunId) (purpose : Purpose) (request : LlmRequest)
  | beforeToolCall (ctx : TurnContext) (middleware : Middleware) (call : ToolCall)
  | dispatch (runId : RunId) (call : ToolCall)
  | dispatchApproved (runId : RunId) (call : ToolCall)
  | tool (x : ToolAct)
  | drawReview
  | awaitReview (completion : Completion)
  | awaitChild (taskId : String)

/-- The authority, and what providers, gates, tools, children and hosts are going to answer. -/
structure World where
  authority : RuntimeAuthority
  streams : List (Except String (List LlmEvent))
  gates : List ToolGate
  outcomes : List ToolOutcome
  children : List (Option AgentResult)
  reviewIds : List ReviewId

namespace World

variable (w : World)

/-- The next stream of the provider. -/
def stream : Except String (List LlmEvent) := w.streams.headD (.ok [])

def gate : ToolGate := w.gates.headD .allow

def outcome : ToolOutcome := w.outcomes.headD (.output .null)

def child : Option AgentResult := w.children.headD none

def reviewId : ReviewId := w.reviewIds.headD ⟨""⟩

/-- What the review has been resolved to, as far as it is. -/
def resolution? (completion : Completion) : Option ReviewResolution :=
  w.authority.resolutions.lookup completion

/-- A section of the authority is taken. -/
def lock (x : Section) : World := { w with authority := x.apply w.authority }

end World

instance : Acts ToolAct World where
  apply
    | .handle _ _, w => { w with outcomes := w.outcomes.tail }
    | .authority x, w => w.lock x

instance : Acts Act World where
  apply
    | .locked x, w => w.lock x
    | .stream _ _ _, w => { w with streams := w.streams.tail }
    | .beforeToolCall _ _ _, w => { w with gates := w.gates.tail }
    | .dispatch _ _, w | .dispatchApproved _ _, w | .awaitReview _, w => w
    | .tool x, w => Acts.apply x w
    | .drawReview, w => { w with reviewIds := w.reviewIds.tail }
    | .awaitChild _, w => { w with children := w.children.tail }

/-- The trait of what dispatches tool calls. -/
structure ToolDispatcher where
  definitions : List ToolDef
  dispatch : ToolCall → Prog ToolAct World Empty ToolOutcome
  dispatchApproved : ToolCall → Prog ToolAct World Empty ToolOutcome

def emptyDispatcher : ToolDispatcher where
  definitions := []
  dispatch call := pure (.error ("no tool registered: " ++ call.name))
  dispatchApproved call := pure (.error ("no tool registered: " ++ call.name))

/-- The texts that `serde_json` and `Display` make. -/
structure Texts where
  toJson : Value → String
  fromStr : String → Option Value
  authorityError : AuthorityError → String
  reflectPrompt : String

/-- `LoopError`. -/
inductive LoopError where
  | authority (e : AuthorityError)
  | provider (message : String)
  | maxTurnsExceeded (turns : Nat)
  | reviewChannelClosed
  | cancelled
deriving DecidableEq

def LoopError.text (texts : Texts) : LoopError → String
  | .authority e => "authority error: " ++ texts.authorityError e
  | .provider message => "provider error: " ++ message
  | .maxTurnsExceeded turns => "loop exceeded max turns (" ++ turns.repr ++ ")"
  | .reviewChannelClosed => "review resolution channel closed before answer"
  | .cancelled => "loop cancelled"

/-- `ReflectionTrigger`: when a turn is reflected on. -/
inductive ReflectionTrigger where
  | everyNTurns (n : Nat)
  | onConsecutiveFailures (n : Nat)
  | both (everyNTurns onConsecutiveFailures : Nat)
deriving DecidableEq

def ReflectionTrigger.fires (turn consecutiveFailures : Nat) : ReflectionTrigger → Bool
  | .everyNTurns n => 0 < n && turn % n = 0
  | .onConsecutiveFailures n => 0 < n && n ≤ consecutiveFailures
  | .both n m => (0 < n && turn % n = 0) || (0 < m && m ≤ consecutiveFailures)

structure ReflectionConfig where
  trigger : ReflectionTrigger
  promptTemplate : Option String
  enabled : Bool

structure CriticConfig where
  model : String
  artifactKinds : List String
  maxRevisions : Nat
  promptTemplate : Option String

structure LoopConfig where
  model : String
  systemPrompt : Option String
  userInput : String
  maxTurns : Nat
  temperature : Option String
  reasoningEffort : Option String
  tools : ToolDispatcher
  thinking : Option ThinkingConfig
  initialThread : Option (List ChatMessage)
  sessionId : Option SessionId
  reflection : Option ReflectionConfig
  critic : Option CriticConfig
  middleware : List Middleware
  texts : Texts

/-- `ReactLoop`: a run with its thread and its counters. -/
structure ReactLoop where
  runId : RunId
  config : LoopConfig
  history : List ChatMessage
  turn : Nat
  consecutiveFailures : Nat
  criticRevisionsRemaining : Nat

abbrev AgentOp := Prog Act World LoopError

/-- An operation of the authority. -/
def ask {α : Type} (op : Prog Section RuntimeAuthority AuthorityError α) : AgentOp α :=
  op.within .locked World.authority .authority

/-- What a tool does, as a part of the loop. -/
def useTool (op : Prog ToolAct World Empty ToolOutcome) : AgentOp ToolOutcome :=
  op.within .tool id Empty.elim

inductive ToolStepResult where
  | continue
  | terminal
  | cancelled
deriving DecidableEq

/-- A turn is followed by the next one, or ends the loop. -/
inductive TurnEnd where
  | next (l : ReactLoop)
  | stop (l : ReactLoop) (result : Except LoopError Unit)

def TurnEnd.loop : TurnEnd → ReactLoop
  | .next l => l
  | .stop l _ => l

/-- `CriticDecision`. -/
inductive CriticDecision where
  | passed
  | needsRevision (issues : List String)
  | malformedResponse
deriving DecidableEq

def defaultCriticPrompt : String :=
  "Review the conversation above. Evaluate whether the task was completed correctly and completely. " ++
  "Respond ONLY with a JSON object of the form: \x7b\"passed\": true|false, \"issues\": [\"...\"], " ++
  "\"confidence\": 0.0-1.0\x7d. Do not include any prose outside the JSON."

namespace ReactLoop

/-- `ReactLoop::new`. -/
@[grind =] def new (runId : RunId) (config : LoopConfig) : ReactLoop where
  runId := runId
  config := config
  history :=
    match config.initialThread.filter (· ≠ []) with
    | some prior => prior ++ [user config.userInput]
    | none => (config.systemPrompt.map system).toList ++ [user config.userInput]
  turn := 0
  consecutiveFailures := 0
  criticRevisionsRemaining := config.critic.elim 0 (·.maxRevisions)

variable (l : ReactLoop)

/-- The thread with one message more. -/
def push (m : ChatMessage) : ReactLoop := { l with history := l.history ++ [m] }

/-- The thread with the result of a call. -/
def pushResult (call : ToolCall) (v : Value) : ReactLoop :=
  l.push (toolResult call.id call.name (l.config.texts.toJson v))

/-- The last six messages with the reflection prompt. -/
def reflectionRequest (cfg : ReflectionConfig) : LlmRequest where
  model := l.config.model
  messages := l.history.drop (l.history.length - 6) ++
    [user (cfg.promptTemplate.getD l.config.texts.reflectPrompt)]
  tools := []
  temperature := some "0.3"
  reasoningEffort := none
  thinking := none

/-- `run_reflection_pass`.  Whatever fails, the loop goes on. -/
def runReflectionPass (cfg : ReflectionConfig) : AgentOp ReactLoop := do
  let w ← Prog.perform (.stream l.runId .reflection (l.reflectionRequest cfg))
  match w.stream.bind (collectText "") with
  | .error _ => pure l
  | .ok text =>
    if text = "" then pure l
    else pure { l.push (system ("[REFLECTION] " ++ text)) with consecutiveFailures := 0 }

/-- `run_reflection_pass`, where it is due. -/
def reflect : AgentOp ReactLoop :=
  match l.config.reflection with
  | some cfg =>
    if cfg.enabled && cfg.trigger.fires l.turn l.consecutiveFailures then l.runReflectionPass cfg
    else pure l
  | none => pure l

/-- The thread with the prompt of the critic. -/
def criticRequest (cfg : CriticConfig) : LlmRequest where
  model := cfg.model
  messages := l.history ++ [user (cfg.promptTemplate.getD defaultCriticPrompt ++
    if cfg.artifactKinds = [] then "" else " Focus on: " ++ ", ".intercalate cfg.artifactKinds ++ ".")]
  tools := []
  temperature := some "0.0"
  reasoningEffort := none
  thinking := none

/-- `run_critic_pass`. -/
def runCriticPass (cfg : CriticConfig) : AgentOp CriticDecision := do
  let w ← Prog.perform (.stream l.runId .critic (l.criticRequest cfg))
  match w.stream.bind (collectText "") with
  | .error _ => pure .malformedResponse
  | .ok text =>
    match CriticOutput.fromJson l.config.texts.fromStr text with
    | some output =>
      if !output.passed && output.issues ≠ [] then pure (.needsRevision output.issues)
      else pure .passed
    | none => pure .malformedResponse

/-- The end of a turn without calls: the critic decides whether the loop stops. -/
def finish : AgentOp TurnEnd :=
  match l.config.critic with
  | some cfg =>
    if 0 < l.criticRevisionsRemaining then do
      match ← l.runCriticPass cfg with
      | .needsRevision issues =>
        let l' := { l with criticRevisionsRemaining := l.criticRevisionsRemaining - 1 }
        pure (.next (l'.push (user ("[CRITIC] Your output has the following issues. " ++
          "Please revise:\n- " ++ "\n- ".intercalate issues))))
      | _ => pure (.stop l (.ok ()))
    else pure (.stop l (.ok ()))
  | none => pure (.stop l (.ok ()))

/-- `MiddlewareChain::before_tool_call`: the first that blocks decides. -/
def beforeToolCall (ctx : TurnContext) (call : ToolCall) : List Middleware → AgentOp ToolGate
  | [] => pure .allow
  | mw :: rest => do
    let w ← Prog.perform (.beforeToolCall ctx mw call)
    match w.gate with
    | .block reason => pure (.block reason)
    | .allow => beforeToolCall ctx call rest

/-- What the review of a call shows. -/
def reviewRequest (call : ToolCall) (request : Value) : Value :=
  .object [("kind", .string "tool_call"), ("tool", .string call.name),
    ("tool_call_id", .string call.id), ("arguments", .string call.arguments), ("request", request)]

/-- What follows the resolution of a review. -/
def resume (call : ToolCall) (resolution : ReviewResolution) :
    AgentOp (Except LoopError ToolOutcome) :=
  match resolution.decision with
  | .approved => do
    let _ ← Prog.perform (.dispatchApproved l.runId call)
    let outcome ← useTool (l.config.tools.dispatchApproved call)
    pure (.ok outcome)
  | .rejected =>
    pure (.ok (.error ("permission denied: " ++ resolution.notes.getD "user rejected")))
  | .deferred => pure (.error .cancelled)
  | .pending => pure (.error .reviewChannelClosed)

/-- A call that needs approval: a review is opened and waited for. -/
def review (call : ToolCall) (request : Value) : AgentOp (Except LoopError ToolOutcome) := do
  let w ← Prog.perform .drawReview
  let opened ← (ask (openReviewWithCompletion l.runId (reviewRequest call request) w.reviewId)).attempt
  match opened with
  | .error e => pure (.error e)
  | .ok (.handle handle) => do
    let w ← Prog.perform (.awaitReview handle.completion)
    match w.resolution? handle.completion with
    | none => pure (.error .reviewChannelClosed)
    | some resolution => l.resume call resolution
  | .ok _ => pure (.error .reviewChannelClosed)

/-- One call through the dispatcher, its review included. -/
def dispatch (call : ToolCall) : AgentOp (Except LoopError ToolOutcome) := do
  let _ ← Prog.perform (.dispatch l.runId call)
  match ← useTool (l.config.tools.dispatch call) with
  | .needsApproval request => l.review call request
  | outcome => pure (.ok outcome)

/-- What a parent is told of its child. -/
def childResult (taskId : String) (result : AgentResult) : Value :=
  if result.success then
    .object [("task_id", .string taskId), ("success", .bool true), ("output", result.output)]
  else
    .object [("task_id", .string taskId), ("success", .bool false),
      ("error", .string (result.error.getD "child agent failed"))]

/-- The outcome of a call comes to the thread. -/
def record (call : ToolCall) : ToolOutcome → AgentOp (ReactLoop × Except LoopError ToolStepResult)
  | .output v =>
    pure ({ l with consecutiveFailures := 0 }.pushResult call v, .ok .continue)
  | .error e =>
    pure ({ l with consecutiveFailures := l.consecutiveFailures + 1 }.pushResult call
      (.object [("error", .string e)]), .ok .continue)
  | .terminal v =>
    pure ({ l with consecutiveFailures := 0 }.pushResult call v, .ok .terminal)
  | .needsApproval _ =>
    pure (l.pushResult call (.object [("error", .string "tool repeatedly needs approval")]),
      .ok .continue)
  | .spawnsAgent taskId => do
    let w ← Prog.perform (.awaitChild taskId)
    let result := w.child.getD
      ⟨false, .null, some "child agent completion channel closed unexpectedly"⟩
    pure ({ l with consecutiveFailures := 0 }.pushResult call (childResult taskId result),
      .ok .continue)

/-- `run_one_tool`. -/
def runOneTool (ctx : TurnContext) (call : ToolCall) :
    AgentOp (ReactLoop × Except LoopError ToolStepResult) := do
  match ← beforeToolCall ctx call l.config.middleware with
  | .block reason =>
    pure (l.pushResult call (.object [("error", .string reason)]), .ok .continue)
  | .allow =>
    match ← l.dispatch call with
    | .error e => pure (l, .error e)
    | .ok outcome => l.record call outcome

/-- The calls of a turn, one after the other. -/
def runTools (ctx : TurnContext) : ReactLoop → Bool → List ToolCall → AgentOp TurnEnd
  | l, terminalSeen, [] => pure (if terminalSeen then .stop l (.ok ()) else .next l)
  | l, terminalSeen, call :: rest => do
    let (l', step) ← l.runOneTool ctx call
    match step with
    | .error e => pure (.stop l' (.error e))
    | .ok .continue => runTools ctx l' terminalSeen rest
    | .ok .terminal => runTools ctx l' true rest
    | .ok .cancelled => pure (.stop l' (.error .cancelled))

def emptyNameMessage (bad : ToolCall) : String :=
  "provider returned a tool_call with empty name (id=" ++ bad.id.quote ++ ", args_len=" ++
  bad.arguments.utf8ByteSize.repr ++ "). This usually means the OpenAI-compatible endpoint streams " ++
  "tool_calls in a non-standard format (e.g. via `message` instead of `delta`, or omits " ++
  "`function.name`). The chat cannot proceed."

/-- What a middleware is told. -/
def context : TurnContext := ⟨l.runId, l.turn, l.config.model⟩

/-- The calls of a reply are run, or the turn ends. -/
def actOn (calls : List ToolCall) : AgentOp TurnEnd :=
  if calls = [] then pure (.stop l (.ok ()))
  else
    match calls.find? (·.name = "") with
    | some bad => pure (.stop l (.error (.provider (emptyNameMessage bad))))
    | none => runTools l.context l false calls

/-- The request of a turn. -/
def request : LlmRequest where
  model := l.config.model
  messages := l.history
  tools := l.config.tools.definitions
  temperature := l.config.temperature
  reasoningEffort := l.config.reasoningEffort
  thinking := l.config.thinking

/-- A turn from its stream on. -/
def converse : AgentOp TurnEnd := do
  let w ← Prog.perform (.stream l.runId .turn l.request)
  match w.stream.bind Reply.empty.read with
  | .error e => pure (.stop l (.error (.provider e)))
  | .ok reply =>
    let l' := l.push reply.message
    match reply.finishReason with
    | .toolCalls => l'.actOn reply.toolCalls
    | _ => l'.finish

/-- One turn: the status of the run is looked at first. -/
def takeTurn : AgentOp TurnEnd := do
  match ← (ask (runStatus l.runId)).attempt with
  | .error e => pure (.stop l (.error e))
  | .ok .cancelled | .ok .paused => pure (.stop l (.error .cancelled))
  | .ok .succeeded | .ok (.failed _) => pure (.stop l (.ok ()))
  | .ok _ => do
    let l' ← reflect { l with turn := l.turn + 1 }
    l'.converse

/-- `drive`: as many turns as there is fuel, which starts with `max_turns`. -/
def drive : Nat → ReactLoop → AgentOp (ReactLoop × Except LoopError Unit)
  | 0, l => pure (l, .error (.maxTurnsExceeded l.config.maxTurns))
  | turns + 1, l => do
    match ← l.takeTurn with
    | .next l' => drive turns l'
    | .stop l' result => pure (l', result)

/-- The thread goes to the session. -/
@[grind =] def flush : AgentOp Unit :=
  match l.config.sessionId with
  | some sid => do
    let _ ← (ask (lock (.operation (.flushThread sid l.history)))).attempt
    pure ()
  | none => pure ()

/-- The run is completed or failed. -/
def settle : Except LoopError Unit → AgentOp Unit
  | .ok () => do
    let _ ← (ask (completeRun l.runId)).attempt
    pure ()
  | .error .cancelled => .fail .cancelled
  | .error e => do
    let _ ← (ask (failRun l.runId (e.text l.config.texts))).attempt
    .fail e

/-- `ReactLoop::run`. -/
def run : AgentOp Unit := do
  let _ ← ask (markRunRunning l.runId)
  let (l', result) ← drive l.config.maxTurns l
  l'.flush
  l'.settle result

end ReactLoop

section Ask

theorem ask_lock (x : Section) : ask (lock x) = .act (.locked x) fun w =>
    match w.authority.answer (x.decide w.authority) with
    | .ok reply => .done reply
    | .error e => .fail (.authority e) := by
  simp only [ask, lock, Prog.perform_bind, Prog.within_act]
  refine congrArg (Prog.act _) (funext fun w => ?_)
  cases w.authority.answer (x.decide w.authority) <;> rfl

theorem ask_runStatus (runId : RunId) : ask (runStatus runId) = .act (.locked (.runStatus runId))
    fun w =>
      match w.authority.status? runId with
      | some status => .done status
      | none => .fail (.authority (.unknownRun runId)) := by
  simp only [ask, runStatus, Prog.perform_bind, Prog.within_act, RuntimeAuthority.status?,
    Snapshot.status?, RuntimeAuthority.run?]
  refine congrArg (Prog.act _) (funext fun w => ?_)
  cases w.authority.inner.snapshot.runs.lookup runId <;> rfl

theorem ask_openReview (runId : RunId) (request : Value) (drawn : ReviewId) :
    (ask (openReviewWithCompletion runId request drawn)).attempt =
      .act (.locked (.operation (.openReview runId request drawn))) fun w =>
        match w.authority.answer (Section.decide w.authority (.operation (.openReview runId request drawn)))
        with
        | .ok _ => .act (.locked (.registerCompletion drawn)) fun w' =>
            .done (.ok (.handle ⟨drawn, ⟨w'.authority.completions⟩⟩))
        | .error e => .done (.error (.authority e)) := by
  simp only [ask, openReviewWithCompletion, lock, Prog.perform_bind, Prog.act_bind,
    Prog.within_act, Prog.attempt]
  refine congrArg (Prog.act _) (funext fun w => ?_)
  cases w.authority.answer
    (Section.decide w.authority (.operation (.openReview runId request drawn))) <;> rfl

/-- The action is a section of the authority. -/
def IsLocked (x : Act) : Prop := ∃ y, x = .locked y

theorem ask_isLocked {α : Type} (op : Prog Section RuntimeAuthority AuthorityError α) :
    (ask op).Only IsLocked :=
  Prog.Only.within (Prog.only_of_forall op fun y => ⟨y, rfl⟩)

end Ask

end Cronymax.Agent
