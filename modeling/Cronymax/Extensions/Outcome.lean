import Cronymax.Authority.Operations
import Cronymax.Extensions.Manifest
import Cronymax.Extensions.Stream

/-! The outcome of a turn that an extension drives, and what its two callers make of it: the chat panel
ends the run, and a flow node submits the reply as its document first.  Three signals say that a turn is
over: a `done` event, the end of the event loop, and the reply to `session.prompt`.  `Finished` is what
a success should mean, and `Recorded` says when the outcome keeps to it. -/

namespace Cronymax.Extensions

open Authority (RunId)

def Turn.loop : Turn → List Message → Turn
  | t, [] => t
  | t, .event ev :: rest => (t.handle ev).loop rest
  | t, .turnDone :: _ => t

/-- The reply to `session.create`. -/
structure CreateReply where
  body : Json
  /-- The reply as `{:?}` shows it. -/
  debug : String

/-- What the provider answers to the calls of a turn, and what it sends. -/
structure Session where
  created : Except String CreateReply
  registered : Except String Unit
  messages : List Message
  prompt : PromptEnd

def sessionId (provider : String) : Except String CreateReply → Except String String
  | .error e => .error ("session.create on `" ++ provider ++ "` failed: " ++ e)
  | .ok reply =>
    match (reply.body.get "sessionId").bind Json.asStr with
    | some id =>
      if id ≠ "" then .ok id
      else .error ("session.create on `" ++ provider ++ "` returned no sessionId: " ++ reply.debug)
    | none =>
      .error ("session.create on `" ++ provider ++ "` returned no sessionId: " ++ reply.debug)

def Session.opened (provider : String) (s : Session) : Except String String := do
  let id ← sessionId provider s.created
  match s.registered with
  | .ok _ => pure id
  | .error e => .error ("router register for `" ++ id ++ "` failed: " ++ e)

/-- `run_extension_turn`. -/
def runExtensionTurn (provider : String) (s : Session) : TurnResult :=
  match s.opened provider with
  | .error message => ⟨.failed message, ""⟩
  | .ok _ => (Turn.start.loop s.messages).result s.prompt

/-- `drive_extension_session`. -/
def driveExtensionSession (runId : RunId) (provider : String) (s : Session) : Authority.Call :=
  match (runExtensionTurn provider s).outcome with
  | .succeeded => .completeRun runId
  | .failed message => .failRun runId message

/-- The arguments of `persist_flow_document`. -/
structure FlowDocument where
  flowId : String
  runId : String
  agentId : String
  docType : String
  title : String
  body : String
deriving DecidableEq

structure DocumentSubmitted where
  runId : String
  flowId : String
  docType : String
  documentId : String
  relativePath : String
  agentId : String
  body : String
  revision : UInt32
  sha256 : String
deriving DecidableEq

structure FlowNode where
  runId : RunId
  flowId : Option String
  flowRunId : Option String
  nodeId : String
  pendingPorts : List String

/-- The end of `drive_extension_flow_agent`. -/
structure FlowEnd where
  persisted : Option FlowDocument
  /-- What has gone into `doc_tx`. -/
  submitted : Option DocumentSubmitted
  call : Authority.Call

/-- `drive_extension_flow_agent`. -/
def driveExtensionFlowAgent (persist : FlowDocument → Except String DocumentSubmitted)
    (send : DocumentSubmitted → Except String Unit) (node : FlowNode) (provider : String)
    (s : Session) : FlowEnd :=
  let result := runExtensionTurn provider s
  match result.outcome with
  | .failed message => ⟨none, none, .failRun node.runId message⟩
  | .succeeded =>
    match node.pendingPorts.head? with
    | none => ⟨none, none, .completeRun node.runId⟩
    | some docType =>
      let document : FlowDocument :=
        ⟨node.flowId.getD "", node.flowRunId.getD "", node.nodeId, docType, docType,
          result.assistantText⟩
      match persist document with
      | .ok evt =>
        match send evt with
        | .ok _ => ⟨some document, some evt, .completeRun node.runId⟩
        | .error e =>
          ⟨some document, none,
            .failRun node.runId ("flow doc channel closed before submit: " ++ e)⟩
      | .error e =>
        ⟨some document, none,
          .failRun node.runId ("persisting extension agent document failed: " ++ e)⟩

def eventsOf : List Message → List AgentSessionEvent
  | [] => []
  | .event ev :: rest => ev :: eventsOf rest
  | .turnDone :: _ => []

def isDone (messages : List Message) : Bool := messages.any Message.isTurnDone

theorem Turn.loop_eq (t : Turn) (messages : List Message) :
    t.loop messages = (eventsOf messages).foldl Turn.handle t := by
  induction messages generalizing t with
  | nil => rfl
  | cons m messages ih =>
    cases m with
    | event ev => exact ih (t.handle ev)
    | turnDone => rfl

variable {provider : String} {s : Session}

theorem outcome_of_opened {id : String} (hOpened : s.opened provider = .ok id) :
    (runExtensionTurn provider s).outcome =
      (announcedBy (eventsOf s.messages)).getD s.prompt.outcome := by
  simp only [runExtensionTurn, hOpened, Turn.result, Turn.loop_eq, Turn.foldl_finalStatus]
  simp [Turn.start]

theorem outcome_of_not_opened {message : String} (hOpened : s.opened provider = .error message) :
    (runExtensionTurn provider s).outcome = .failed message := by
  simp only [runExtensionTurn, hOpened]

namespace Session

/-- The turn really finished. -/
structure Finished (s : Session) : Prop where
  turnDone : isDone s.messages
  noError : ∀ ev ∈ eventsOf s.messages, ∀ message, ev.announces ≠ some (.failed message)
  prompted : s.prompt = .ok

/-- The sink was closed before `TurnDone`, or `session.prompt` failed. -/
def Interrupted (s : Session) : Prop := isDone s.messages = false ∨ s.prompt ≠ .ok

/-- Both callers fail the run, and the flow node neither writes nor submits a document. -/
structure Fails (persist : FlowDocument → Except String DocumentSubmitted)
    (send : DocumentSubmitted → Except String Unit) (runId : RunId) (node : FlowNode)
    (provider : String) (s : Session) : Prop where
  outcome : ∃ message, (runExtensionTurn provider s).outcome = .failed message
  chat : ∃ message, driveExtensionSession runId provider s = .failRun runId message
  flow : ∃ message, (driveExtensionFlowAgent persist send node provider s).call =
    .failRun node.runId message
  persisted : (driveExtensionFlowAgent persist send node provider s).persisted = none
  submitted : (driveExtensionFlowAgent persist send node provider s).submitted = none

/-- The run ends as the turn has, and fails where it was cut off. -/
def Recorded (provider : String) (s : Session) : Prop :=
  (s.opened provider).isOk →
    s.Finished ∨ (∃ message, announcedBy (eventsOf s.messages) = some (.failed message)) ∨
      announcedBy (eventsOf s.messages) = none ∧ s.prompt ≠ .ok

variable {persist : FlowDocument → Except String DocumentSubmitted}
  {send : DocumentSubmitted → Except String Unit} {runId : RunId} {node : FlowNode}

theorem fails_of_outcome {message : String}
    (h : (runExtensionTurn provider s).outcome = .failed message) :
    s.Fails persist send runId node provider where
  outcome := ⟨message, h⟩
  chat := ⟨message, by simp only [driveExtensionSession, h]⟩
  flow := ⟨message, by simp only [driveExtensionFlowAgent, h]⟩
  persisted := by simp only [driveExtensionFlowAgent, h]
  submitted := by simp only [driveExtensionFlowAgent, h]

theorem prompt_outcome_failed {p : PromptEnd} (h : p ≠ .ok) :
    ∃ message, p.outcome = .failed message := by
  cases p with
  | ok => exact absurd rfl h
  | rpcFailed error => exact ⟨_, rfl⟩
  | panicked error => exact ⟨_, rfl⟩

theorem not_interrupted (h : s.Finished) : ¬s.Interrupted := by
  rintro (hClosed | hPrompt)
  · exact Bool.noConfusion (hClosed.symm.trans h.turnDone)
  · exact hPrompt h.prompted

theorem outcome_of_recorded (h : s.Recorded provider) :
    s.Finished ∨ ∃ message, (runExtensionTurn provider s).outcome = .failed message := by
  cases hOpened : s.opened provider with
  | error message => exact .inr ⟨message, outcome_of_not_opened hOpened⟩
  | ok id =>
    rw [outcome_of_opened hOpened]
    obtain hFinished | ⟨message, hError⟩ | ⟨hNone, hPrompt⟩ := h (by rw [hOpened]; rfl)
    · exact .inl hFinished
    · exact .inr ⟨message, by rw [hError]; rfl⟩
    · rw [hNone]
      exact .inr (prompt_outcome_failed hPrompt)

theorem recorded_of_outcome
    (h : s.Finished ∨ ∃ message, (runExtensionTurn provider s).outcome = .failed message) :
    s.Recorded provider := by
  intro hOk
  cases hOpened : s.opened provider with
  | error message =>
    rw [hOpened] at hOk
    cases hOk
  | ok id =>
    rw [outcome_of_opened hOpened] at h
    obtain hFinished | ⟨message, hFailed⟩ := h
    · exact .inl hFinished
    · cases hLast : announcedBy (eventsOf s.messages) with
      | some o =>
        rw [hLast] at hFailed
        exact .inr (.inl ⟨message, congrArg some hFailed⟩)
      | none =>
        rw [hLast] at hFailed
        refine .inr (.inr ⟨rfl, fun hOk => ?_⟩)
        rw [hOk] at hFailed
        cases hFailed

end Session

/-- An interrupted turn is not taken for a success exactly when its interruption is recorded. -/
theorem interrupted_turn_fails_iff (persist : FlowDocument → Except String DocumentSubmitted)
    (send : DocumentSubmitted → Except String Unit) (runId : RunId) (node : FlowNode)
    (provider : String) (s : Session) :
    (((runExtensionTurn provider s).outcome = .succeeded → s.Finished) ∧
      (s.Interrupted → s.Fails persist send runId node provider)) ↔ s.Recorded provider := by
  constructor
  · rintro ⟨hSuccess, -⟩
    refine Session.recorded_of_outcome ?_
    cases hOutcome : (runExtensionTurn provider s).outcome with
    | succeeded => exact .inl (hSuccess hOutcome)
    | failed message => exact .inr ⟨message, rfl⟩
  · intro hRecorded
    obtain hFinished | ⟨message, hFailed⟩ := Session.outcome_of_recorded hRecorded
    · exact ⟨fun _ => hFinished, fun h => absurd h (Session.not_interrupted hFinished)⟩
    · refine ⟨fun hSucceeded => ?_, fun _ => Session.fails_of_outcome hFailed⟩
      rw [hFailed] at hSucceeded
      cases hSucceeded

def severed : Session where
  created := .ok ⟨.object [("sessionId", .string "s-1")], ""⟩
  registered := .ok ()
  messages := [.event (.text "The first ha")]
  prompt := .ok

/-- Half a reply is submitted as the document, and the run is completed. -/
theorem severed_turn_completes :
    severed.Interrupted ∧ (runExtensionTurn "alice.coder" severed).outcome = .succeeded ∧
      driveExtensionSession ⟨"r-7"⟩ "alice.coder" severed = .completeRun ⟨"r-7"⟩ ∧
      ((driveExtensionFlowAgent
          (fun d => .ok ⟨d.runId, d.flowId, d.docType, d.docType, "", d.agentId, d.body, 1, ""⟩)
          (fun _ => .ok ()) ⟨⟨"r-7"⟩, some "f", some "r", "n", ["spec"]⟩
          "alice.coder" severed).submitted.map (·.body)) = some "The first ha" := by
  refine ⟨.inl rfl, ?_, ?_, ?_⟩ <;> rfl

end Cronymax.Extensions
