import Cronymax.Atomic.History
import Cronymax.Rpc.Connection

/-! One turn of an agent session that an extension drives.  The host sends notifies; the connection
spawns a handler task for each of them (`Connection.dispatch`), and the tasks put their messages into
the session's channel, from which `run_extension_turn` takes them.  `Exchange` is the state that
these share, and its events are their steps. -/

namespace Cronymax.Extensions

open Atomic
open Cronymax.Rpc (Value)

/-- `AgentEvent`.  Payloads are passed on as they come. -/
inductive AgentSessionEvent where
  | text (text : String)
  | thinking (text : String)
  | toolCall (id name : String) (input : Value) (source : String) (status : Option String)
  | toolCallUpdate (id status : String) (output : Value)
  | permissionRequest (requestId tool : String) (options : Value)
  | done (stopReason : String) (errorMessage : Option String)

/-- What an extension sends in a turn. -/
inductive Message where
  | event (event : AgentSessionEvent)
  | turnDone

def Message.isTurnDone : Message → Bool
  | .turnDone => true
  | .event _ => false

inductive RunOutcome where
  | succeeded
  | failed (message : String)
deriving DecidableEq

inductive Emission where
  | token (delta : String)
  | thinkingToken (delta : String)
  | toolStart (tool id : String) (arguments : Value)
  | toolDone (tool id : String) (result : Value) (isError : Bool)
  | assistantDelta (delta : String)
  | toolInvoked (id name : String) (input : Value)
  | toolCompleted (id status : String) (output : Value)
  | permissionRequested (requestId tool : String) (options : Value)
  | review (requestId tool : String) (options : Value)

/-- The variables of the event loop. -/
structure Turn where
  finalStatus : Option RunOutcome
  assistantText : String
  /-- `tool_names`, the latest first. -/
  toolNames : List (String × String)
  emitted : List Emission

namespace Turn

def start : Turn := ⟨none, "", [], []⟩

variable (t : Turn)

def emit (e : Emission) : Turn := { t with emitted := t.emitted ++ [e] }

/-- `translate_event`: the outcome is the one of a `done` event. -/
def translateEvent : AgentSessionEvent → Option RunOutcome × Turn
  | .text text => (none, t.emit (.token text))
  | .thinking text => (none, t.emit (.thinkingToken text))
  | .toolCall id name input _ _ =>
    (none, { t with toolNames := (id, name) :: t.toolNames.filter (·.1 ≠ id) }.emit
      (.toolStart name id input))
  | .toolCallUpdate id status output =>
    let tool := ((t.toolNames.find? (·.1 = id)).map (·.2)).getD ""
    (none, { t with toolNames := t.toolNames.filter (·.1 ≠ id) }.emit
      (.toolDone tool id output (status = "failed")))
  | .permissionRequest _ _ _ => (none, t)
  | .done stopReason errorMessage =>
    if stopReason = "error" then
      (some (.failed (errorMessage.getD "extension reported error")), t)
    else (some .succeeded, t)

/-- What the turn makes of an event. -/
def observe : AgentSessionEvent → Turn
  | .text text => { t with assistantText := t.assistantText ++ text }.emit (.assistantDelta text)
  | .toolCall id name input _ _ => t.emit (.toolInvoked id name input)
  | .toolCallUpdate id status output => t.emit (.toolCompleted id status output)
  | .permissionRequest requestId tool options =>
    t.emit (.permissionRequested requestId tool options)
  | _ => t

/-- One event in the loop of `run_extension_turn`. -/
def handle (ev : AgentSessionEvent) : Turn :=
  let t := t.observe ev
  match ev with
  | .permissionRequest requestId tool options => t.emit (.review requestId tool options)
  | _ =>
    match t.translateEvent ev with
    | (some outcome, t) => { t with finalStatus := some outcome }
    | (none, t) => t

/-- The turn takes a message. -/
def take : Message → Turn
  | .event ev => t.handle ev
  | .turnDone => t

end Turn

/-- What `run_extension_turn` returns. -/
structure TurnResult where
  outcome : RunOutcome
  assistantText : String
deriving DecidableEq

/-- What becomes of the `session.prompt` request. -/
inductive PromptEnd where
  | ok
  | rpcFailed (error : String)
  | panicked (error : String)

def PromptEnd.outcome : PromptEnd → RunOutcome
  | .ok => .succeeded
  | .rpcFailed error => .failed ("session.prompt RPC failed: " ++ error)
  | .panicked error => .failed ("session.prompt task panicked: " ++ error)

/-- The end of the turn. -/
def Turn.result (t : Turn) (prompt : PromptEnd) : TurnResult :=
  ⟨t.finalStatus.getD prompt.outcome, t.assistantText⟩

/-- The document of a flow agent: where one port is pending, and the text is not empty. -/
def TurnResult.document (r : TurnResult) (pendingPorts : List String) : Option (String × String) :=
  match r.outcome with
  | .succeeded => pendingPorts.head?.map fun port => (port, r.assistantText)
  | .failed _ => none

inductive Stage where
  | spawned
  | sending
  | delivered
  | dropped
deriving DecidableEq

/-- The task of one notify. -/
structure Task where
  message : Message
  stage : Stage

/-- The tasks of the notifications, the channel and what the turn has received. -/
structure Exchange where
  tasks : List Task
  registered : Bool
  channel : List Message
  received : List Message
  turn : Turn
  /-- The event loop has come to `TurnDone`. -/
  ended : Bool
  /-- The receiver is still there. -/
  listening : Bool

def capacity : Nat := 64

inductive Step where
  /-- `session_router.register`. -/
  | register
  | frame (message : Message)
  | lookup (task : Nat)
  /-- `tx.send`. -/
  | send (task : Nat)
  | recv
  /-- `session_router.unregister`. -/
  | unregister
  /-- `run_extension_turn` returns. -/
  | leave

namespace Exchange

/-- Before the turn. -/
def idle : Exchange := ⟨[], false, [], [], .start, false, true⟩

variable (x : Exchange)

def setTask (i : Nat) (t : Task) : Exchange := { x with tasks := x.tasks.set i t }

/-- What a step does. -/
def step : Step → Exchange
  | .register => { x with registered := true }
  | .frame message => { x with tasks := x.tasks ++ [⟨message, .spawned⟩] }
  | .lookup i =>
    match x.tasks[i]? with
    | some ⟨message, .spawned⟩ =>
      x.setTask i ⟨message, if x.registered then .sending else .dropped⟩
    | _ => x
  | .send i =>
    match x.tasks[i]? with
    | some ⟨message, .sending⟩ =>
      if x.listening then
        if x.channel.length < capacity then
          { x with channel := x.channel ++ [message] }.setTask i ⟨message, .delivered⟩
        else x
      else x.setTask i ⟨message, .dropped⟩
    | _ => x
  | .recv =>
    match x.ended, x.channel with
    | false, message :: rest =>
      { x with
        channel := rest
        received := x.received ++ [message]
        turn := x.turn.take message
        ended := message.isTurnDone }
    | _, _ => x
  | .unregister => if x.ended then { x with registered := false } else x
  | .leave => if x.ended ∧ ¬x.registered then { x with listening := false } else x

end Exchange

end Cronymax.Extensions
