import Cronymax.Authority.State

/-! What an agent loop says to a provider and hears from it: requests, the events of a stream, and the
reply that a turn gathers from them.  The messages of a thread are those of the authority. -/

namespace Cronymax.Agent

open Authority

def system (text : String) : ChatMessage := ⟨.system, some text, [], none, none⟩

def user (text : String) : ChatMessage := ⟨.user, some text, [], none, none⟩

def assistantText (text : String) : ChatMessage := ⟨.assistant, some text, [], none, none⟩

def assistantToolCalls (calls : List ToolCall) : ChatMessage := ⟨.assistant, none, calls, none, none⟩

def toolResult (callId name content : String) : ChatMessage :=
  ⟨.tool, some content, [], some callId, some name⟩

structure ToolDef where
  name : String
  description : String
  parameters : Value

inductive ThinkingConfig where
  | adaptive (summarized : Bool) (effort : Option String)
  | budget (budgetTokens : UInt32)
  | reasoningEffort (effort : String)

structure LlmRequest where
  model : String
  messages : List ChatMessage
  tools : List ToolDef
  temperature : Option String
  reasoningEffort : Option String
  thinking : Option ThinkingConfig

inductive FinishReason where
  | stop
  | toolCalls
  | length
  | other (reason : String)
deriving DecidableEq

inductive LlmEvent where
  | delta (content : String)
  | thinkingDelta (content : String)
  | toolCallDelta (index : Nat) (id name argumentsChunk : Option String)
  | usage (inputTokens outputTokens : Nat)
  | done (finishReason : FinishReason)
  | error (message : String)
deriving DecidableEq

/-- A tool call as far as its chunks have come. -/
structure AccumCall where
  id : String
  name : String
  arguments : String
deriving DecidableEq

/-- A chunk is added: an id and a name that are not empty replace the former ones. -/
def AccumCall.extend (call : AccumCall) (id name argumentsChunk : Option String) : AccumCall where
  id := (id.filter (· ≠ "")).getD call.id
  name := (name.filter (· ≠ "")).getD call.name
  arguments := call.arguments ++ argumentsChunk.getD ""

/-- The entry of an index is edited, or made in its place. -/
@[grind =] def editCall (index : Nat) (f : AccumCall → AccumCall) :
    List (Nat × AccumCall) → List (Nat × AccumCall)
  | [] => [(index, f ⟨"", "", ""⟩)]
  | (i, call) :: rest =>
    if index < i then (index, f ⟨"", "", ""⟩) :: (i, call) :: rest
    else if index = i then (i, f call) :: rest
    else (i, call) :: editCall index f rest

/-- What a turn has gathered from its stream. -/
structure Reply where
  text : String
  calls : List (Nat × AccumCall)
  finish : Option FinishReason
deriving DecidableEq

namespace Reply

/-- What a turn begins with. -/
def empty : Reply := ⟨"", [], none⟩

/-- The events of a stream up to its end or its error. -/
def read : Reply → List LlmEvent → Except String Reply
  | reply, [] => .ok reply
  | reply, .delta content :: events => { reply with text := reply.text ++ content }.read events
  | reply, .thinkingDelta _ :: events => reply.read events
  | reply, .toolCallDelta index id name chunk :: events =>
    { reply with calls := editCall index (·.extend id name chunk) reply.calls }.read events
  | reply, .usage _ _ :: events => reply.read events
  | reply, .done finishReason :: _ => .ok { reply with finish := some finishReason }
  | _, .error message :: _ => .error message

variable (reply : Reply)

/-- The calls of a reply, in the order of their indices. -/
def toolCalls : List ToolCall :=
  reply.calls.map fun entry => ⟨entry.2.id, entry.2.name, entry.2.arguments⟩

def finishReason : FinishReason := reply.finish.getD .stop

/-- The message that a reply becomes. -/
@[grind =] def message : ChatMessage :=
  if reply.toolCalls ≠ [] then assistantToolCalls reply.toolCalls
  else if reply.text ≠ "" then assistantText reply.text
  else ⟨.assistant, some "", [], none, none⟩

theorem message_role : reply.message.role ≠ .tool := by
  rw [message]
  split
  · nofun
  · split <;> nofun

theorem message_toolCalls : reply.message.toolCalls = reply.toolCalls := by
  rw [message]
  split
  · rfl
  · rename_i hCalls
    rw [not_not.mp hCalls]
    split <;> rfl

end Reply

/-- The text of a stream, up to its end or its error. -/
def collectText : String → List LlmEvent → Except String String
  | text, [] => .ok text
  | text, .delta content :: events => collectText (text ++ content) events
  | text, .done _ :: _ => .ok text
  | _, .error message :: _ => .error message
  | text, _ :: events => collectText text events

structure CriticOutput where
  passed : Bool
  issues : List String
deriving DecidableEq

/-- From the first brace of a text to its last. -/
def jsonBlock (text : String) : Option String :=
  let fromOpening := text.toList.dropWhile (· ≠ '\x7b')
  let block := (fromOpening.reverse.dropWhile (· ≠ '\x7d')).reverse
  if block = [] then none else some (String.ofList block)

def asBool : Value → Option Bool
  | .bool b => some b
  | _ => none

def asArray : Value → Option (List Value)
  | .array items => some items
  | _ => none

/-- `CriticOutput::from_json`, with the reader of JSON as a parameter. -/
def CriticOutput.fromJson (fromStr : String → Option Value) (text : String) :
    Option CriticOutput := do
  let block ← jsonBlock text
  let v ← fromStr block
  let passed ← (v.get "passed").bind asBool
  let issues := (((v.get "issues").bind asArray).map (·.filterMap Value.asStr)).getD []
  some ⟨passed, issues⟩

end Cronymax.Agent
