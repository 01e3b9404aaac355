import Cronymax.Agent.Messages
import Mathlib.Data.List.Infix
import Mathlib.Data.List.Forall2

/-! The request that goes to Anthropic: the system prompt in a field of its own, the other messages as
lists of content blocks.  A conversation is carried if a reader of the body finds all of it. -/

namespace Cronymax.Llm

open Agent (LlmRequest ThinkingConfig ToolDef)
open Authority (ChatMessage ChatRole ToolCall Value)

section Body

variable (fromStr : String → Option Value)

def textBlock (text : String) : Value := .object [("type", .string "text"), ("text", .string text)]

def toolUseBlock (call : ToolCall) : Value :=
  .object [("type", .string "tool_use"), ("id", .string call.id), ("name", .string call.name),
    ("input", (fromStr call.arguments).getD .null)]

def wireMessage (role : String) (blocks : List Value) : Value :=
  .object [("role", .string role), ("content", .array blocks)]

/-- One message of `translate_messages`. -/
def translateMessage (msg : ChatMessage) : Option Value :=
  match msg.role with
  -- these belong in the top-level field
  | .system => none
  | .user => some (wireMessage "user" [textBlock (msg.content.getD "")])
  | .assistant =>
    if msg.toolCalls ≠ [] then
      some (wireMessage "assistant" (msg.toolCalls.map (toolUseBlock fromStr)))
    else some (wireMessage "assistant" [textBlock (msg.content.getD "")])
  | .tool =>
    some (wireMessage "user" [.object [("type", .string "tool_result"),
      ("tool_use_id", .string (msg.toolCallId.getD "")), ("content", .string (msg.content.getD ""))]])

def translateMessages (messages : List ChatMessage) : List Value :=
  messages.filterMap (translateMessage fromStr)

def toolWire (t : ToolDef) : Value :=
  .object [("name", .string t.name), ("description", .string t.description),
    ("input_schema", t.parameters)]

/-- The system text of a request: the first one. -/
def systemText (messages : List ChatMessage) : Option String :=
  messages.findSome? fun m => if m.role = .system then m.content else none

def thinkingFields : ThinkingConfig → List (String × Value)
  | .adaptive _ effort =>
    ("thinking", .object [("type", .string "adaptive"), ("display", .string "summarized")]) ::
      match effort with
      | some effort => [("output_config", .object [("effort", .string effort)])]
      | none => []
  | .budget budgetTokens =>
    [("thinking", .object [("type", .string "enabled"),
      ("budget_tokens", .number (toString budgetTokens.toNat))])]
  | .reasoningEffort _ => []

/-- `build_wire_request`. -/
def buildWireRequest (req : LlmRequest) (model : String) (maxTokens : UInt32) : Value :=
  .object ([("model", .string model), ("max_tokens", .number (toString maxTokens.toNat)),
      ("stream", .bool true), ("messages", .array (translateMessages fromStr req.messages))] ++
    ((systemText req.messages).map fun sys => ("system", Value.string sys)).toList ++
    (if req.tools ≠ [] then
      [("tools", .array (req.tools.map toolWire)), ("tool_choice", .object [("type", .string "auto")])]
    else []) ++
    (req.temperature.map fun t => ("temperature", Value.number t)).toList ++
    (req.thinking.map thinkingFields).getD [])

end Body

/-- A content block, as the provider reads it. -/
inductive Block where
  | text (text : String)
  | toolUse (id name : String) (input : Value)
  | toolResult (toolUseId content : String)

def Block.says : Block → Bool
  | .text said => said ≠ ""
  | _ => true

/-- What a block of the body says. -/
def readBlock (v : Value) : Option Block :=
  match (v.get "type").bind (·.asStr) with
  | some "text" => ((v.get "text").bind (·.asStr)).map .text
  | some "tool_use" => do
    let id ← (v.get "id").bind (·.asStr)
    let name ← (v.get "name").bind (·.asStr)
    let input ← v.get "input"
    some (.toolUse id name input)
  | some "tool_result" => do
    let id ← (v.get "tool_use_id").bind (·.asStr)
    let content ← (v.get "content").bind (·.asStr)
    some (.toolResult id content)
  | _ => none

def readBlocks (v : Value) : List Block :=
  ((((v.get "content").bind Agent.asArray).getD []).filterMap readBlock).filter Block.says

def readRole (v : Value) : Option String := (v.get "role").bind (·.asStr)

def bodyMessages (body : Value) : List Value := ((body.get "messages").bind Agent.asArray).getD []

def bodySystem (body : Value) : Option String := (body.get "system").bind (·.asStr)

variable (fromStr : String → Option Value)

/-- The arguments of a call, where they are an object. -/
def argumentFields (arguments : String) : Option (List (String × Value)) :=
  if arguments = "" then some []
  else
    match fromStr arguments with
    | some (.object fields) => some fields
    | _ => none

/-- What a text says. -/
def spoken (content : Option String) : List Block :=
  match content with
  | some text => if text = "" then [] else [.text text]
  | none => []

/-- The block of a call is there, with its arguments as an object. -/
def CallCarried (call : ToolCall) (b : Block) : Prop :=
  ∃ fields, argumentFields fromStr call.arguments = some fields ∧
    b = .toolUse call.id call.name (.object fields)

/-- A message of the body says what a message of the history says. -/
def MessageCarried (m : ChatMessage) (v : Value) : Prop :=
  match m.role with
  | .system => False
  | .user => readRole v = some "user" ∧ readBlocks v = spoken m.content
  | .assistant =>
    readRole v = some "assistant" ∧ ∃ calls, readBlocks v = spoken m.content ++ calls ∧
      List.Forall₂ (CallCarried fromStr) m.toolCalls calls
  | .tool => readRole v = some "user" ∧
      readBlocks v = [.toolResult (m.toolCallId.getD "") (m.content.getD "")]

/-- The body says what the messages say. -/
def Carried (messages : List ChatMessage) (body : Value) : Prop :=
  (∀ m ∈ messages, m.role = .system → ∀ text, m.content = some text →
    ∃ sys, bodySystem body = some sys ∧ text.toList <:+: sys.toList) ∧
  List.Forall₂ (MessageCarried fromStr) (messages.filter (·.role ≠ .system)) (bodyMessages body)

/-- The system texts of the messages. -/
def systemTexts (messages : List ChatMessage) : List String :=
  (messages.filter (·.role = .system)).filterMap (·.content)

/-- The first system text has the others in it. -/
def OneSystemText (messages : List ChatMessage) : Prop :=
  ∀ first, (systemTexts messages).head? = some first →
    ∀ text ∈ systemTexts messages, text.toList <:+: first.toList

/-- A message with calls has no text, and its arguments are objects. -/
def Sendable (m : ChatMessage) : Prop :=
  m.role = .assistant → m.toolCalls ≠ [] → spoken m.content = [] ∧
    ∀ call ∈ m.toolCalls, ∃ fields, fromStr call.arguments = some (.object fields)

theorem systemText_eq (messages : List ChatMessage) :
    systemText messages = (systemTexts messages).head? := by
  rw [systemTexts, List.head?_filterMap]
  induction messages with
  | nil => rfl
  | cons m messages ih =>
    rw [systemText, List.findSome?_cons, ← systemText, ih]
    by_cases hRole : m.role = .system
    · simp [hRole, List.findSome?_cons]
    · simp [hRole]

theorem mem_systemTexts {messages : List ChatMessage} {text : String} :
    text ∈ systemTexts messages ↔ ∃ m ∈ messages, m.role = .system ∧ m.content = some text := by
  simp [systemTexts, and_assoc]

section Body

variable (req : LlmRequest) (model : String) (maxTokens : UInt32)

theorem bodyMessages_eq : bodyMessages (buildWireRequest fromStr req model maxTokens) =
    translateMessages fromStr req.messages := rfl

theorem thinkingFields_system (thinking : Option ThinkingConfig) :
    ((thinking.map thinkingFields).getD []).lookup "system" = none := by
  cases thinking with
  | none => rfl
  | some thinking =>
    cases thinking with
    | adaptive summarized effort => cases effort <;> rfl
    | budget budgetTokens => rfl
    | reasoningEffort effort => rfl

theorem bodySystem_eq :
    bodySystem (buildWireRequest fromStr req model maxTokens) = systemText req.messages := by
  rw [bodySystem, buildWireRequest, Value.get]
  simp only [List.lookup_append, thinkingFields_system]
  cases systemText req.messages with
  | some sys => rfl
  | none =>
    have hTools : List.lookup "system" (if req.tools ≠ [] then
        [("tools", Value.array (req.tools.map toolWire)),
          ("tool_choice", .object [("type", .string "auto")])]
        else []) = none := by
      split
      · rfl
      · rfl
    rw [hTools]
    cases req.temperature <;> rfl

end Body

theorem readBlocks_text (role : String) (content : Option String) :
    readBlocks (wireMessage role [textBlock (content.getD "")]) = spoken content := by
  cases content with
  | none => rfl
  | some text =>
    show [Block.text text].filter Block.says = spoken (some text)
    by_cases hText : text = ""
    · subst hText
      rfl
    · simp [ Block.says, spoken, hText]

theorem readBlocks_calls (calls : List ToolCall) :
    readBlocks (wireMessage "assistant" (calls.map (toolUseBlock fromStr))) =
      calls.map fun call => .toolUse call.id call.name ((fromStr call.arguments).getD .null) := by
  show ((calls.map (toolUseBlock fromStr)).filterMap readBlock).filter Block.says = _
  induction calls with
  | nil => rfl
  | cons call calls ih =>
    rw [List.map_cons, List.filterMap_cons, List.map_cons, ← ih]
    rfl

theorem callCarried_iff (hEmpty : fromStr "" = none) (call : ToolCall) :
    CallCarried fromStr call (.toolUse call.id call.name ((fromStr call.arguments).getD .null)) ↔
      ∃ fields, fromStr call.arguments = some (.object fields) := by
  unfold CallCarried argumentFields
  by_cases hNone : call.arguments = ""
  · rw [if_pos hNone, hNone, hEmpty]
    simp
  · rw [if_neg hNone]
    cases hParse : fromStr call.arguments with
    | none => simp
    | some v => cases v <;> simp

theorem spoken_then_calls (content : Option String) (calls : List ToolCall)
    (input : ToolCall → Value) (P : List Block → Prop) :
    (∃ rest, calls.map (fun call => .toolUse call.id call.name (input call)) = spoken content ++ rest ∧
      P rest) ↔ spoken content = [] ∧
        P (calls.map fun call => .toolUse call.id call.name (input call)) := by
  constructor
  · rintro ⟨rest, hSame, hRest⟩
    have hNothing : spoken content = [] := by
      cases content with
      | none => rfl
      | some text =>
        by_cases hText : text = ""
        · exact if_pos hText
        · rw [show spoken (some text) = [.text text] from if_neg hText] at hSame
          cases calls with
          | nil => cases hSame
          | cons call calls => cases hSame
    rw [hNothing, List.nil_append] at hSame
    rw [hSame]
    exact ⟨hNothing, hRest⟩
  · rintro ⟨hNothing, h⟩
    exact ⟨_, by rw [hNothing, List.nil_append], h⟩

theorem message_carried_iff (hEmpty : fromStr "" = none) {m : ChatMessage} {v : Value}
    (h : translateMessage fromStr m = some v) : MessageCarried fromStr m v ↔ Sendable fromStr m := by
  unfold translateMessage at h
  unfold MessageCarried Sendable
  cases hRole : m.role with
  | system =>
    rw [hRole] at h
    cases h
  | user =>
    rw [hRole] at h
    obtain rfl := Option.some.inj h
    exact iff_of_true ⟨rfl, readBlocks_text "user" m.content⟩ (by simp)
  | tool =>
    rw [hRole] at h
    obtain rfl := Option.some.inj h
    exact iff_of_true ⟨rfl, rfl⟩ (by simp)
  | assistant =>
    rw [hRole] at h
    by_cases hCalls : m.toolCalls = []
    · rw [if_neg (not_not.mpr hCalls)] at h
      obtain rfl := Option.some.inj h
      refine iff_of_true ⟨rfl, [], ?_, ?_⟩ fun _ hSome => absurd hCalls hSome
      · rw [readBlocks_text, List.append_nil]
      · rw [hCalls]
        exact .nil
    · rw [if_pos hCalls] at h
      obtain rfl := Option.some.inj h
      rw [readBlocks_calls, spoken_then_calls]
      simp only [List.forall₂_map_right_iff, List.forall₂_same, callCarried_iff fromStr hEmpty]
      exact ⟨fun h _ _ => h.2, fun h => ⟨rfl, h trivial hCalls⟩⟩

theorem translateMessage_none (m : ChatMessage) :
    translateMessage fromStr m = none ↔ m.role = .system := by
  unfold translateMessage
  cases m.role with
  | system => simp
  | user => simp
  | assistant =>
    simp only [reduceCtorEq, iff_false]
    split
    · simp
    · simp
  | tool => simp

theorem messages_carried_iff (hEmpty : fromStr "" = none) (messages : List ChatMessage) :
    List.Forall₂ (MessageCarried fromStr) (messages.filter (·.role ≠ .system))
      (translateMessages fromStr messages) ↔ ∀ m ∈ messages, Sendable fromStr m := by
  induction messages with
  | nil => simp [translateMessages]
  | cons m messages ih =>
    rw [translateMessages, List.filterMap_cons, List.forall_mem_cons]
    cases hWire : translateMessage fromStr m with
    | none =>
      have hRole := (translateMessage_none fromStr m).mp hWire
      have hSendable : Sendable fromStr m := fun h => by
        rw [hRole] at h
        cases h
      rw [List.filter_cons_of_neg (by simp [hRole])]
      exact ih.trans (and_iff_right hSendable).symm
    | some v =>
      have hRole : m.role ≠ .system := fun h => by
        rw [(translateMessage_none fromStr m).mpr h] at hWire
        cases hWire
      rw [List.filter_cons_of_pos (by simp [hRole]), List.forall₂_cons,
        message_carried_iff fromStr hEmpty hWire]
      exact and_congr_right fun _ => ih

/-- The body carries the history if and only if the first system text has the others in it, no text
stands beside tool calls, and the arguments of every call parse as an object. -/
theorem conversation_carried_iff (hEmpty : fromStr "" = none) (req : LlmRequest) (model : String)
    (maxTokens : UInt32) :
    Carried fromStr req.messages (buildWireRequest fromStr req model maxTokens) ↔
      OneSystemText req.messages ∧ ∀ m ∈ req.messages, Sendable fromStr m := by
  rw [Carried, bodyMessages_eq, messages_carried_iff fromStr hEmpty, bodySystem_eq, systemText_eq]
  refine and_congr_left fun _ => ?_
  constructor
  · intro h first hFirst text hText
    obtain ⟨m, hMem, hRole, hContent⟩ := mem_systemTexts.mp hText
    obtain ⟨sys, hSys, hIn⟩ := h m hMem hRole text hContent
    obtain rfl := Option.some.inj (hFirst.symm.trans hSys)
    exact hIn
  · intro h m hMem hRole text hContent
    have hText := mem_systemTexts.mpr ⟨m, hMem, hRole, hContent⟩
    cases hTexts : systemTexts req.messages with
    | nil =>
      rw [hTexts] at hText
      cases hText
    | cons first rest => exact ⟨first, rfl, h first (by rw [hTexts]; rfl) text hText⟩

section Examples

def readsBraces (text : String) : Option Value :=
  if text = "\x7b\x7d" then some (.object []) else none

def chat (messages : List ChatMessage) : LlmRequest := ⟨"", messages, [], none, none, none⟩

def exchange : List ChatMessage :=
  [Agent.system "You are Crony.", Agent.user "list the files",
    Agent.assistantToolCalls [⟨"call", "ls", "\x7b\x7d"⟩], Agent.toolResult "call" "ls" "no files",
    Agent.user "thanks"]

/-- A thread with a system text, a tool call and its result. -/
theorem exchange_carried : Carried readsBraces exchange
    (buildWireRequest readsBraces (chat exchange) "claude" 8192) := by
  refine (conversation_carried_iff readsBraces rfl (chat exchange) "claude" 8192).mpr
    ⟨fun first hFirst text hText => ?_, ?_⟩
  · cases hFirst
    rw [List.mem_singleton.mp hText]
  · have hCall : Sendable readsBraces (Agent.assistantToolCalls [⟨"call", "ls", "\x7b\x7d"⟩]) :=
      fun _ _ => ⟨rfl, fun call hCall => ⟨[], by rw [List.mem_singleton.mp hCall]; rfl⟩⟩
    simp only [chat, exchange, List.forall_mem_cons]
    exact ⟨nofun, nofun, hCall, nofun, nofun, fun m hm => nomatch hm⟩

def compacted : List ChatMessage :=
  [Agent.system "You are Crony.", Agent.system "[Conversation summary]", Agent.user "hello"]

/-- A thread that has been compacted has two system texts, and the second one is not sent. -/
theorem summary_lost : ¬Carried readsBraces compacted
    (buildWireRequest readsBraces (chat compacted) "claude" 8192) := by
  rintro ⟨hSystem, -⟩
  obtain ⟨sys, hSys, hIn⟩ := hSystem (Agent.system "[Conversation summary]")
    (List.mem_cons_of_mem _ List.mem_cons_self) rfl _ rfl
  have hFirst : sys = "You are Crony." := (Option.some.inj hSys).symm
  rw [hFirst] at hIn
  exact absurd hIn.length_le (by decide)

end Examples

end Cronymax.Llm
