import Cronymax.Llm.Sse

/-! The decoding of Anthropic's streams, in which a payload says what happens to a content block: what
a delta of a block means depends on how the block has been started. -/

namespace Cronymax.Llm

open Agent (LlmEvent FinishReason)
open Authority (Value)

structure AccumToolUse where
  id : String
  name : String
  inputJson : String
  index : Nat

inductive BlockKind where
  | text
  | thinking
  | toolUse (index : Nat)
  | redacted

/-- What the reader keeps of the open content blocks. -/
structure Blocks where
  kinds : Table Nat BlockKind
  toolUses : Table Nat AccumToolUse

namespace Payload

/-- `as_u64`. -/
def asU64 : Value → Option Nat
  | .number text =>
    if text ≠ "" ∧ text.toList.all Char.isDigit then text.toNat?.filter (· < 2 ^ 64) else none
  | _ => none

def string? (v : Value) (path : List String) : Option String :=
  (path.foldl (fun v key => v.bind (·.get key)) (some v)).bind (·.asStr)

def u64? (v : Value) (path : List String) : Option Nat :=
  (path.foldl (fun v key => v.bind (·.get key)) (some v)).bind asU64

end Payload

open Payload

namespace Blocks

variable (b : Blocks) (v : Value)

@[grind =] def indexOf : Nat := (u64? v ["index"]).getD 0

/-- `content_block_start`. -/
def startBlock : Blocks :=
  let index := indexOf v
  match (string? v ["content_block", "type"]).getD "" with
  | "thinking" => { b with kinds := b.kinds.insert index .thinking }
  | "redacted_thinking" => { b with kinds := b.kinds.insert index .redacted }
  | "tool_use" =>
    { kinds := b.kinds.insert index (.toolUse index)
      toolUses := b.toolUses.insert index
        ⟨(string? v ["content_block", "id"]).getD "", (string? v ["content_block", "name"]).getD "",
          "", index⟩ }
  | _ => { b with kinds := b.kinds.insert index .text }

/-- A piece of the arguments of a call. -/
def inputDelta (index : Nat) (chunk : String) : Blocks × List LlmEvent :=
  match b.toolUses.lookup index with
  | none => (b, [])
  | some call =>
    let call := { call with inputJson := call.inputJson ++ chunk }
    let isFirst := call.inputJson.utf8ByteSize = chunk.utf8ByteSize
    ({ b with toolUses := b.toolUses.insert index call },
      [.toolCallDelta call.index (if isFirst then some call.id else none)
        (if isFirst then some call.name else none) (if chunk = "" then none else some chunk)])

/-- `content_block_delta`. -/
@[grind =] def blockDelta : Blocks × List LlmEvent :=
  match b.kinds.lookup (indexOf v), (string? v ["delta", "type"]).getD "" with
  | some .thinking, "thinking_delta" =>
    let text := (string? v ["delta", "thinking"]).getD ""
    (b, if text = "" then [] else [.thinkingDelta text])
  | some .text, "text_delta" =>
    let text := (string? v ["delta", "text"]).getD ""
    (b, if text = "" then [] else [.delta text])
  | some (.toolUse index), "input_json_delta" =>
    b.inputDelta index ((string? v ["delta", "partial_json"]).getD "")
  | _, _ => (b, [])

def usageOf (event : Nat → LlmEvent) : Option Nat → List LlmEvent
  | some n => if n > 0 then [event n] else []
  | none => []

/-- `stop_reason`. -/
def stopReason : String → FinishReason
  | "end_turn" => .stop
  | "tool_use" => .toolCalls
  | "max_tokens" => .length
  | other => .other other

/-- `process_sse_event`: the events, and whether the stream is over. -/
@[grind =] def processSseEvent : Blocks × List LlmEvent × Bool :=
  match (string? v ["type"]).getD "" with
  | "content_block_start" => (b.startBlock v, [], false)
  | "content_block_delta" => ((b.blockDelta v).1, (b.blockDelta v).2, false)
  | "content_block_stop" => ({ b with kinds := b.kinds.erase (indexOf v) }, [], false)
  | "message_start" =>
    (b, usageOf (.usage · 0) (u64? v ["message", "usage", "input_tokens"]), false)
  | "message_delta" =>
    (b, usageOf (.usage 0 ·) (u64? v ["usage", "output_tokens"]) ++
      [.done (stopReason ((string? v ["delta", "stop_reason"]).getD "end_turn"))], true)
  | "message_stop" => (b, [], true)
  | "error" =>
    (b, [.error ((string? v ["error", "message"]).getD "unknown anthropic error")], true)
  | _ => (b, [], false)

end Blocks

/-- `fromStr` is `serde_json::from_str`; a malformed event is skipped. -/
def anthropicReader (fromStr : String → Option Value) : Reader Blocks where
  start := ⟨∅, ∅⟩
  marker := none
  decode := fun b payload =>
    match fromStr payload with
    | some v => b.processSseEvent v
    | none => (b, [], false)

end Cronymax.Llm
