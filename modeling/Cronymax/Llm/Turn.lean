import Mathlib
import Cronymax.Llm.Anthropic
import Cronymax.Agent.Calls

/-! What a turn gathers from a stream of Anthropic: the content blocks of a message, in pieces that come
in any order of the blocks, and the tool calls, the text and the usage that the loop makes of them. -/

namespace Cronymax.Llm

open Agent (LlmEvent FinishReason Reply AccumCall emptyCall editCall callAt callAt_none mem_iff_callAt editCall_sorted
  mem_editCall)
open Authority (Value)
open Payload

inductive ContentBlock where
  | text
  | thinking
  | redacted
  | toolUse (id name : String)
deriving DecidableEq

/-- What an event of a stream says. -/
inductive StreamEvent where
  | messageStart (inputTokens : Nat)
  | blockStart (index : Nat) (block : ContentBlock)
  | textDelta (index : Nat) (text : String)
  | thinkingDelta (index : Nat) (text : String)
  | signatureDelta (index : Nat)
  | inputJsonDelta (index : Nat) (partialJson : String)
  | blockStop (index : Nat)
  | ping
  | messageDelta (stopReason : String) (outputTokens : Nat)
deriving DecidableEq

/-- A delta of a block in a payload. -/
def IsDelta (v : Value) (index : Nat) (type : String) : Prop :=
  string? v ["type"] = some "content_block_delta" ∧ u64? v ["index"] = some index ∧
    string? v ["delta", "type"] = some type

/-- The start of a block in a payload. -/
def IsStart (v : Value) (index : Nat) (type : String) : Prop :=
  string? v ["type"] = some "content_block_start" ∧ u64? v ["index"] = some index ∧
    string? v ["content_block", "type"] = some type

/-- The payload says so, beside whatever else there is in it. -/
def StreamEvent.Says (v : Value) : StreamEvent → Prop
  | .messageStart inputTokens =>
    string? v ["type"] = some "message_start" ∧
      u64? v ["message", "usage", "input_tokens"] = some inputTokens
  | .blockStart index .text => IsStart v index "text"
  | .blockStart index .thinking => IsStart v index "thinking"
  | .blockStart index .redacted => IsStart v index "redacted_thinking"
  | .blockStart index (.toolUse id name) => IsStart v index "tool_use" ∧
      string? v ["content_block", "id"] = some id ∧ string? v ["content_block", "name"] = some name
  | .textDelta index text => IsDelta v index "text_delta" ∧ string? v ["delta", "text"] = some text
  | .thinkingDelta index text =>
    IsDelta v index "thinking_delta" ∧ string? v ["delta", "thinking"] = some text
  | .signatureDelta index => IsDelta v index "signature_delta"
  | .inputJsonDelta index partialJson =>
    IsDelta v index "input_json_delta" ∧ string? v ["delta", "partial_json"] = some partialJson
  | .blockStop index =>
    string? v ["type"] = some "content_block_stop" ∧ u64? v ["index"] = some index
  | .ping => string? v ["type"] = some "ping"
  | .messageDelta stopReason outputTokens =>
    string? v ["type"] = some "message_delta" ∧ string? v ["delta", "stop_reason"] = some stopReason ∧
      u64? v ["usage", "output_tokens"] = some outputTokens

/-- The block of an index after an event. -/
def StreamEvent.touch (i : Nat) (open? : Option ContentBlock) : StreamEvent → Option ContentBlock
  | .blockStart index block => if index = i then some block else open?
  | .blockStop index => if index = i then none else open?
  | _ => open?

/-- The block that is open. -/
def openBlock (i : Nat) (seen : List StreamEvent) : Option ContentBlock :=
  seen.foldl (StreamEvent.touch i) none

/-- The event can come after these. -/
def StreamEvent.Follows (seen : List StreamEvent) : StreamEvent → Prop
  | .blockStart index _ => ∀ block, .blockStart index block ∉ seen
  | .textDelta index _ => openBlock index seen = some .text
  | .thinkingDelta index _ => openBlock index seen = some .thinking
  | .signatureDelta index => openBlock index seen = some .thinking
  | .inputJsonDelta index _ => ∃ id name, openBlock index seen = some (.toolUse id name)
  | .blockStop index => openBlock index seen ≠ none
  | .ping => True
  | .messageStart _ => False
  | .messageDelta _ _ => False

/-- The events of the blocks of a message, interleaved in any way. -/
def WellFormed (body : List StreamEvent) : Prop :=
  ∀ seen e rest, body = seen ++ e :: rest → e.Follows seen

def streamEvents (b : Blocks) : List Value → List LlmEvent
  | [] => []
  | v :: payloads =>
    let r := b.processSseEvent v
    if r.2.2 then r.2.1 else r.2.1 ++ streamEvents r.1 payloads

structure TokenUsage where
  inputTokens : Nat
  outputTokens : Nat
deriving DecidableEq

/-- `turn_usage` at the end of a stream. -/
def TokenUsage.read : TokenUsage → List LlmEvent → TokenUsage
  | usage, [] => usage
  | usage, .usage inputTokens outputTokens :: events =>
    (TokenUsage.mk (usage.inputTokens + inputTokens) (usage.outputTokens + outputTokens)).read events
  | usage, .done _ :: _ => usage
  | usage, .error _ :: _ => usage
  | usage, _ :: events => usage.read events

def StreamEvent.text? : StreamEvent → Option (Nat × String)
  | .textDelta index text => some (index, text)
  | _ => none

def StreamEvent.json? : StreamEvent → Option (Nat × String)
  | .inputJsonDelta index partialJson => some (index, partialJson)
  | _ => none

def StreamEvent.textBlock? : StreamEvent → Option Nat
  | .blockStart index .text => some index
  | _ => none

def pieces (i : Nat) (deltas : List (Nat × String)) : List Char :=
  (deltas.filter (·.1 = i)).flatMap (·.2.toList)

/-- The arguments that the stream has for a block. -/
def jsonOf (i : Nat) (body : List StreamEvent) : List Char := pieces i (body.filterMap (·.json?))

/-- The text that the stream has for a block. -/
def textOf (i : Nat) (body : List StreamEvent) : List Char := pieces i (body.filterMap (·.text?))

/-- The text as it comes. -/
def arrivingText (body : List StreamEvent) : List Char :=
  (body.filterMap (·.text?)).flatMap (·.2.toList)

/-- The texts of all blocks in the order of their indices. -/
def orderedText (body : List StreamEvent) : List Char :=
  ((body.filterMap (·.textBlock?)).mergeSort (· ≤ ·)).flatMap fun i => textOf i body

/-- The property of a turn: from the payloads the loop gathers, in the order of the blocks, one tool
call for each block of a tool call, with what its deltas spell, and the text of the text blocks; and the
usage and the finish reason are the reported ones. -/
structure TurnRight (inputTokens : Nat) (body : List StreamEvent) (stop : String) (outputTokens : Nat)
    (events : List LlmEvent) (reply : Reply) : Prop where
  sorted : (reply.calls.map (·.1)).Pairwise (· < ·)
  calls : ∀ i call, (i, call) ∈ reply.calls ↔ ∃ id name, .blockStart i (.toolUse id name) ∈ body ∧
    call = ⟨id, name, String.ofList (jsonOf i body)⟩
  text : reply.text = String.ofList (orderedText body)
  usage : TokenUsage.read ⟨0, 0⟩ events = ⟨inputTokens, outputTokens⟩
  finish : reply.finish = some (Blocks.stopReason stop)

theorem openBlock_concat (i : Nat) (seen : List StreamEvent) (e : StreamEvent) :
    openBlock i (seen ++ [e]) = e.touch i (openBlock i seen) := by
  rw [openBlock, List.foldl_concat, openBlock]

theorem started_of_open {i : Nat} {block : ContentBlock} {seen : List StreamEvent}
    (h : openBlock i seen = some block) : .blockStart i block ∈ seen := by
  induction seen using List.reverseRecOn with
  | nil => cases h
  | append_singleton seen e ih =>
    rw [openBlock_concat] at h
    cases e with
    | blockStart index block' =>
      rw [StreamEvent.touch] at h
      split at h
      · rename_i hAt
        cases h
        subst hAt
        simp
      · exact List.mem_append_left _ (ih h)
    | blockStop index =>
      rw [StreamEvent.touch] at h
      split at h
      · cases h
      · exact List.mem_append_left _ (ih h)
    | _ => exact List.mem_append_left _ (ih h)

theorem pieces_concat (i : Nat) (deltas : List (Nat × String)) (j : Nat) (t : String) :
    pieces i (deltas ++ [(j, t)]) = pieces i deltas ++ if j = i then t.toList else [] := by
  by_cases h : j = i
  · simp [pieces, h]
  · simp [pieces, h]

def ContentBlock.kind (index : Nat) : ContentBlock → BlockKind
  | .text => .text
  | .thinking => .thinking
  | .redacted => .redacted
  | .toolUse _ _ => .toolUse index

def Blocks.opened (b : Blocks) (index : Nat) (block : ContentBlock) : Blocks where
  kinds := b.kinds.insert index (block.kind index)
  toolUses :=
    match block with
    | .toolUse id name => b.toolUses.insert index ⟨id, name, "", index⟩
    | _ => b.toolUses

section Process

variable {b : Blocks} {v : Value} {i : Nat} {t : String}

theorem process_start {block : ContentBlock} (h : StreamEvent.Says v (.blockStart i block)) :
    b.processSseEvent v = (b.opened i block, [], false) := by
  have hStart : ∀ type, IsStart v i type → b.processSseEvent v = (b.startBlock v, [], false) := by
    rintro type ⟨hType, -⟩
    rw [Blocks.processSseEvent, hType]
    rfl
  cases block with
  | text =>
    rw [hStart _ h, Blocks.startBlock, Blocks.indexOf, h.2.1, h.2.2]
    rfl
  | thinking =>
    rw [hStart _ h, Blocks.startBlock, Blocks.indexOf, h.2.1, h.2.2]
    rfl
  | redacted =>
    rw [hStart _ h, Blocks.startBlock, Blocks.indexOf, h.2.1, h.2.2]
    rfl
  | toolUse id name =>
    obtain ⟨h, hId, hName⟩ := h
    rw [hStart _ h, Blocks.startBlock, Blocks.indexOf, h.2.1, h.2.2, hId, hName]
    rfl

theorem process_delta {type : String} (h : IsDelta v i type) :
    b.processSseEvent v = ((b.blockDelta v).1, (b.blockDelta v).2, false) := by
  rw [Blocks.processSseEvent, h.1]
  rfl

theorem process_text (h : StreamEvent.Says v (.textDelta i t)) (hOpen : b.kinds.lookup i = some .text) :
    b.processSseEvent v = (b, if t = "" then [] else [.delta t], false) := by
  rw [process_delta h.1, Blocks.blockDelta, Blocks.indexOf, h.1.2.1, h.1.2.2, h.2]
  simp only [Option.getD_some, hOpen]

theorem process_thinking (h : StreamEvent.Says v (.thinkingDelta i t))
    (hOpen : b.kinds.lookup i = some .thinking) :
    b.processSseEvent v = (b, if t = "" then [] else [.thinkingDelta t], false) := by
  rw [process_delta h.1, Blocks.blockDelta, Blocks.indexOf, h.1.2.1, h.1.2.2, h.2]
  simp only [Option.getD_some, hOpen]

theorem process_signature (h : StreamEvent.Says v (.signatureDelta i))
    (hOpen : b.kinds.lookup i = some .thinking) : b.processSseEvent v = (b, [], false) := by
  rw [process_delta h, Blocks.blockDelta, Blocks.indexOf, h.2.1, h.2.2]
  simp only [Option.getD_some, hOpen]
  rfl

theorem process_json (h : StreamEvent.Says v (.inputJsonDelta i t))
    (hOpen : b.kinds.lookup i = some (.toolUse i)) :
    b.processSseEvent v = ((b.inputDelta i t).1, (b.inputDelta i t).2, false) := by
  rw [process_delta h.1, Blocks.blockDelta, Blocks.indexOf, h.1.2.1, h.1.2.2, h.2]
  simp only [Option.getD_some, hOpen]

theorem process_stop (h : StreamEvent.Says v (.blockStop i)) :
    b.processSseEvent v = ({ b with kinds := b.kinds.erase i }, [], false) := by
  rw [Blocks.processSseEvent, h.1, Blocks.indexOf, h.2]
  rfl

theorem process_ping (h : StreamEvent.Says v .ping) : b.processSseEvent v = (b, [], false) := by
  rw [Blocks.processSseEvent, show string? v ["type"] = some "ping" from h]
  rfl

theorem process_messageStart {n : Nat} (h : StreamEvent.Says v (.messageStart n)) :
    b.processSseEvent v = (b, if n > 0 then [.usage n 0] else [], false) := by
  rw [Blocks.processSseEvent, h.1, h.2]
  rfl

theorem process_messageDelta {stop : String} {n : Nat}
    (h : StreamEvent.Says v (.messageDelta stop n)) : b.processSseEvent v =
      (b, (if n > 0 then [.usage 0 n] else []) ++ [.done (Blocks.stopReason stop)], true) := by
  rw [Blocks.processSseEvent, h.1, h.2.1, h.2.2]
  rfl

end Process

/-- Some delta of the block has come. -/
def HasDelta (i : Nat) (seen : List StreamEvent) : Prop := ∃ t, .inputJsonDelta i t ∈ seen

/-- The blocks and the reply after the events that have been seen. -/
structure Gathered (seen : List StreamEvent) (b : Blocks) (r : Reply) : Prop where
  once : ∀ i block block', .blockStart i block ∈ seen → .blockStart i block' ∈ seen → block = block'
  kinds : ∀ i, b.kinds.lookup i = (openBlock i seen).map (·.kind i)
  tools : ∀ i id name, .blockStart i (.toolUse id name) ∈ seen →
    b.toolUses.lookup i = some ⟨id, name, String.ofList (jsonOf i seen), i⟩
  begun : ∀ i t, .inputJsonDelta i t ∈ seen → ∃ id name, .blockStart i (.toolUse id name) ∈ seen
  text : r.text = String.ofList (arrivingText seen)
  sorted : (r.calls.map (·.1)).Pairwise (· < ·)
  calls : ∀ i call, (i, call) ∈ r.calls ↔ HasDelta i seen ∧ ∃ id name,
    .blockStart i (.toolUse id name) ∈ seen ∧ call = ⟨id, name, String.ofList (jsonOf i seen)⟩

theorem gathered_nil : Gathered [] ⟨∅, ∅⟩ Reply.empty where
  once := by simp
  kinds := fun i => rfl
  tools := by simp
  begun := by simp
  text := rfl
  sorted := List.Pairwise.nil
  calls := by simp [Reply.empty]

section Step

variable {seen : List StreamEvent} {b : Blocks} {r : Reply} {i : Nat} {t : String}

theorem jsonOf_other {e : StreamEvent} (h : e.json? = none) (i : Nat) (seen : List StreamEvent) :
    jsonOf i (seen ++ [e]) = jsonOf i seen := by
  simp [jsonOf, h]

theorem hasDelta_other {e : StreamEvent} (h : e.json? = none) (i : Nat) (seen : List StreamEvent) :
    HasDelta i (seen ++ [e]) ↔ HasDelta i seen := by
  have hNot : ∀ t, .inputJsonDelta i t ≠ e := by
    rintro t rfl
    cases h
  simp [HasDelta, hNot]

theorem arrivingText_other {e : StreamEvent} (h : e.text? = none) (seen : List StreamEvent) :
    arrivingText (seen ++ [e]) = arrivingText seen := by
  simp [arrivingText, h]

theorem Gathered.quiet (h : Gathered seen b r) {e : StreamEvent} {b' : Blocks}
    (hStart : ∀ i block, .blockStart i block ≠ e) (hJson : e.json? = none) (hText : e.text? = none)
    (hKinds : ∀ i, b'.kinds.lookup i = (openBlock i (seen ++ [e])).map (·.kind i))
    (hTools : b'.toolUses = b.toolUses) : Gathered (seen ++ [e]) b' r where
  once := by simpa [hStart] using h.once
  kinds := hKinds
  tools := fun i id name hMem => by
    have hBefore : .blockStart i (.toolUse id name) ∈ seen := by simpa [hStart] using hMem
    rw [hTools, jsonOf_other hJson]
    exact h.tools i id name hBefore
  begun := fun i t hMem => by
    obtain ⟨t', ht'⟩ := (hasDelta_other hJson i seen).mp ⟨t, hMem⟩
    obtain ⟨id, name, hBegun⟩ := h.begun i t' ht'
    exact ⟨id, name, List.mem_append_left _ hBegun⟩
  text := by rw [arrivingText_other hText, h.text]
  sorted := h.sorted
  calls := fun i call => by
    rw [hasDelta_other hJson, jsonOf_other hJson, h.calls i call]
    simp [hStart]

theorem jsonOf_of_none (h : ¬HasDelta i seen) : jsonOf i seen = [] := by
  have hNone : (seen.filterMap (·.json?)).filter (·.1 = i) = [] := by
    refine List.filter_eq_nil_iff.mpr fun delta hDelta hAt => ?_
    obtain ⟨e, hMem, hJson⟩ := List.mem_filterMap.mp hDelta
    cases e with
    | inputJsonDelta j t =>
      cases hJson
      obtain rfl : j = i := by simpa using hAt
      exact h ⟨t, hMem⟩
    | _ => cases hJson
  rw [jsonOf, pieces, hNone]
  rfl

theorem mem_concat_start {block block' : ContentBlock} {j : Nat} :
    .blockStart j block' ∈ seen ++ [.blockStart i block] ↔
      .blockStart j block' ∈ seen ∨ j = i ∧ block' = block := by
  simp

/-- A block that starts is new, so that nothing of it has come. -/
theorem Gathered.start (h : Gathered seen b r) {block : ContentBlock}
    (hNew : ∀ block, .blockStart i block ∉ seen) :
    Gathered (seen ++ [.blockStart i block]) (b.opened i block) r := by
  have hNoDelta : ¬HasDelta i seen := fun ⟨t, ht⟩ => by
    obtain ⟨id, name, hBegun⟩ := h.begun i t ht
    exact hNew _ hBegun
  refine ⟨fun j one other hOne hOther => ?_, fun j => ?_, fun j id name hMem => ?_, fun j t hMem => ?_,
    ?_, h.sorted, fun j call => ?_⟩
  · rcases mem_concat_start.mp hOne with hIn | ⟨rfl, rfl⟩
    · rcases mem_concat_start.mp hOther with hIn' | ⟨rfl, -⟩
      · exact h.once j one other hIn hIn'
      · exact absurd hIn (hNew one)
    · rcases mem_concat_start.mp hOther with hIn' | ⟨-, rfl⟩
      · exact absurd hIn' (hNew other)
      · rfl
  · rw [openBlock_concat, StreamEvent.touch]
    show (b.kinds.insert i (block.kind i)).lookup j = _
    rw [Table.lookup_insert_if]
    by_cases hAt : j = i
    · subst hAt
      simp
    · rw [if_neg hAt, if_neg (Ne.symm hAt), h.kinds j]
  · rw [jsonOf_other rfl]
    rcases mem_concat_start.mp hMem with hIn | ⟨rfl, rfl⟩
    · have hNe : j ≠ i := by
        rintro rfl
        exact hNew _ hIn
      rw [← h.tools j id name hIn]
      cases block with
      | toolUse id' name' =>
        exact (Table.lookup_insert_if i j ⟨id', name', "", i⟩ b.toolUses).trans (if_neg hNe)
      | text => rfl
      | thinking => rfl
      | redacted => rfl
    · rw [jsonOf_of_none hNoDelta]
      exact (Table.lookup_insert_if j j ⟨id, name, "", j⟩ b.toolUses).trans (if_pos rfl)
  · obtain ⟨t', ht'⟩ := (hasDelta_other rfl j seen).mp ⟨t, hMem⟩
    obtain ⟨id, name, hBegun⟩ := h.begun j t' ht'
    exact ⟨id, name, List.mem_append_left _ hBegun⟩
  · rw [arrivingText_other rfl, h.text]
  · rw [hasDelta_other rfl, jsonOf_other rfl, h.calls j call]
    refine and_congr_right fun hDelta => exists_congr fun id => exists_congr fun name => ?_
    have hNe : j ≠ i := by
      rintro rfl
      exact hNoDelta hDelta
    simp [hNe]

theorem Gathered.textDelta (h : Gathered seen b r) :
    Gathered (seen ++ [.textDelta i t]) b { r with text := r.text ++ t } where
  once := by simpa using h.once
  kinds := fun j => by
    rw [openBlock_concat]
    exact h.kinds j
  tools := fun j id name hMem => by
    rw [jsonOf_other rfl]
    exact h.tools j id name (by simpa using hMem)
  begun := by simpa using h.begun
  text := by
    show r.text ++ t = _
    rw [h.text, arrivingText, arrivingText, List.filterMap_append, List.flatMap_append,
      String.ofList_append]
    simp [StreamEvent.text?]
  sorted := h.sorted
  calls := fun j call => by
    rw [hasDelta_other rfl, jsonOf_other rfl, h.calls j call]
    simp

theorem filter_getD {s default : String} (h : s = "" → default = "") :
    ((some s).filter (· ≠ "")).getD default = s := by
  rw [Option.filter_some]
  split
  · rfl
  · rename_i hEmpty
    have hNone : s = "" := by simpa using hEmpty
    rw [hNone, Option.getD_none, h hNone]

theorem extend_new (id name : String) (chunk : Option String) :
    emptyCall.extend (some id) (some name) chunk = ⟨id, name, chunk.getD ""⟩ := by
  rw [AccumCall.extend, emptyCall, filter_getD fun _ => rfl, filter_getD fun _ => rfl, String.empty_append]

theorem extend_again (id name arguments : String) (first : Bool) (chunk : Option String) :
    AccumCall.extend ⟨id, name, arguments⟩ (if first then some id else none)
      (if first then some name else none) chunk = ⟨id, name, arguments ++ chunk.getD ""⟩ := by
  cases first with
  | false => rfl
  | true =>
    have hId : ((some id).filter (· ≠ "")).getD id = id := filter_getD fun h => h
    have hName : ((some name).filter (· ≠ "")).getD name = name := filter_getD fun h => h
    rw [if_pos rfl, if_pos rfl, AccumCall.extend, hId, hName]

theorem jsonOf_delta (j : Nat) : jsonOf j (seen ++ [.inputJsonDelta i t]) =
    jsonOf j seen ++ if i = j then t.toList else [] := by
  rw [jsonOf, List.filterMap_append, show [StreamEvent.inputJsonDelta i t].filterMap (·.json?) =
    [(i, t)] from rfl, pieces_concat, jsonOf]

theorem Gathered.extend (h : Gathered seen b r) {id name : String}
    (hStart : .blockStart i (.toolUse id name) ∈ seen) {first : Bool}
    (hFirst : jsonOf i seen = [] → first = true) (chunk : Option String) :
    (callAt r.calls i).extend (if first then some id else none) (if first then some name else none)
      chunk = ⟨id, name, String.ofList (jsonOf i seen) ++ chunk.getD ""⟩ := by
  by_cases hDelta : HasDelta i seen
  · have hMem := (h.calls i ⟨id, name, String.ofList (jsonOf i seen)⟩).mpr
      ⟨hDelta, id, name, hStart, rfl⟩
    rw [((mem_iff_callAt h.sorted).mp hMem).2, extend_again]
  · have hNone : i ∉ r.calls.map Prod.fst := fun hMem =>
      hDelta ((h.calls i _).mp ((mem_iff_callAt h.sorted).mpr ⟨hMem, rfl⟩)).1
    have hJson := jsonOf_of_none hDelta
    rw [callAt_none hNone, hFirst hJson, hJson, if_pos rfl, if_pos rfl, extend_new]
    exact congrArg (AccumCall.mk id name) (String.empty_append).symm

theorem Gathered.jsonDelta (h : Gathered seen b r) {id name : String}
    (hOpen : openBlock i seen = some (.toolUse id name)) :
    ∃ (first : Bool) (chunk : Option String), (b.inputDelta i t).2 =
        [.toolCallDelta i (if first then some id else none) (if first then some name else none) chunk] ∧
      Gathered (seen ++ [.inputJsonDelta i t]) (b.inputDelta i t).1
        { r with calls := editCall i (·.extend (if first then some id else none)
          (if first then some name else none) chunk) r.calls } := by
  have hStart := started_of_open hOpen
  let call : AccumToolUse := ⟨id, name, String.ofList (jsonOf i seen) ++ t, i⟩
  let first : Bool := call.inputJson.utf8ByteSize = t.utf8ByteSize
  have hDelta : b.inputDelta i t = ({ b with toolUses := b.toolUses.insert i call },
      [.toolCallDelta i (if first then some id else none) (if first then some name else none)
        (if t = "" then none else some t)]) := by
    rw [Blocks.inputDelta, h.tools i id name hStart]
    simp only [first, decide_eq_true_eq]
    rfl
  have hChunk : (if t = "" then none else some t : Option String).getD "" = t := by
    split
    · rename_i hEmpty
      exact hEmpty.symm
    · rfl
  have hFirst : jsonOf i seen = [] → first = true := by
    intro hNone
    simp [first, call, hNone]
  have hCall := h.extend hStart hFirst (if t = "" then none else some t)
  rw [hChunk] at hCall
  refine ⟨first, if t = "" then none else some t, by rw [hDelta], ?_⟩
  rw [hDelta]
  have hSpelt : ∀ j, j ≠ i → jsonOf j (seen ++ [.inputJsonDelta i t]) = jsonOf j seen := by
    intro j hNe
    rw [jsonOf_delta, if_neg (Ne.symm hNe), List.append_nil]
  have hHere : String.ofList (jsonOf i (seen ++ [.inputJsonDelta i t])) =
      String.ofList (jsonOf i seen) ++ t := by
    rw [jsonOf_delta, if_pos rfl, String.ofList_append, String.ofList_toList]
  have hStarts : ∀ j block, .blockStart j block ∈ seen ++ [.inputJsonDelta i t] ↔
      .blockStart j block ∈ seen := by simp
  have hDeltas : ∀ j, HasDelta j (seen ++ [.inputJsonDelta i t]) ↔ j = i ∨ HasDelta j seen := by
    intro j
    constructor
    · rintro ⟨u, hu⟩
      rcases List.mem_append.mp hu with hu | hu
      · exact .inr ⟨u, hu⟩
      · cases List.mem_singleton.mp hu
        exact .inl rfl
    · rintro (rfl | ⟨u, hu⟩)
      · exact ⟨t, by simp⟩
      · exact ⟨u, List.mem_append_left _ hu⟩
  refine ⟨fun j one other hOne hOther => ?_, fun j => ?_, fun j id' name' hMem => ?_, fun j u hMem => ?_,
    ?_, editCall_sorted h.sorted, fun j entry => ?_⟩
  · exact h.once j one other ((hStarts j one).mp hOne) ((hStarts j other).mp hOther)
  · rw [openBlock_concat]
    exact h.kinds j
  · have hTool := h.tools j id' name' ((hStarts j _).mp hMem)
    show (b.toolUses.insert i call).lookup j = _
    rw [Table.lookup_insert_if]
    by_cases hAt : j = i
    · subst hAt
      obtain ⟨rfl, rfl⟩ := ContentBlock.toolUse.inj (h.once j _ _ ((hStarts j _).mp hMem) hStart)
      rw [if_pos rfl, hHere]
    · rw [if_neg hAt, hTool, hSpelt j hAt]
  · rcases (hDeltas j).mp ⟨u, hMem⟩ with rfl | ⟨u', hu'⟩
    · exact ⟨id, name, (hStarts j _).mpr hStart⟩
    · obtain ⟨id', name', hBegun⟩ := h.begun j u' hu'
      exact ⟨id', name', (hStarts j _).mpr hBegun⟩
  · rw [arrivingText_other rfl, h.text]
  · rw [mem_editCall h.sorted, hCall, h.calls j entry, hDeltas j]
    simp only [hStarts]
    by_cases hAt : j = i
    · subst hAt
      simp only [ne_eq, not_true_eq_false, false_and, true_and, false_or, true_or, hHere]
      constructor
      · rintro rfl
        exact ⟨id, name, hStart, rfl⟩
      · rintro ⟨id', name', hStart', rfl⟩
        obtain ⟨rfl, rfl⟩ := ContentBlock.toolUse.inj (h.once j _ _ hStart' hStart)
        rfl
    · simp only [hAt, ne_eq, not_false_eq_true, true_and, false_and, or_false, false_or, hSpelt j hAt]

/-- What one event adds: the loop has read what the pump has sent for it. -/
structure Advances (seen : List StreamEvent) (b : Blocks) (r : Reply) (e : StreamEvent) (v : Value)
    (b' : Blocks) (events : List LlmEvent) (r' : Reply) : Prop where
  process : b.processSseEvent v = (b', events, false)
  gathered : Gathered (seen ++ [e]) b' r'
  finish : r'.finish = r.finish
  read : ∀ rest, r.read (events ++ rest) = r'.read rest
  usage : ∀ (u : TokenUsage) rest, u.read (events ++ rest) = u.read rest

theorem Gathered.advances (h : Gathered seen b r) {e : StreamEvent} {v : Value}
    (hFollows : e.Follows seen) (hSays : e.Says v) :
    ∃ b' events r', Advances seen b r e v b' events r' := by
  have hKinds : ∀ j block, openBlock j seen = some block → b.kinds.lookup j = some (block.kind j) := by
    intro j block hOpen
    rw [h.kinds j, hOpen]
    rfl
  cases e with
  | messageStart n => exact hFollows.elim
  | messageDelta stop n => exact hFollows.elim
  | ping =>
    exact ⟨b, [], r, process_ping hSays, h.quiet (by simp) rfl rfl (fun j => by
      rw [openBlock_concat]
      exact h.kinds j) rfl, rfl, fun _ => rfl, fun _ _ => rfl⟩
  | blockStart i block =>
    exact ⟨_, [], r, process_start hSays, h.start hFollows, rfl, fun _ => rfl, fun _ _ => rfl⟩
  | blockStop i =>
    refine ⟨_, [], r, process_stop hSays, h.quiet (by simp) rfl rfl (fun j => ?_) rfl, rfl,
      fun _ => rfl, fun _ _ => rfl⟩
    rw [openBlock_concat, StreamEvent.touch]
    by_cases hAt : j = i
    · subst hAt
      rw [if_pos rfl]
      exact Finmap.lookup_erase j b.kinds
    · rw [if_neg (Ne.symm hAt), ← h.kinds j]
      exact Finmap.lookup_erase_ne hAt
  | signatureDelta i =>
    exact ⟨b, [], r, process_signature hSays (hKinds i _ hFollows), h.quiet (by simp) rfl rfl (fun j => by
      rw [openBlock_concat]
      exact h.kinds j) rfl, rfl, fun _ => rfl, fun _ _ => rfl⟩
  | thinkingDelta i t =>
    refine ⟨b, _, r, process_thinking hSays (hKinds i _ hFollows), h.quiet (by simp) rfl rfl
      (fun j => ?_) rfl, rfl, fun rest => ?_, fun u rest => ?_⟩
    · rw [openBlock_concat]
      exact h.kinds j
    · split
      · rfl
      · rfl
    · split
      · rfl
      · rfl
  | textDelta i t =>
    refine ⟨b, _, _, process_text hSays (hKinds i _ hFollows), h.textDelta (t := t), rfl,
      fun rest => ?_, fun u rest => ?_⟩
    · split
      · rename_i hEmpty
        rw [hEmpty, String.append_empty]
        rfl
      · rfl
    · split
      · rfl
      · rfl
  | inputJsonDelta i t =>
    obtain ⟨id, name, hOpen⟩ := hFollows
    obtain ⟨first, chunk, hEvents, hNext⟩ := h.jsonDelta (t := t) hOpen
    refine ⟨_, _, _, process_json hSays (hKinds i _ hOpen), hNext, rfl, fun rest => ?_, fun u rest => ?_⟩
    · rw [hEvents]
      rfl
    · rw [hEvents]
      rfl

theorem Gathered.run (h : Gathered seen b r) {body : List StreamEvent} {payloads : List Value}
    (hSays : List.Forall₂ (fun e v => StreamEvent.Says v e) body payloads)
    (hWell : ∀ pre e post, body = pre ++ e :: post → e.Follows (seen ++ pre)) (tail : List Value) :
    ∃ b' r', Gathered (seen ++ body) b' r' ∧ r'.finish = r.finish ∧
      r.read (streamEvents b (payloads ++ tail)) = r'.read (streamEvents b' tail) ∧
      ∀ u : TokenUsage, u.read (streamEvents b (payloads ++ tail)) = u.read (streamEvents b' tail) := by
  induction hSays generalizing seen b r with
  | nil => exact ⟨b, r, by rwa [List.append_nil], rfl, rfl, fun _ => rfl⟩
  | @cons e v body payloads hFirst hRest ih =>
    have hFollows : e.Follows seen := by simpa using hWell [] e body rfl
    obtain ⟨b₁, events, r₁, hOne⟩ := h.advances hFollows hFirst
    obtain ⟨b', r', hGathered, hFinish, hRead, hUsage⟩ := ih hOne.gathered fun pre e' post hSplit => by
      simpa using hWell (e :: pre) e' post (by rw [hSplit]; rfl)
    have hStream : streamEvents b (v :: payloads ++ tail) = events ++ streamEvents b₁ (payloads ++ tail) := by
      rw [List.cons_append, streamEvents, hOne.process]
      rfl
    refine ⟨b', r', by simpa using hGathered, hFinish.trans hOne.finish, ?_, fun u => ?_⟩
    · rw [hStream, hOne.read, hRead]
    · rw [hStream, hOne.usage, hUsage]

end Step

/-- From a well-formed stream the loop gathers the right turn if and only if every block of a tool call
has a delta and the text comes in the order of the blocks. -/
theorem turn_right_iff {inputTokens outputTokens : Nat} {stop : String} {body : List StreamEvent}
    {first last : Value} {payloads : List Value}
    (hFirst : StreamEvent.Says first (.messageStart inputTokens))
    (hBody : List.Forall₂ (fun e v => StreamEvent.Says v e) body payloads)
    (hLast : StreamEvent.Says last (.messageDelta stop outputTokens)) (hWell : WellFormed body)
    (trailing : List Value) :
    (∃ reply, Reply.empty.read (streamEvents ⟨∅, ∅⟩ (first :: (payloads ++ last :: trailing))) =
        .ok reply ∧ TurnRight inputTokens body stop outputTokens
          (streamEvents ⟨∅, ∅⟩ (first :: (payloads ++ last :: trailing))) reply) ↔
      (∀ i id name, .blockStart i (.toolUse id name) ∈ body → HasDelta i body) ∧
        arrivingText body = orderedText body := by
  obtain ⟨b, r, h, -, hRead, hUsage⟩ := gathered_nil.run hBody hWell (last :: trailing)
  have hEnd : streamEvents b (last :: trailing) =
      (if outputTokens > 0 then [.usage 0 outputTokens] else []) ++ [.done (Blocks.stopReason stop)] := by
    rw [streamEvents, process_messageDelta hLast]
    rfl
  have hStream : streamEvents ⟨∅, ∅⟩ (first :: (payloads ++ last :: trailing)) =
      (if inputTokens > 0 then [.usage inputTokens 0] else []) ++
        streamEvents ⟨∅, ∅⟩ (payloads ++ last :: trailing) := by
    rw [streamEvents, process_messageStart hFirst]
    rfl
  let final : Reply := { r with finish := some (Blocks.stopReason stop) }
  have hReply : Reply.empty.read (streamEvents ⟨∅, ∅⟩ (first :: (payloads ++ last :: trailing))) =
      .ok final := by
    have hLastRead : r.read (streamEvents b (last :: trailing)) = .ok final := by
      rw [hEnd]
      split <;> rfl
    rw [hStream, ← hLastRead, ← hRead]
    split <;> rfl
  have hTokens : TokenUsage.read ⟨0, 0⟩
      (streamEvents ⟨∅, ∅⟩ (first :: (payloads ++ last :: trailing))) =
        ⟨inputTokens, outputTokens⟩ := by
    have hStart : TokenUsage.read ⟨0, 0⟩
        (streamEvents ⟨∅, ∅⟩ (first :: (payloads ++ last :: trailing))) =
          TokenUsage.read ⟨inputTokens, 0⟩ (streamEvents ⟨∅, ∅⟩ (payloads ++ last :: trailing)) := by
      rw [hStream]
      split
      · simp [TokenUsage.read]
      · rw [show inputTokens = 0 by omega]
        rfl
    rw [hStart, hUsage, hEnd]
    split
    · simp [TokenUsage.read]
    · rw [show outputTokens = 0 by omega]
      rfl
  rw [hReply]
  have hText : r.text = String.ofList (orderedText body) ↔ arrivingText body = orderedText body := by
    rw [h.text, List.nil_append, String.ofList_inj]
  constructor
  · rintro ⟨reply, hSame, hRight⟩
    obtain rfl := Except.ok.inj hSame
    refine ⟨fun i id name hStart => ?_, hText.mp hRight.text⟩
    have hMem := (hRight.calls i _).mpr ⟨id, name, hStart, rfl⟩
    simpa using ((h.calls i _).mp hMem).1
  · rintro ⟨hDeltas, hOrder⟩
    refine ⟨final, rfl, h.sorted, fun i call => ?_, hText.mpr hOrder, hTokens, rfl⟩
    rw [show final.calls = r.calls from rfl, h.calls i call, List.nil_append]
    refine and_iff_right_of_imp ?_
    rintro ⟨id, name, hStart, -⟩
    exact hDeltas i id name hStart

section Examples

def numbered (n : Nat) : Value := .number (Nat.repr n)

theorem asU64_numbered {n : Nat} (h : Nat.repr n ≠ "" ∧ (Nat.repr n).toList.all Char.isDigit = true)
    (hBound : n < 2 ^ 64) : asU64 (numbered n) = some n := by
  rw [numbered, asU64, if_pos h, Nat.toNat?_repr, Option.filter_some, if_pos (by simpa using hBound)]

theorem wellFormed_nil : WellFormed [] := fun seen e rest h => by
  simp at h

theorem wellFormed_concat {body : List StreamEvent} {e : StreamEvent} (h : WellFormed body)
    (hLast : e.Follows body) : WellFormed (body ++ [e]) := by
  intro seen e' rest hSplit
  rcases List.eq_nil_or_concat rest with rfl | ⟨rest, last, rfl⟩
  · obtain ⟨rfl, hSame⟩ := List.append_inj' hSplit rfl
    cases hSame
    exact hLast
  · rw [List.concat_eq_append, ← List.cons_append, ← List.append_assoc] at hSplit
    exact h seen e' rest (List.append_inj' hSplit rfl).1

def startPayload : Value := .object [("type", .string "message_start"),
  ("message", .object [("usage", .object [("input_tokens", numbered 10)])])]

def blockPayload (index : Nat) (type : String) (fields : List (String × Value)) : Value :=
  .object ([("type", .string type), ("index", numbered index)] ++ fields)

def stopPayload (stop : String) : Value := .object [("type", .string "message_delta"),
  ("delta", .object [("stop_reason", .string stop)]), ("usage", .object [("output_tokens", numbered 5)])]

theorem startPayload_says : StreamEvent.Says startPayload (.messageStart 10) :=
  ⟨rfl, show asU64 (numbered 10) = some 10 from asU64_numbered (by decide) (by decide)⟩

theorem says_stopPayload (stop : String) : StreamEvent.Says (stopPayload stop) (.messageDelta stop 5) :=
  ⟨rfl, rfl, show asU64 (numbered 5) = some 5 from asU64_numbered (by decide) (by decide)⟩

theorem blockPayload_index {index : Nat} (hSmall : index < 2) (type : String)
    (fields : List (String × Value)) : u64? (blockPayload index type fields) ["index"] = some index := by
  have hDigit : ∀ n < 2, Nat.repr n ≠ "" ∧ (Nat.repr n).toList.all Char.isDigit = true := by decide
  exact asU64_numbered (hDigit index hSmall) (by omega)

/-- The pieces of a text and of a tool call take turns. -/
def callBody : List StreamEvent :=
  [.blockStart 0 .text, .blockStart 1 (.toolUse "call_1" "list"), .inputJsonDelta 1 "\x7b",
    .textDelta 0 "hello", .inputJsonDelta 1 "\x7d", .blockStop 1]

def deltaPayload (index : Nat) (type field text : String) : Value :=
  blockPayload index "content_block_delta" [("delta", .object [("type", .string type), (field, .string text)])]

def callPayloads : List Value :=
  [blockPayload 0 "content_block_start" [("content_block", .object [("type", .string "text")])],
    blockPayload 1 "content_block_start" [("content_block",
      .object [("type", .string "tool_use"), ("id", .string "call_1"), ("name", .string "list")])],
    deltaPayload 1 "input_json_delta" "partial_json" "\x7b", deltaPayload 0 "text_delta" "text" "hello",
    deltaPayload 1 "input_json_delta" "partial_json" "\x7d", blockPayload 1 "content_block_stop" []]

/-- A text and a call whose pieces take turns. -/
theorem call_gathered : ∃ reply, Reply.empty.read
      (streamEvents ⟨∅, ∅⟩ (startPayload :: (callPayloads ++ stopPayload "tool_use" :: []))) =
        .ok reply ∧ TurnRight 10 callBody "tool_use" 5
      (streamEvents ⟨∅, ∅⟩ (startPayload :: (callPayloads ++ stopPayload "tool_use" :: []))) reply := by
  have hIndex {index : Nat} (hSmall : index < 2) {type : String} {fields : List (String × Value)} :
      u64? (blockPayload index type fields) ["index"] = some index := blockPayload_index hSmall type fields
  have hBody : List.Forall₂ (fun e v => StreamEvent.Says v e) callBody callPayloads :=
    .cons ⟨rfl, hIndex (by decide), rfl⟩ (.cons ⟨⟨rfl, hIndex (by decide), rfl⟩, rfl, rfl⟩
      (.cons ⟨⟨rfl, hIndex (by decide), rfl⟩, rfl⟩ (.cons ⟨⟨rfl, hIndex (by decide), rfl⟩, rfl⟩
        (.cons ⟨⟨rfl, hIndex (by decide), rfl⟩, rfl⟩ (.cons ⟨rfl, hIndex (by decide)⟩ .nil)))))
  have hStarts : WellFormed [.blockStart 0 .text, .blockStart 1 (.toolUse "call_1" "list")] :=
    wellFormed_concat (wellFormed_concat wellFormed_nil fun _ h => by cases h)
      fun _ h => by cases List.mem_singleton.mp h
  have hDelta {seen : List StreamEvent} (h : WellFormed seen) (text : String)
      (hOpen : openBlock 1 seen = some (.toolUse "call_1" "list")) :
      WellFormed (seen ++ [.inputJsonDelta 1 text]) := wellFormed_concat h ⟨_, _, hOpen⟩
  have hText {seen : List StreamEvent} (h : WellFormed seen) (text : String)
      (hOpen : openBlock 0 seen = some .text) : WellFormed (seen ++ [.textDelta 0 text]) :=
    wellFormed_concat h hOpen
  have hWell : WellFormed callBody :=
    wellFormed_concat (hDelta (hText (hDelta hStarts "\x7b" rfl) "hello" rfl) "\x7d" rfl)
      (Option.some_ne_none _)
  refine (turn_right_iff startPayload_says hBody (says_stopPayload "tool_use") hWell []).mpr ⟨?_, ?_⟩
  · intro i id name hStart
    obtain rfl : i = 1 := by
      simp [callBody] at hStart
      exact hStart.1
    exact ⟨"\x7b", by simp [callBody]⟩
  · rw [orderedText, show callBody.filterMap (·.textBlock?) = [0] from rfl, List.mergeSort_singleton]
    rfl

def silentBody : List StreamEvent := [.blockStart 0 (.toolUse "call_1" "list"), .blockStop 0]

def silentStart : Value := blockPayload 0 "content_block_start" [("content_block",
  .object [("type", .string "tool_use"), ("id", .string "call_1"), ("name", .string "list")])]

def silentPayloads : List Value := [silentStart, blockPayload 0 "content_block_stop" []]

/-- A call without arguments, for which the stream has no delta. -/
theorem silent_call_lost : WellFormed silentBody ∧
    List.Forall₂ (fun e v => StreamEvent.Says v e) silentBody silentPayloads ∧
    ¬∃ reply, Reply.empty.read
      (streamEvents ⟨∅, ∅⟩ (startPayload :: (silentPayloads ++ stopPayload "tool_use" :: []))) =
        .ok reply ∧ TurnRight 10 silentBody "tool_use" 5
      (streamEvents ⟨∅, ∅⟩ (startPayload :: (silentPayloads ++ stopPayload "tool_use" :: []))) reply := by
  have hStart : StreamEvent.Says silentStart (.blockStart 0 (.toolUse "call_1" "list")) :=
    ⟨⟨rfl, blockPayload_index (by decide) _ _, rfl⟩, rfl, rfl⟩
  have hStop : StreamEvent.Says (blockPayload 0 "content_block_stop" []) (.blockStop 0) :=
    ⟨rfl, blockPayload_index (by decide) _ _⟩
  refine ⟨wellFormed_concat (wellFormed_concat wellFormed_nil fun _ h => by cases h)
    (Option.some_ne_none _), .cons hStart (.cons hStop .nil), ?_⟩
  rintro ⟨reply, hRead, hRight⟩
  have hCalls : reply.calls = [] := by
    simp only [silentPayloads, List.cons_append, List.nil_append, streamEvents,
      process_messageStart startPayload_says, process_start hStart, process_stop hStop,
      process_messageDelta (says_stopPayload "tool_use")] at hRead
    cases hRead
    rfl
  have hMem := (hRight.calls 0 _).mpr ⟨"call_1", "list", List.mem_cons_self, rfl⟩
  rw [hCalls] at hMem
  cases hMem

end Examples

end Cronymax.Llm
