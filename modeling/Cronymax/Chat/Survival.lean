import Cronymax.Chat.Store

/-! What survives the storage of a chat: a stored chat comes back with the results that its trace holds,
and a migrated one with its prompts, its answers and its tool calls. -/

namespace Cronymax.Chat

open Authority (Value)

inductive Speaker where
  | user
  | assistant
deriving DecidableEq

/-- Who has said what. -/
abbrev Transcript := List (Speaker × String)

/-- A call by its id, its tool and its arguments. -/
abbrev CallRecord := String × String × Value

def ToolCall.record (call : ToolCall) : CallRecord := (call.toolCallId, call.tool, call.args)

/-- The call that a segment is. -/
def callOf : ContentSegment → Option ToolCall
  | .toolCall call => some call
  | _ => none

def calls (stream : List ContentSegment) : List ToolCall := stream.filterMap callOf

def Block.conversation? {C : Type} : Block C → Option C
  | .conversation b => some b
  | _ => none

def conversations {C : Type} (data : PersistedChatData C) : List C :=
  data.blocks.filterMap Block.conversation?

/-- What a block shows of its conversation. -/
def ConversationBlock.said (b : ConversationBlock) : Transcript :=
  [(.user, b.userContent), (.assistant, b.assistantContent)]

def ConversationBlock.calls (b : ConversationBlock) : List ToolCall := Chat.calls (b.contentStream.getD [])

/-- What the data show. -/
def transcript (data : PersistedChatData ConversationBlock) : Transcript :=
  (conversations data).flatMap ConversationBlock.said

/-- The calls that the data show. -/
def allCalls (data : PersistedChatData ConversationBlock) : List ToolCall :=
  (conversations data).flatMap ConversationBlock.calls

/-- Data of an older version. -/
inductive Legacy where
  | v1 (messages : List OldMessage)
  | v2 (data : PersistedChatData V2Block)
  | v3 (data : PersistedChatData ConversationBlock)

namespace Legacy

/-- The storage with these data alone. -/
def storage : Legacy → Storage
  | .v1 messages => ⟨none, none, none, some messages⟩
  | .v2 data => ⟨none, none, some data, none⟩
  | .v3 data => ⟨none, some data, none, none⟩

def saidBy (m : OldMessage) : Transcript :=
  if m.role = "user" then [(.user, m.content)]
  else if m.role = "assistant" then [(.assistant, m.content)]
  else []

/-- What the data show that are stored. -/
def transcript : Legacy → Transcript
  | .v1 messages => messages.flatMap saidBy
  | .v2 data => (conversations data).flatMap fun b =>
      [(.user, b.userContent), (.assistant, b.assistantContent)]
  | .v3 data => Chat.transcript data

def startOf : TraceEntry → Option CallRecord
  | .toolStart toolCallId tool args _ => some (toolCallId, tool, args)
  | _ => none

/-- The calls that a stream or a trace records. -/
def recordedIn (stream : Option (List ContentSegment)) (entries : List TraceEntry) : List CallRecord :=
  match stream with
  | some stream => (calls stream).map ToolCall.record
  | none => entries.filterMap startOf

/-- The calls that are stored. -/
def recorded : Legacy → List CallRecord
  | .v1 _ => []
  | .v2 data => (conversations data).flatMap fun b => recordedIn b.contentStream []
  | .v3 data => (conversations data).flatMap fun b => recordedIn b.contentStream b.traceEntries

end Legacy

/-- An older chat is loaded with all its prompts and answers in their order and each recorded call once,
and so it is when it is loaded again. -/
structure Survives (old : Legacy) (source source' : Source) (canWrite canWrite' : Bool) : Prop where
  said : old.transcript.Sublist (transcript (loadChatData source canWrite old.storage).1.data)
  recorded : (allCalls (loadChatData source canWrite old.storage).1.data).map ToolCall.record = old.recorded
  again :
    let first := loadChatData source canWrite old.storage
    let second := loadChatData source' canWrite' first.2
    transcript second.1.data = transcript first.1.data ∧ allCalls second.1.data = allCalls first.1.data

def ContentSegment.settled : ContentSegment → ContentSegment
  | .toolCall call => .toolCall { call with result := some (call.result.getD .null) }
  | segment => segment

/-- The block as it is written. -/
def Block.bare : Block ConversationBlock → Block ConversationBlock
  | .shell b => .shell { b with rawBuf := "" }
  | .conversation b =>
    .conversation { b with contentStream := b.contentStream.map (·.map ContentSegment.settled) }
  | .other rest => .other rest

/-- The same chat, but for the raw buffers of shells. -/
structure SameChat (d d' : PersistedChatData ConversationBlock) : Prop where
  blocks : d.blocks.map Block.bare = d'.blocks.map Block.bare
  terminalTid : d.terminalTid = d'.terminalTid
  model : d.model = d'.model
  agentId : d.agentId = d'.agentId

/-- The trace holds the result of each call. -/
def Recorded (b : ConversationBlock) : Prop :=
  ∃ stream, b.contentStream = some stream ∧ ∀ call ∈ calls stream,
    call.result.getD .null = (resultFor b.traceEntries call.toolCallId).getD .null

theorem map_map {C D E : Type} (f : C → D) (g : D → E) (data : PersistedChatData C) :
    (data.map f).map g = data.map (g ∘ f) := by
  unfold PersistedChatData.map
  rw [List.map_map]
  refine congrArg (fun blocks => PersistedChatData.mk blocks _ _ _) (List.map_congr_left fun b _ => ?_)
  cases b <;> rfl

theorem settled_rehydrate (entries : List TraceEntry) (segment : ContentSegment) :
    (rehydrateSegment entries (stripSegment segment)).settled = segment.settled ↔
      ∀ call ∈ callOf segment,
        call.result.getD .null = (resultFor entries call.toolCallId).getD .null := by
  cases segment with
  | text content => exact iff_of_true rfl fun _ h => by cases h
  | thinking content sealed elapsedMs => exact iff_of_true rfl fun _ h => by cases h
  | toolCall call =>
    have hLoaded : (rehydrateSegment entries (stripSegment (.toolCall call))).settled =
        .toolCall { call with result := some ((resultFor entries call.toolCallId).getD .null) } := by
      cases hResult : resultFor entries call.toolCallId <;>
        simp only [rehydrateSegment, stripSegment, hResult] <;> rfl
    rw [hLoaded]
    constructor
    · intro hSame c hc
      cases hc
      exact (Option.some.inj (congrArg ToolCall.result (ContentSegment.toolCall.inj hSame))).symm
    · intro h
      rw [← h call rfl]
      rfl

theorem mem_calls {stream : List ContentSegment} {call : ToolCall} :
    call ∈ calls stream ↔ ∃ segment ∈ stream, call ∈ callOf segment := List.mem_filterMap

/-- The stream of a block that has been migrated and loaded. -/
def loadedStream (b : ConversationBlock) : List ContentSegment :=
  (b.contentStream.getD []).map fun segment => rehydrateSegment b.traceEntries (stripSegment segment)

theorem loaded_conversation (b : ConversationBlock) :
    Block.map rehydrateBlock (safeBlock (.conversation b)) =
      .conversation { b with contentStream := some (loadedStream b) } := by
  show Block.conversation { b with contentStream := some (((b.contentStream.getD []).map stripSegment).map
    (rehydrateSegment b.traceEntries)) } = _
  rw [List.map_map]
  rfl

theorem settled_iff {b : ConversationBlock} {stream : List ContentSegment}
    (hStream : b.contentStream = some stream) :
    (loadedStream b).map ContentSegment.settled = stream.map ContentSegment.settled ↔
      ∀ call ∈ calls stream,
        call.result.getD .null = (resultFor b.traceEntries call.toolCallId).getD .null := by
  unfold loadedStream
  rw [hStream, Option.getD_some, List.map_map, List.map_inj_left]
  constructor
  · intro hSettled call hCall
    obtain ⟨segment, hSegment, hCallOf⟩ := mem_calls.mp hCall
    exact (settled_rehydrate b.traceEntries segment).mp (hSettled segment hSegment) call hCallOf
  · intro hAll segment hSegment
    exact (settled_rehydrate b.traceEntries segment).mpr fun call hCall =>
      hAll call (mem_calls.mpr ⟨segment, hSegment, hCall⟩)

theorem bare_conversation (b : ConversationBlock) :
    Block.bare (Block.map rehydrateBlock (safeBlock (.conversation b))) = Block.bare (.conversation b) ↔
      Recorded b := by
  rw [loaded_conversation]
  constructor
  · intro hSame
    have hStreams : some ((loadedStream b).map ContentSegment.settled) =
        b.contentStream.map (·.map ContentSegment.settled) :=
      congrArg ConversationBlock.contentStream (Block.conversation.inj hSame)
    obtain ⟨stream, hStream, hSettled⟩ := Option.map_eq_some_iff.mp hStreams.symm
    exact ⟨stream, hStream, (settled_iff hStream).mp hSettled.symm⟩
  · rintro ⟨stream, hStream, hAll⟩
    have hStreams : some ((loadedStream b).map ContentSegment.settled) =
        b.contentStream.map (·.map ContentSegment.settled) := by
      rw [(settled_iff hStream).mpr hAll, hStream, Option.map_some]
    exact congrArg (fun stream => Block.conversation { b with contentStream := stream }) hStreams

theorem bare_block (b : Block ConversationBlock) :
    Block.bare (Block.map rehydrateBlock (safeBlock b)) = Block.bare b ↔
      ∀ c ∈ b.conversation?, Recorded c := by
  cases b with
  | conversation b =>
    rw [bare_conversation]
    exact ⟨fun h c hc => Option.some.inj hc ▸ h, fun h => h b rfl⟩
  | shell b => exact iff_of_true rfl fun _ h => by cases h
  | other rest => exact iff_of_true rfl fun _ h => by cases h

theorem stored_iff (source : Source) (canWrite : Bool) (data : PersistedChatData ConversationBlock)
    (s : Storage) :
    SameChat (loadChatData source canWrite (persistChatData true data s)).1.data data ↔
      ∀ b ∈ conversations data, Recorded b := by
  have hBlocks : (loadChatData source canWrite (persistChatData true data s)).1.data.blocks =
      (data.blocks.map safeBlock).map (Block.map rehydrateBlock) := rfl
  constructor
  · intro hSame b hb
    have hAll := hSame.blocks
    rw [hBlocks, List.map_map, List.map_map, List.map_inj_left] at hAll
    obtain ⟨block, hBlock, hConversation⟩ := List.mem_filterMap.mp hb
    exact (bare_block block).mp (hAll block hBlock) b hConversation
  · intro hAll
    refine ⟨?_, rfl, rfl, rfl⟩
    rw [hBlocks, List.map_map, List.map_map, List.map_inj_left]
    exact fun block hBlock => (bare_block block).mpr fun b hb =>
      hAll b (List.mem_filterMap.mpr ⟨block, hBlock, hb⟩)

theorem conversations_map {C D : Type} (f : C → D) (data : PersistedChatData C) :
    conversations (data.map f) = (conversations data).map f := by
  show (data.blocks.map (Block.map f)).filterMap Block.conversation? = _
  unfold conversations
  rw [List.filterMap_map, List.map_filterMap]
  refine List.filterMap_congr fun b _ => ?_
  cases b <;> rfl

def migrated (b : ConversationBlock) : ConversationBlock := rehydrateBlock (migrateBlock b)

theorem rehydrate_migrate (data : PersistedChatData ConversationBlock) :
    rehydrate (migrateV3ToV4 data) = data.map migrated := map_map migrateBlock rehydrateBlock data

theorem migrated_said (b : ConversationBlock) : (migrated b).said = b.said := by
  unfold migrated migrateBlock
  cases hStream : b.contentStream with
  | none => rfl
  | some stream =>
    show (rehydrateBlock b).said = _
    unfold rehydrateBlock
    rw [hStream]
    rfl

theorem record_rehydrate (entries : List TraceEntry) (segment : ContentSegment) :
    (callOf (rehydrateSegment entries segment)).map ToolCall.record =
      (callOf segment).map ToolCall.record := by
  cases segment with
  | text content => rfl
  | thinking content sealed elapsedMs => rfl
  | toolCall call =>
    unfold rehydrateSegment
    dsimp only
    split
    · split <;> rfl
    · rfl

theorem records_eq (stream : List ContentSegment) :
    (calls stream).map ToolCall.record = stream.filterMap fun s => (callOf s).map ToolCall.record := by
  unfold calls
  rw [List.map_filterMap]

theorem records_rehydrate (entries : List TraceEntry) (stream : List ContentSegment) :
    (calls (rehydrateContentStream stream entries)).map ToolCall.record =
      (calls stream).map ToolCall.record := by
  rw [records_eq, records_eq]
  unfold rehydrateContentStream
  rw [List.filterMap_map]
  exact List.filterMap_congr fun segment _ => record_rehydrate entries segment

theorem records_segments (entries all : List TraceEntry) :
    (calls (entries.flatMap (segmentOf all))).map ToolCall.record = entries.filterMap Legacy.startOf := by
  induction entries with
  | nil => rfl
  | cons entry rest ih =>
    have hSplit : calls ((entry :: rest).flatMap (segmentOf all)) =
        calls (segmentOf all entry) ++ calls (rest.flatMap (segmentOf all)) := by
      unfold calls
      rw [List.flatMap_cons, List.filterMap_append]
    rw [hSplit, List.map_append, ih]
    cases entry with
    | assistantTurn text rest =>
      show (calls (if text = "" then [] else [.text text])).map _ ++ _ = _
      split <;> rfl
    | toolStart toolCallId tool args rest => rfl
    | toolDone toolCallId result rest => rfl
    | other rest => rfl

theorem calls_textStream (content : String) : calls (textStream content) = [] := by
  unfold textStream
  split <;> rfl

theorem records_reconstruct (b : ConversationBlock) :
    (calls (reconstructContentStream b)).map ToolCall.record = b.traceEntries.filterMap Legacy.startOf := by
  unfold reconstructContentStream
  split
  · show (calls (if 0 < (b.traceEntries.flatMap (segmentOf b.traceEntries)).length then _ else _)).map _ = _
    split
    · exact records_segments b.traceEntries b.traceEntries
    · rename_i hEmpty
      have hNone := List.length_eq_zero_iff.mp (Nat.le_zero.mp (Nat.not_lt.mp hEmpty))
      rw [calls_textStream, ← records_segments b.traceEntries b.traceEntries, hNone]
      rfl
  · rename_i hUseless
    rw [calls_textStream]
    refine (List.filterMap_eq_nil_iff.mpr fun entry hEntry => ?_).symm
    cases entry with
    | toolStart toolCallId tool args rest =>
      exact absurd (List.any_eq_true.mpr ⟨_, hEntry, rfl⟩) hUseless
    | assistantTurn | toolDone | other => rfl

theorem migrated_calls (b : ConversationBlock) :
    (migrated b).calls.map ToolCall.record = Legacy.recordedIn b.contentStream b.traceEntries := by
  unfold migrated migrateBlock
  cases hStream : b.contentStream with
  | none => exact (records_rehydrate _ _).trans (records_reconstruct b)
  | some stream =>
    show (rehydrateBlock b).calls.map _ = _
    unfold rehydrateBlock
    rw [hStream]
    exact records_rehydrate _ _

theorem migrated_transcript (data : PersistedChatData ConversationBlock) :
    transcript (data.map migrated) = transcript data := by
  unfold transcript
  rw [conversations_map, List.flatMap_map]
  exact congrArg (fun f => (conversations data).flatMap f) (funext migrated_said)

theorem migrated_recorded (data : PersistedChatData ConversationBlock) :
    (allCalls (data.map migrated)).map ToolCall.record =
      (conversations data).flatMap fun b => Legacy.recordedIn b.contentStream b.traceEntries := by
  unfold allCalls
  rw [conversations_map, List.flatMap_map, List.map_flatMap]
  exact congrArg (fun f => (conversations data).flatMap f) (funext migrated_calls)

/-- Questions and answers take turns. -/
def Alternates : Bool → List OldMessage → Prop
  | pending, [] => pending = false
  | pending, m :: rest =>
    if m.role = "user" then pending = false ∧ Alternates true rest
    else if m.role = "assistant" then pending = true ∧ Alternates false rest
    else Alternates pending rest

section pairing

variable {source source' : Source} {pending : Option String} {m : OldMessage} {messages : List OldMessage}

theorem pair_none (i : Nat) :
    pairMessages source none i (m :: messages) =
      if m.role = "user" then pairMessages source (some m.content) i messages
      else pairMessages source none i messages := rfl

theorem pair_some (prompt : String) (i : Nat) :
    pairMessages source (some prompt) i (m :: messages) =
      if m.role = "user" then pairMessages source (some m.content) i messages
      else if m.role = "assistant" then
        newBlock source i prompt m :: pairMessages source none (i + 1) messages
      else pairMessages source (some prompt) i messages := rfl

theorem pair_user (h : m.role = "user") (i : Nat) :
    pairMessages source pending i (m :: messages) = pairMessages source (some m.content) i messages := by
  cases pending with
  | none => rw [pair_none, if_pos h]
  | some prompt => rw [pair_some, if_pos h]

theorem ne_user (h : m.role = "assistant") : m.role ≠ "user" := by
  rw [h]
  decide

theorem pair_answer (h : m.role = "assistant") (prompt : String) (i : Nat) :
    pairMessages source (some prompt) i (m :: messages) =
      newBlock source i prompt m :: pairMessages source none (i + 1) messages := by
  rw [pair_some, if_neg (ne_user h), if_pos h]

theorem pair_lost (h : m.role = "assistant") (i : Nat) :
    pairMessages source none i (m :: messages) = pairMessages source none i messages := by
  rw [pair_none, if_neg (ne_user h)]

theorem pair_other (hUser : m.role ≠ "user") (hAssistant : m.role ≠ "assistant") (i : Nat) :
    pairMessages source pending i (m :: messages) = pairMessages source pending i messages := by
  cases pending with
  | none => rw [pair_none, if_neg hUser]
  | some prompt => rw [pair_some, if_neg hUser, if_neg hAssistant]

theorem saidBy_user (h : m.role = "user") : Legacy.saidBy m = [(.user, m.content)] := if_pos h

theorem saidBy_assistant (h : m.role = "assistant") :
    Legacy.saidBy m = [(.assistant, m.content)] := by
  unfold Legacy.saidBy
  rw [if_neg (ne_user h), if_pos h]

theorem saidBy_other (hUser : m.role ≠ "user") (hAssistant : m.role ≠ "assistant") :
    Legacy.saidBy m = [] := by
  unfold Legacy.saidBy
  rw [if_neg hUser, if_neg hAssistant]

/-- What pairing begins with. -/
def heard (pending : Option String) (messages : List OldMessage) : Transcript :=
  pending.toList.map (.user, ·) ++ messages.flatMap Legacy.saidBy

/-- What pairing shows. -/
def paired (source : Source) (pending : Option String) (i : Nat) (messages : List OldMessage) :
    Transcript := (pairMessages source pending i messages).flatMap ConversationBlock.said

theorem heard_cons (pending : Option String) (m : OldMessage) (messages : List OldMessage) :
    heard pending (m :: messages) =
      pending.toList.map (.user, ·) ++ (Legacy.saidBy m ++ messages.flatMap Legacy.saidBy) := rfl

theorem paired_sublist (source : Source) (messages : List OldMessage) :
    ∀ (pending : Option String) (i : Nat),
      (paired source pending i messages).Sublist (heard pending messages) := by
  induction messages with
  | nil => exact fun pending i => List.nil_sublist _
  | cons m messages ih =>
    intro pending i
    unfold paired
    rw [heard_cons]
    by_cases hUser : m.role = "user"
    · rw [pair_user hUser, saidBy_user hUser]
      exact (ih (some m.content) i).trans (List.sublist_append_right _ _)
    by_cases hAssistant : m.role = "assistant"
    · rw [saidBy_assistant hAssistant]
      cases pending with
      | none =>
        rw [pair_lost hAssistant]
        exact (ih none i).trans (List.sublist_append_right _ _)
      | some prompt =>
        rw [pair_answer hAssistant]
        exact ((ih none (i + 1)).cons_cons _).cons_cons _
    · rw [pair_other hUser hAssistant, saidBy_other hUser hAssistant]
      exact ih pending i

theorem paired_length (source : Source) (messages : List OldMessage) (pending : Option String) (i : Nat) :
    (paired source pending i messages).length ≤ (heard pending messages).length :=
  (paired_sublist source messages pending i).length_le

theorem paired_iff (source : Source) (messages : List OldMessage) :
    ∀ (pending : Option String) (i : Nat),
      paired source pending i messages = heard pending messages ↔
        Alternates pending.isSome messages := by
  induction messages with
  | nil =>
    intro pending i
    cases pending with
    | none => exact iff_of_true rfl rfl
    | some prompt => exact iff_of_false (fun h => by cases h) fun h => by cases h
  | cons m messages ih =>
    intro pending i
    by_cases hUser : m.role = "user"
    · have hAlternates : Alternates pending.isSome (m :: messages) ↔
          pending.isSome = false ∧ Alternates true messages := by
        rw [Alternates, if_pos hUser]
      rw [hAlternates, heard_cons, saidBy_user hUser]
      unfold paired
      rw [pair_user hUser]
      cases pending with
      | none => exact (ih (some m.content) i).trans ⟨fun h => ⟨rfl, h⟩, fun h => h.2⟩
      | some prompt =>
        refine iff_of_false (fun hSame => ?_) fun h => by cases h.1
        have hLength := paired_length source messages (some m.content) i
        unfold paired at hLength
        rw [hSame] at hLength
        exact absurd hLength (Nat.not_succ_le_self _)
    by_cases hAssistant : m.role = "assistant"
    · have hAlternates : Alternates pending.isSome (m :: messages) ↔
          pending.isSome = true ∧ Alternates false messages := by
        rw [Alternates, if_neg hUser, if_pos hAssistant]
      rw [hAlternates, heard_cons, saidBy_assistant hAssistant]
      unfold paired
      cases pending with
      | none =>
        rw [pair_lost hAssistant]
        refine iff_of_false (fun hSame => ?_) fun h => by cases h.1
        have hLength := paired_length source messages none i
        unfold paired at hLength
        rw [hSame] at hLength
        exact absurd hLength (Nat.not_succ_le_self _)
      | some prompt =>
        rw [pair_answer hAssistant]
        refine Iff.trans ⟨fun h => ?_, fun h => ?_⟩ ((ih none (i + 1)).trans ⟨fun h => ⟨rfl, h⟩, fun h => h.2⟩)
        · exact (List.cons.inj (List.cons.inj h).2).2
        · exact congrArg (fun l => (Speaker.user, prompt) :: (Speaker.assistant, m.content) :: l) h
    · have hAlternates : Alternates pending.isSome (m :: messages) ↔
          Alternates pending.isSome messages := by
        rw [Alternates, if_neg hUser, if_neg hAssistant]
      rw [hAlternates, heard_cons, saidBy_other hUser hAssistant]
      unfold paired
      rw [pair_other hUser hAssistant]
      exact ih pending i

theorem paired_source (source source' : Source) (messages : List OldMessage) :
    ∀ (pending : Option String) (i j : Nat),
      paired source pending i messages = paired source' pending j messages := by
  induction messages with
  | nil => exact fun _ _ _ => rfl
  | cons m messages ih =>
    intro pending i j
    unfold paired
    by_cases hUser : m.role = "user"
    · rw [pair_user hUser, pair_user hUser]
      exact ih (some m.content) i j
    by_cases hAssistant : m.role = "assistant"
    · cases pending with
      | none =>
        rw [pair_lost hAssistant, pair_lost hAssistant]
        exact ih none i j
      | some prompt =>
        rw [pair_answer hAssistant, pair_answer hAssistant, List.flatMap_cons, List.flatMap_cons]
        exact congrArg _ (ih none (i + 1) (j + 1))
    · rw [pair_other hUser hAssistant, pair_other hUser hAssistant]
      exact ih pending i j

theorem paired_calls (source : Source) (messages : List OldMessage) :
    ∀ (pending : Option String) (i : Nat), ∀ b ∈ pairMessages source pending i messages, b.calls = [] := by
  induction messages with
  | nil => exact fun _ _ b hb => by cases hb
  | cons m messages ih =>
    intro pending i b hb
    by_cases hUser : m.role = "user"
    · rw [pair_user hUser] at hb
      exact ih _ _ b hb
    by_cases hAssistant : m.role = "assistant"
    · cases pending with
      | none =>
        rw [pair_lost hAssistant] at hb
        exact ih _ _ b hb
      | some prompt =>
        rw [pair_answer hAssistant] at hb
        rcases List.mem_cons.mp hb with rfl | hb
        · exact calls_textStream m.content
        · exact ih _ _ b hb
    · rw [pair_other hUser hAssistant] at hb
      exact ih _ _ b hb

end pairing

/-- Migration loses nothing of these data. -/
def Safe (canWrite : Bool) : Legacy → Prop
  | .v1 messages => Alternates false messages
  | .v2 data => canWrite = true ∨ conversations data = []
  | .v3 _ => True

theorem survives_v3 (data : PersistedChatData ConversationBlock) (source source' : Source)
    (canWrite canWrite' : Bool) : Survives (.v3 data) source source' canWrite canWrite' := by
  have hFirst : (loadChatData source canWrite (Legacy.v3 data).storage).1.data = data.map migrated :=
    rehydrate_migrate data
  have hSecond : (loadChatData source' canWrite'
      (loadChatData source canWrite (Legacy.v3 data).storage).2).1.data = data.map migrated := by
    cases canWrite with
    | true => exact rehydrate_migrate data
    | false => exact rehydrate_migrate data
  refine ⟨?_, ?_, ?_⟩
  · rw [hFirst, migrated_transcript]
    exact List.Sublist.refl _
  · rw [hFirst, migrated_recorded]
    rfl
  · dsimp only
    rw [hFirst, hSecond]
    exact ⟨rfl, rfl⟩

theorem transcript_v2 (data : PersistedChatData V2Block) :
    transcript (data.map fromV2Block) = (Legacy.v2 data).transcript := by
  unfold transcript
  rw [conversations_map, List.flatMap_map]
  rfl

theorem recorded_v2 (data : PersistedChatData V2Block) :
    ((conversations (data.map fromV2Block)).flatMap fun b =>
      Legacy.recordedIn b.contentStream b.traceEntries) = (Legacy.v2 data).recorded := by
  rw [conversations_map, List.flatMap_map]
  rfl

theorem survives_v2_written (data : PersistedChatData V2Block) (source source' : Source)
    (canWrite' : Bool) : Survives (.v2 data) source source' true canWrite' := by
  have hFirst : (loadChatData source true (Legacy.v2 data).storage).1.data =
      (data.map fromV2Block).map migrated := rehydrate_migrate (data.map fromV2Block)
  have hSecond : (loadChatData source' canWrite'
      (loadChatData source true (Legacy.v2 data).storage).2).1.data =
        (data.map fromV2Block).map migrated := rehydrate_migrate (data.map fromV2Block)
  refine ⟨?_, ?_, ?_⟩
  · rw [hFirst, migrated_transcript, transcript_v2]
  · rw [hFirst, migrated_recorded, recorded_v2]
  · dsimp only
    rw [hFirst, hSecond]
    exact ⟨rfl, rfl⟩

theorem conversations_none {data : PersistedChatData V2Block} (h : (Legacy.v2 data).transcript = []) :
    conversations data = [] := by
  have hEach := List.flatMap_eq_nil_iff.mp h
  cases hAll : conversations data with
  | nil => rfl
  | cons b rest => cases hEach b (hAll ▸ List.mem_cons_self)

theorem survives_v2_unwritten (data : PersistedChatData V2Block) (source source' : Source)
    (canWrite' : Bool) :
    Survives (.v2 data) source source' false canWrite' ↔ conversations data = [] := by
  have hFirst : (loadChatData source false (Legacy.v2 data).storage).1.data = noData := rfl
  constructor
  · intro h
    have hSaid := h.said
    rw [hFirst] at hSaid
    exact conversations_none (List.sublist_nil.mp hSaid)
  · intro hNone
    have hSecond : transcript (loadChatData source' canWrite' (Legacy.v2 data).storage).1.data = [] ∧
        allCalls (loadChatData source' canWrite' (Legacy.v2 data).storage).1.data = [] := by
      cases canWrite' with
      | false => exact ⟨rfl, rfl⟩
      | true =>
        have hLoaded : (loadChatData source' true (Legacy.v2 data).storage).1.data =
            (data.map fromV2Block).map migrated := rehydrate_migrate (data.map fromV2Block)
        unfold transcript allCalls
        rw [hLoaded, conversations_map, conversations_map, hNone]
        exact ⟨rfl, rfl⟩
    refine ⟨?_, ?_, ?_⟩
    · show ((conversations data).flatMap _).Sublist _
      rw [hNone]
      exact List.nil_sublist _
    · show [] = (conversations data).flatMap _
      rw [hNone]
      rfl
    · exact hSecond

theorem conversations_v1 (source : Source) (canWrite : Bool) (messages : List OldMessage) :
    conversations (loadChatData source canWrite (Legacy.v1 messages).storage).1.data =
      pairMessages source none 0 messages := by
  show ((pairMessages source none 0 messages).map Block.conversation).filterMap _ = _
  rw [List.filterMap_map]
  exact List.filterMap_some

theorem transcript_v1 (source : Source) (canWrite : Bool) (messages : List OldMessage) :
    transcript (loadChatData source canWrite (Legacy.v1 messages).storage).1.data =
      paired source none 0 messages := by
  unfold transcript
  rw [conversations_v1]
  rfl

theorem calls_v1 (source : Source) (canWrite : Bool) (messages : List OldMessage) :
    allCalls (loadChatData source canWrite (Legacy.v1 messages).storage).1.data = [] := by
  unfold allCalls
  rw [conversations_v1]
  exact List.flatMap_eq_nil_iff.mpr fun b hb => paired_calls source messages none 0 b hb

theorem survives_v1 (messages : List OldMessage) (source source' : Source) (canWrite canWrite' : Bool) :
    Survives (.v1 messages) source source' canWrite canWrite' ↔ Alternates false messages := by
  have hIff : paired source none 0 messages = messages.flatMap Legacy.saidBy ↔ Alternates false messages :=
    paired_iff source messages none 0
  constructor
  · intro h
    have hSaid := h.said
    rw [transcript_v1] at hSaid
    exact hIff.mp ((paired_sublist source messages none 0).antisymm hSaid)
  · intro hAlternates
    refine ⟨?_, ?_, ?_⟩
    · rw [transcript_v1, hIff.mpr hAlternates]
      exact List.Sublist.refl _
    · rw [calls_v1]
      rfl
    · show transcript (loadChatData source' canWrite' (Legacy.v1 messages).storage).1.data = _ ∧
        allCalls (loadChatData source' canWrite' (Legacy.v1 messages).storage).1.data = _
      rw [transcript_v1, transcript_v1, calls_v1, calls_v1]
      exact ⟨paired_source source' source messages none 0 0, rfl⟩

/-- A chat comes back as it was stored exactly if its traces hold the results of its calls, and an older one
survives exactly if it is safe. -/
theorem history_survives_iff (source source' : Source) (canWrite canWrite' : Bool) :
    (∀ data s, SameChat (loadChatData source canWrite (persistChatData true data s)).1.data data ↔
      ∀ b ∈ conversations data, Recorded b) ∧
    ∀ old, Survives old source source' canWrite canWrite' ↔ Safe canWrite old := by
  refine ⟨fun data s => stored_iff source canWrite data s, fun old => ?_⟩
  cases old with
  | v1 messages => exact survives_v1 messages source source' canWrite canWrite'
  | v2 data =>
    cases canWrite with
    | true => exact iff_of_true (survives_v2_written data source source' canWrite') (Or.inl rfl)
    | false =>
      refine (survives_v2_unwritten data source source' canWrite').trans
        ⟨Or.inr, fun hSafe => hSafe.resolve_left Bool.false_ne_true⟩
  | v3 data => exact iff_of_true (survives_v3 data source source' canWrite canWrite') trivial

section full

def haiku : PersistedChatData V2Block where
  blocks := [.conversation
    { id := "b1", userContent := "Write a haiku", contentStream := none, assistantContent := "An old pond"
      agentName := none, createdAt := 0, traceContent := .null, thinkingText := none
      thinkingSealed := none, thinkingStartedAt := none, thinkingElapsedMs := none, rest := .null }]
  terminalTid := none
  model := ""
  agentId := none

def sameIds : Source := ⟨fun _ => "id", 0, .null⟩

/-- The quota is exceeded when the chat is migrated, and the panel shows no history. -/
theorem haiku_lost :
    conversations (loadChatData sameIds false (Legacy.v2 haiku).storage).1.data = [] ∧
      ¬ Survives (.v2 haiku) sameIds sameIds false true := by
  refine ⟨rfl, fun h => ?_⟩
  have hNone := (survives_v2_unwritten haiku sameIds sameIds true).mp h
  cases hNone

end full

end Cronymax.Chat
