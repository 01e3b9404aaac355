import Cronymax.Authority.State

/-! The history of a chat in the local storage of the panel.  It is stored in one of four formats, and what
is loaded in an older one is migrated to the newest.  A write fails when the quota is exceeded. -/

namespace Cronymax.Chat

open Authority (Value)

inductive ToolStatus where
  | running
  | done
  | error
deriving DecidableEq

structure ToolCall where
  toolCallId : String
  tool : String
  args : Value
  status : ToolStatus
  result : Option Value
  durationMs : Option Int

/-- `ContentSegment`. -/
inductive ContentSegment where
  | text (content : String)
  | toolCall (call : ToolCall)
  | thinking (content : String) (sealed : Bool) (elapsedMs : Int)

/-- `TraceEntry`. -/
inductive TraceEntry where
  | assistantTurn (text : String) (rest : Value)
  | toolStart (toolCallId tool : String) (args rest : Value)
  | toolDone (toolCallId : String) (result : Option Value) (rest : Value)
  | other (rest : Value)

/-- `ConversationBlock`. -/
structure ConversationBlock where
  id : String
  userContent : String
  /-- Undefined before the fourth format. -/
  contentStream : Option (List ContentSegment)
  assistantContent : String
  agentName : Option String
  traceEntries : List TraceEntry
  createdAt : Int
  thinkingText : String
  thinkingSealed : Bool
  thinkingStartedAt : Option Int
  thinkingElapsedMs : Int
  rest : Value

/-- A conversation in the second format. -/
structure V2Block where
  id : String
  userContent : String
  contentStream : Option (List ContentSegment)
  assistantContent : String
  agentName : Option String
  createdAt : Int
  traceContent : Value
  thinkingText : Option String
  thinkingSealed : Option Bool
  thinkingStartedAt : Option Int
  thinkingElapsedMs : Option Int
  rest : Value

structure ShellBlock where
  id : String
  command : String
  output : String
  rawBuf : String
  rest : Value

inductive Block (C : Type) where
  | conversation (block : C)
  | shell (block : ShellBlock)
  | other (rest : Value)

/-- `PersistedChatData`, of any version of the blocks. -/
structure PersistedChatData (C : Type) where
  blocks : List (Block C)
  terminalTid : Option String
  model : String
  agentId : Option String

/-- A message of the first format. -/
structure OldMessage where
  role : String
  content : String
  agentName : Option String

/-- The keys of a chat. -/
structure Storage where
  v4 : Option (PersistedChatData ConversationBlock)
  v3 : Option (PersistedChatData ConversationBlock)
  v2 : Option (PersistedChatData V2Block)
  v1 : Option (List OldMessage)

def Block.map {C D : Type} (f : C → D) : Block C → Block D
  | .conversation b => .conversation (f b)
  | .shell b => .shell b
  | .other rest => .other rest

def PersistedChatData.map {C D : Type} (f : C → D) (data : PersistedChatData C) : PersistedChatData D :=
  { blocks := data.blocks.map (Block.map f)
    terminalTid := data.terminalTid
    model := data.model
    agentId := data.agentId }

/-- The result of a call, by the last entry that ends it. -/
def resultFor (entries : List TraceEntry) (toolCallId : String) : Option Value :=
  entries.foldl (fun found entry =>
    match entry with
    | .toolDone id result _ => if id = toolCallId then result else found
    | _ => found) none

def isNullish : Option Value → Bool
  | none => true
  | some .null => true
  | some _ => false

def stripSegment : ContentSegment → ContentSegment
  | .toolCall call => .toolCall { call with result := some .null }
  | segment => segment

/-- `stripContentStreamResults`. -/
def stripContentStreamResults (stream : List ContentSegment) : List ContentSegment :=
  stream.map stripSegment

/-- A call gets its result back from the trace. -/
def rehydrateSegment (entries : List TraceEntry) : ContentSegment → ContentSegment
  | .toolCall call =>
    if isNullish call.result then
      match resultFor entries call.toolCallId with
      | some result => .toolCall { call with result := some result }
      | none => .toolCall call
    else .toolCall call
  | segment => segment

/-- `rehydrateContentStream`. -/
def rehydrateContentStream (stream : List ContentSegment) (entries : List TraceEntry) :
    List ContentSegment :=
  stream.map (rehydrateSegment entries)

def isUseful : TraceEntry → Bool
  | .assistantTurn _ _ => true
  | .toolStart _ _ _ _ => true
  | _ => false

/-- The segments that a trace entry becomes. -/
def segmentOf (entries : List TraceEntry) : TraceEntry → List ContentSegment
  | .assistantTurn text _ => if text = "" then [] else [.text text]
  | .toolStart toolCallId tool args _ =>
    [.toolCall
      { toolCallId, tool, args, status := .done
        result := some ((resultFor entries toolCallId).getD .null)
        durationMs := none }]
  | _ => []

def textStream (content : String) : List ContentSegment :=
  if content = "" then [] else [.text content]

/-- `reconstructContentStream`: the content stands for a trace that is of no use. -/
def reconstructContentStream (block : ConversationBlock) : List ContentSegment :=
  if block.traceEntries.any isUseful then
    let stream := block.traceEntries.flatMap (segmentOf block.traceEntries)
    if 0 < stream.length then stream else textStream block.assistantContent
  else textStream block.assistantContent

/-- A block of version 3: a stream that it has is kept. -/
def migrateBlock (block : ConversationBlock) : ConversationBlock :=
  match block.contentStream with
  | some _ => block
  | none => { block with contentStream := some (reconstructContentStream block) }

/-- `migrateV3ToV4`. -/
def migrateV3ToV4 (data : PersistedChatData ConversationBlock) : PersistedChatData ConversationBlock :=
  data.map migrateBlock

def fromV2Block (block : V2Block) : ConversationBlock where
  id := block.id
  userContent := block.userContent
  contentStream := block.contentStream
  assistantContent := block.assistantContent
  agentName := block.agentName
  traceEntries := []
  createdAt := block.createdAt
  thinkingText := block.thinkingText.getD ""
  thinkingSealed := block.thinkingSealed.getD false
  thinkingStartedAt := block.thinkingStartedAt
  thinkingElapsedMs := block.thinkingElapsedMs.getD 0
  rest := block.rest

def rehydrateBlock (block : ConversationBlock) : ConversationBlock :=
  match block.contentStream with
  | some stream => { block with contentStream := some (rehydrateContentStream stream block.traceEntries) }
  | none => block

def rehydrate (data : PersistedChatData ConversationBlock) : PersistedChatData ConversationBlock :=
  data.map rehydrateBlock

structure Source where
  randomUUID : Nat → String
  now : Int
  rest : Value

def newBlock (source : Source) (index : Nat) (userContent : String) (m : OldMessage) : ConversationBlock where
  id := source.randomUUID index
  userContent := userContent
  contentStream := some (textStream m.content)
  assistantContent := m.content
  agentName := m.agentName
  traceEntries := []
  createdAt := source.now
  thinkingText := ""
  thinkingSealed := false
  thinkingStartedAt := none
  thinkingElapsedMs := 0
  rest := source.rest

/-- The messages of version 1 in pairs: a user's and the answer to it. -/
def pairMessages (source : Source) (pendingUser : Option String) (index : Nat) :
    List OldMessage → List ConversationBlock
  | [] => []
  | m :: rest =>
    if m.role = "user" then pairMessages source (some m.content) index rest
    else
      match pendingUser with
      | none => pairMessages source none index rest
      | some prompt =>
        if m.role = "assistant" then
          newBlock source index prompt m :: pairMessages source none (index + 1) rest
        else pairMessages source (some prompt) index rest

/-- What is loaded, with what is written back. -/
structure Loaded where
  data : PersistedChatData ConversationBlock
  migrationNotice : Option String

def noData : PersistedChatData ConversationBlock := ⟨[], none, "", none⟩

/-- The last fallback of `loadChatData`. -/
def loadV1 (source : Source) (s : Storage) : Loaded :=
  match s.v1 with
  | some messages =>
    { data := { noData with blocks := (pairMessages source none 0 messages).map Block.conversation }
      migrationNotice := some "Your chat history was migrated to the new block format." }
  | none => ⟨noData, none⟩

/-- `loadChatData`: the newest version that is there. -/
def loadChatData (source : Source) (canWrite : Bool) (s : Storage) : Loaded × Storage :=
  match s.v4, s.v3, s.v2 with
  | some data, _, _ => (⟨rehydrate data, none⟩, s)
  | none, some data, _ =>
    (⟨rehydrate (migrateV3ToV4 data), none⟩,
      if canWrite then { s with v4 := some (migrateV3ToV4 data), v3 := none } else s)
  | none, none, some data =>
    if canWrite then
      (⟨rehydrate (migrateV3ToV4 (data.map fromV2Block)), none⟩,
        { s with v4 := some (migrateV3ToV4 (data.map fromV2Block)), v2 := none })
    else (loadV1 source s, s)
  | none, none, none => (loadV1 source s, s)

def safeBlock : Block ConversationBlock → Block ConversationBlock
  | .shell b => .shell { b with rawBuf := "" }
  | .conversation b =>
    .conversation { b with contentStream := some (stripContentStreamResults (b.contentStream.getD [])) }
  | .other rest => .other rest

/-- `persistChatData`. -/
def persistChatData (canWrite : Bool) (data : PersistedChatData ConversationBlock) (s : Storage) : Storage :=
  if canWrite then { s with v4 := some { data with blocks := data.blocks.map safeBlock } } else s

end Cronymax.Chat
