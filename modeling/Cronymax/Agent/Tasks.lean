import Cronymax.Agent.Loop
import Mathlib.Algebra.GroupWithZero.Nat

/-! The tasks that drive agent loops.  A task builds the provider, compacts the thread that it was given,
drives the loop, and appends to the history file of the session.  The three sites that spawn such tasks
differ in how they start and in what they append. -/

namespace Cronymax.Agent

open Atomic Authority

/-- A line of a history file: what it parses to. -/
structure Line where
  message : Option ChatMessage
deriving DecidableEq

namespace ChatStore

/-- `load_history` skips the lines that do not parse. -/
def loadHistory (lines : List Line) : List ChatMessage := lines.filterMap (·.message)

@[grind =] def appendTurns (turns : List ChatMessage) (lines : List Line) : List Line :=
  lines ++ turns.map fun turn => ⟨some turn⟩

@[simp] theorem load_append (turns : List ChatMessage) (lines : List Line) :
    loadHistory (appendTurns turns lines) = loadHistory lines ++ turns := by
  simp [loadHistory, appendTurns, List.filterMap_append, List.filterMap_map]

end ChatStore

/-- Where a task is spawned. -/
inductive Site where
  | startRun
  | resumeRun
  | spawnChat
  | spawnAgent
deriving DecidableEq

/-- A spawned loop, with the site that spawns it. -/
structure LoopTask where
  site : Site
  runId : RunId
  sessionId : Option SessionId
  chatStore : Bool
  priorThread : List ChatMessage
  provider : Except String LoopConfig
  summarizePrompt : String

/-- The world with the history files. -/
structure Host where
  world : World
  histories : Table SessionId (List Line)

namespace Host

variable (h : Host)

def lines (sid : SessionId) : List Line := (h.histories.lookup sid).getD []

/-- `session_thread`. -/
def thread? (sid : SessionId) : Option (List ChatMessage) :=
  (h.world.authority.inner.snapshot.sessions.lookup sid).map (·.thread)

end Host

/-- An access of a task or a handler. -/
inductive HostAct where
  | act (x : Act)
  | snapshot
  | sessionThread (sid : SessionId)
  | loadHistory (sid : SessionId)
  | appendTurns (sid : SessionId) (turns : List ChatMessage)
  | summarise (request : LlmRequest)
  | await
  | spawn (task : LoopTask)

instance : Acts HostAct Host where
  apply
    | .act x, h => { h with world := Acts.apply x h.world }
    | .appendTurns sid turns, h =>
      { h with histories := h.histories.insert sid (ChatStore.appendTurns turns (h.lines sid)) }
    | .summarise _, h => { h with world := { h.world with streams := h.world.streams.tail } }
    | .snapshot, h | .sessionThread _, h | .loadHistory _, h | .await, h | .spawn _, h => h

abbrev HostOp := Prog HostAct Host LoopError

/-- An operation of the authority. -/
def call {α : Type} (op : Op α) : HostOp (Except AuthorityError α) :=
  op.attempt.within (fun x => .act (.locked x)) (·.world.authority) .authority

/-- `token_estimate`: a quarter of the bytes. -/
def tokenEstimate (messages : List ChatMessage) : Nat :=
  (messages.map fun m => (m.content.getD "").utf8ByteSize / 4).sum

def contextWindowTokens : Nat := 128000

def defaultThresholdPct : Nat := 80

def defaultRecencyTurns : Nat := 6

/-- Where the last so many turns begin. -/
def recencyStart (recencyTurns start : Nat) : Nat → Option ChatRole → List ChatMessage → Nat
  | _, _, [] => start
  | turnsSeen, prevRole, msg :: before =>
    if msg.role = .user then
      let turnsSeen := if prevRole = some .assistant then turnsSeen + 1 else turnsSeen
      if recencyTurns ≤ turnsSeen then before.length
      else recencyStart recencyTurns start turnsSeen (some msg.role) before
    else recencyStart recencyTurns start turnsSeen (some msg.role) before

/-- `split_thread`: the end of the system messages, and the start of the recent turns. -/
def splitThread (thread : List ChatMessage) (recencyTurns : Nat) : Nat × Nat :=
  let prefixEnd := (thread.takeWhile (·.role = .system)).length
  (prefixEnd, max (recencyStart recencyTurns thread.length 0 none thread.reverse) prefixEnd)

def ChatRole.heading : ChatRole → String
  | .user => "User"
  | .assistant => "Assistant"
  | .system => "System"
  | .tool => "Tool"

/-- `format_for_summary`. -/
def formatForSummary (messages : List ChatMessage) : String :=
  "\n\n".intercalate (messages.map fun m =>
    ChatRole.heading m.role ++ ": " ++ m.content.getD "[no text]")

/-- `CompactionResult`. -/
structure CompactionResult where
  thread : List ChatMessage
  compacted : Bool
  summary : Option String

/-- The system messages, the summary and the recent turns. -/
def compactedThread (thread : List ChatMessage) (prefixEnd start : Nat) (summary : String) :
    List ChatMessage :=
  thread.take prefixEnd ++ system ("[Conversation summary]\n" ++ summary) :: thread.drop start

/-- `maybe_compact`.  A thread that cannot be summarised is left as it is. -/
def maybeCompact (thread : List ChatMessage) (model summarizePrompt : String)
    (thresholdPct recencyTurns : Nat) : HostOp CompactionResult :=
  if tokenEstimate thread < contextWindowTokens * thresholdPct / 100 then pure ⟨thread, false, none⟩
  else
    let (prefixEnd, start) := splitThread thread recencyTurns
    let middle := (thread.take start).drop prefixEnd
    if middle = [] then pure ⟨thread, false, none⟩
    else do
      let h ← Prog.perform (.summarise
        ⟨model, [system summarizePrompt, user (formatForSummary middle)], [], none, none, none⟩)
      match h.world.stream.bind (collectText "") with
      | .error _ => pure ⟨thread, false, none⟩
      | .ok summary => pure ⟨compactedThread thread prefixEnd start summary, true, some summary⟩

/-- The history file, or the thread of the session. -/
@[grind =] def priorThread (sid : SessionId) (chatStore : Bool) : HostOp (List ChatMessage) :=
  if chatStore then do
    let h ← Prog.perform (.loadHistory sid)
    pure (ChatStore.loadHistory (h.lines sid))
  else do
    let h ← Prog.perform (.sessionThread sid)
    pure ((h.thread? sid).getD [])

namespace LoopTask

variable (t : LoopTask)

/-- The summary goes to the memory of the session. -/
def keepSummary (sid : SessionId) (summary : String) : HostOp Unit := do
  let h ← Prog.perform (.sessionThread sid)
  let key := "compaction/" ++ ((h.thread? sid).elim 0 List.length).repr
  let space := "session:" ++ sid.text
  let _ ← call (lock (.operation (.putMemory ⟨space⟩
    ⟨key, .object [("summary", .string summary)], h.world.authority.now⟩)))
  let _ ← call (lock (.operation (.emitForRun t.runId (.trace t.runId.uuid (.object
    [("kind", .string "memory_write"), ("namespace", .string space), ("key", .string key),
      ("source", .string "compaction")])))))
  pure ()

def prior : HostOp (List ChatMessage) :=
  match t.site, t.sessionId with
  | .spawnChat, some sid => Agent.priorThread sid t.chatStore
  | _, _ => pure t.priorThread

/-- The thread after compaction. -/
@[grind =] def effectiveThread (prior : List ChatMessage) (model : String) : HostOp (List ChatMessage) :=
  if t.site = .spawnChat ∨ prior = [] then pure prior
  else do
    let result ← maybeCompact prior model t.summarizePrompt defaultThresholdPct defaultRecencyTurns
    match result.compacted, t.sessionId with
    | true, some sid =>
      let _ ← call (lock (.operation (.flushThread sid result.thread)))
      match t.site, result.summary with
      | .startRun, some summary => t.keepSummary sid summary
      | _, _ => pure ()
      pure result.thread
    | _, _ => pure result.thread

/-- `fail_run`, whose answer is ignored. -/
def giveUp (message : String) : HostOp Unit := do
  let _ ← call (failRun t.runId message)
  pure ()

def loop (config : LoopConfig) (thread : List ChatMessage) : ReactLoop :=
  .new t.runId { config with
    initialThread := if t.site ≠ .spawnChat ∧ thread = [] then none else some thread
    sessionId := t.sessionId }

def drive (config : LoopConfig) (thread : List ChatMessage) : HostOp Unit := do
  let result ← ((t.loop config thread).run.within .act Host.world id : HostOp Unit).attempt
  match t.site, result with
  | .spawnChat, .error e | .spawnAgent, .error e => t.giveUp (e.text config.texts)
  | _, _ => pure ()

/-- The whole thread is appended to the history file. -/
def appendThread (sid : SessionId) : HostOp Unit :=
  if t.chatStore then do
    let h ← Prog.perform (.sessionThread sid)
    match h.thread? sid with
    | some thread =>
      if thread ≠ [] then
        let _ ← Prog.perform (.appendTurns sid thread)
        pure ()
      else pure ()
    | none => pure ()
  else pure ()

/-- What the loop has added is appended. -/
def appendDelta (sid : SessionId) (prior : List ChatMessage) : HostOp Unit := do
  let h ← Prog.perform (.sessionThread sid)
  match h.thread? sid with
  | some thread =>
    let _ ← call (lock (.operation (.flushThread sid thread)))
    if t.chatStore ∧ prior.length < thread.length then
      let _ ← Prog.perform (.appendTurns sid (thread.drop prior.length))
      pure ()
    else pure ()
  | none => pure ()

/-- What a site does with the thread after its loop. -/
def persist (prior : List ChatMessage) : HostOp Unit :=
  match t.sessionId with
  | none => pure ()
  | some sid =>
    match t.site with
    | .startRun | .resumeRun => t.appendThread sid
    | .spawnChat => t.appendDelta sid prior
    | .spawnAgent => pure ()

/-- A task from its spawn to its end. -/
def prog : HostOp Unit := do
  let prior ← t.prior
  let _ ← Prog.perform .await
  match t.provider with
  | .error message => t.giveUp message
  | .ok config => do
    let thread ← t.effectiveThread prior config.model
    t.drive config thread
    t.persist prior

end LoopTask

end Cronymax.Agent
