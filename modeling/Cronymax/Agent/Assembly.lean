import Cronymax.Agent.Conversation
import Cronymax.Agent.Calls

/-! The message that a turn adds to the thread: what the events of its stream say, put together. -/

namespace Cronymax.Agent.Assembly

open Atomic Authority

/-- An event that does not end the stream. -/
def Fragment : LlmEvent → Prop
  | .done _ | .error _ => False
  | _ => True

/-- The text that an event carries. -/
def contentOf : LlmEvent → Option String
  | .delta content => some content
  | _ => none

/-- All text of a stream, in order. -/
def content (events : List LlmEvent) : String := String.join (events.filterMap contentOf)

/-- What one event says of a call. -/
structure Chunk where
  id : Option String
  name : Option String
  arguments : Option String

def chunkOf (index : Nat) : LlmEvent → Option Chunk
  | .toolCallDelta i id name arguments => if i = index then some ⟨id, name, arguments⟩ else none
  | _ => none

/-- What the stream says of the call with this index. -/
def chunks (events : List LlmEvent) (index : Nat) : List Chunk := events.filterMap (chunkOf index)

/-- The last text that is not empty. -/
def lastText (texts : List (Option String)) : String :=
  ((texts.filterMap id).filter (· ≠ "")).getLast?.getD ""

/-- The call that the chunks of an index make. -/
def callOf (events : List LlmEvent) (index : Nat) : ToolCall where
  id := lastText ((chunks events index).map (·.id))
  name := lastText ((chunks events index).map (·.name))
  arguments := String.join ((chunks events index).filterMap (·.arguments))

/-- One call for each index that occurs, in the order of the indices, and all of the content. -/
structure Assembled (events : List LlmEvent) (m : ChatMessage) : Prop where
  role : m.role = .assistant
  calls : ∃ indices : List Nat, indices.Pairwise (· < ·) ∧ (∀ i, i ∈ indices ↔ chunks events i ≠ []) ∧
    m.toolCalls = indices.map (callOf events)
  content : m.content.getD "" = content events

/-- The thread goes on, after the messages of the request, with a message that is assembled. -/
def TurnAssembled (l : ReactLoop) (request : LlmRequest) (events : List LlmEvent) : Prop :=
  ∃ m, request.messages ++ [m] <+: l.history ∧ Assembled events m

/-- The entry that the chunks make. -/
def accum (cs : List Chunk) : AccumCall where
  id := lastText (cs.map (·.id))
  name := lastText (cs.map (·.name))
  arguments := String.join (cs.filterMap (·.arguments))

theorem lastText_append (texts : List (Option String)) (text : Option String) :
    lastText (texts ++ [text]) = (text.filter (· ≠ "")).getD (lastText texts) := by
  unfold lastText
  rw [List.filterMap_append, List.filter_append]
  cases text with
  | none => simp
  | some text => by_cases hEmpty : text = "" <;> simp [hEmpty, Option.filter]

theorem accum_append (cs : List Chunk) (c : Chunk) :
    accum (cs ++ [c]) = (accum cs).extend c.id c.name c.arguments := by
  have hArguments : String.join ((cs ++ [c]).filterMap (·.arguments)) =
      String.join (cs.filterMap (·.arguments)) ++ c.arguments.getD "" := by
    rw [List.filterMap_append, String.join_append]
    cases hChunk : c.arguments <;> simp [hChunk, String.join]
  unfold accum AccumCall.extend
  rw [List.map_append, List.map_append, hArguments]
  exact congrArg₂ (AccumCall.mk · · _) (lastText_append _ _) (lastText_append _ _)

/-- What the reply holds after the events. -/
structure Gathered (events : List LlmEvent) (reply : Reply) : Prop where
  text : reply.text = content events
  sorted : (reply.calls.map Prod.fst).Pairwise (· < ·)
  indices : ∀ i, i ∈ reply.calls.map Prod.fst ↔ chunks events i ≠ []
  calls : ∀ i, callAt reply.calls i = accum (chunks events i)

theorem gathered_nil : Gathered [] .empty where
  text := rfl
  sorted := .nil
  indices i := by simp [Reply.empty, chunks]
  calls i := rfl

section Step

variable {events : List LlmEvent} {reply : Reply}

theorem content_append (event : LlmEvent) :
    content (events ++ [event]) = content events ++ ((contentOf event).getD "") := by
  unfold content
  rw [List.filterMap_append, String.join_append]
  cases hContent : contentOf event <;> simp [hContent, String.join]

theorem chunks_append (event : LlmEvent) (i : Nat) :
    chunks (events ++ [event]) i = chunks events i ++ (chunkOf i event).toList := by
  unfold chunks
  rw [List.filterMap_append]
  cases hChunk : chunkOf i event <;> simp [hChunk]

theorem Gathered.other (h : Gathered events reply) {event : LlmEvent} (hContent : contentOf event = none)
    (hChunk : ∀ i, chunkOf i event = none) : Gathered (events ++ [event]) reply where
  text := by
    rw [content_append, hContent, h.text]
    exact (String.append_empty).symm
  sorted := h.sorted
  indices i := by
    rw [chunks_append, hChunk, h.indices i]
    simp
  calls i := by
    rw [chunks_append, hChunk, h.calls i]
    simp

theorem Gathered.delta (h : Gathered events reply) (text : String) :
    Gathered (events ++ [.delta text]) { reply with text := reply.text ++ text } where
  text := by
    rw [content_append, h.text]
    rfl
  sorted := h.sorted
  indices i := by
    rw [chunks_append, h.indices i]
    simp [chunkOf]
  calls i := by
    rw [chunks_append, h.calls i]
    simp [chunkOf]

theorem Gathered.toolCallDelta (h : Gathered events reply) (index : Nat)
    (id name arguments : Option String) :
    Gathered (events ++ [.toolCallDelta index id name arguments])
      { reply with calls := editCall index (·.extend id name arguments) reply.calls } where
  text := by
    rw [content_append, h.text]
    exact (String.append_empty).symm
  sorted := editCall_sorted h.sorted
  indices i := by
    rw [mem_keys_editCall, chunks_append, h.indices i]
    by_cases hSame : i = index
    · simp [hSame, chunkOf]
    · simp [hSame, chunkOf, Ne.symm hSame]
  calls i := by
    rw [callAt_editCall h.sorted, chunks_append, h.calls i, h.calls index]
    by_cases hSame : i = index
    · subst hSame
      rw [if_pos rfl, chunkOf, if_pos rfl]
      exact (accum_append _ ⟨id, name, arguments⟩).symm
    · rw [if_neg hSame, chunkOf, if_neg (Ne.symm hSame)]
      simp

/-- By induction on the events to come. -/
theorem Gathered.read (h : Gathered events reply) (later : List LlmEvent)
    (hFragments : ∀ event ∈ later, Fragment event) (finish : FinishReason) (rest : List LlmEvent) :
    ∃ reply', reply.read (later ++ .done finish :: rest) = .ok reply' ∧
      Gathered (events ++ later) reply' := by
  induction later generalizing events reply with
  | nil =>
    refine ⟨{ reply with finish := some finish }, rfl, ?_⟩
    rw [List.append_nil]
    exact ⟨h.text, h.sorted, h.indices, h.calls⟩
  | cons event later ih =>
    have hLater : ∀ event ∈ later, Fragment event := fun e he => hFragments e (List.mem_cons_of_mem _ he)
    have hEvents : events ++ event :: later = events ++ [event] ++ later := by simp
    rw [hEvents]
    cases event with
    | delta text => exact ih (h.delta text) hLater
    | thinkingDelta text => exact ih (h.other rfl fun _ => rfl) hLater
    | toolCallDelta index id name arguments => exact ih (h.toolCallDelta index id name arguments) hLater
    | usage input output => exact ih (h.other rfl fun _ => rfl) hLater
    | done finish' => exact (hFragments _ List.mem_cons_self).elim
    | error message => exact (hFragments _ List.mem_cons_self).elim

end Step

section Message

variable {events : List LlmEvent} {reply : Reply}

theorem Gathered.toolCalls (h : Gathered events reply) :
    reply.toolCalls = (reply.calls.map Prod.fst).map (callOf events) := by
  rw [Reply.toolCalls, List.map_map]
  refine List.map_congr_left fun entry hMem => ?_
  have hCall := ((mem_iff_callAt h.sorted).mp hMem).2.symm.trans (h.calls entry.1)
  rw [hCall]
  rfl

theorem Gathered.toolCalls_nil (h : Gathered events reply) :
    reply.toolCalls = [] ↔ ∀ i, chunks events i = [] := by
  rw [Reply.toolCalls, List.map_eq_nil_iff]
  constructor
  · intro hNone i
    by_contra hSome
    have hMem := (h.indices i).mpr hSome
    rw [hNone] at hMem
    cases hMem
  · intro hNone
    refine List.eq_nil_iff_forall_not_mem.mpr fun entry hMem => ?_
    exact (h.indices entry.1).mp (List.mem_map_of_mem hMem) (hNone entry.1)

theorem Gathered.assembled_iff (h : Gathered events reply) :
    Assembled events reply.message ↔ content events = "" ∨ ∀ i, chunks events i = [] := by
  have hCalls : ∃ indices : List Nat, indices.Pairwise (· < ·) ∧
      (∀ i, i ∈ indices ↔ chunks events i ≠ []) ∧
        reply.message.toolCalls = indices.map (callOf events) :=
    ⟨_, h.sorted, h.indices, reply.message_toolCalls.trans h.toolCalls⟩
  rw [← h.toolCalls_nil, ← h.text]
  by_cases hNone : reply.toolCalls = []
  · refine iff_of_true ⟨?_, hCalls, ?_⟩ (.inr hNone)
    · rw [Reply.message, if_neg (not_not.mpr hNone)]
      split <;> rfl
    · rw [Reply.message, if_neg (not_not.mpr hNone), ← h.text]
      split
      · rfl
      · rename_i hText
        exact (not_not.mp hText).symm
  · rw [or_iff_left hNone]
    have hMessage : reply.message = assistantToolCalls reply.toolCalls := by
      rw [Reply.message, if_pos hNone]
    refine ⟨fun hAssembled => ?_, fun hText => ⟨by rw [hMessage]; rfl, hCalls, ?_⟩⟩
    · have hContent := hAssembled.content
      rw [hMessage] at hContent
      exact h.text.trans hContent.symm
    · rw [hMessage, ← h.text, hText]
      rfl

end Message

/-- The thread after a turn's stream: its request with the reply. -/
def starts (x : Act) (w : World) : List (List ChatMessage) :=
  match x with
  | .stream _ .turn request =>
    match w.stream.bind Reply.empty.read with
    | .ok reply => [request.messages ++ [reply.message]]
    | .error _ => []
  | _ => []

/-- Collects the threads after the streams of the turns. -/
def assembling : Watch (List (List ChatMessage)) Act World where
  assumes _ _ _ := True
  demands _ _ _ := True
  next threads x w := threads ++ starts x w

/-- A loop of the run whose thread starts so. -/
structure StartsWith (runId : RunId) (threads : List (List ChatMessage)) (l : ReactLoop) : Prop where
  runId : l.runId = runId
  threads : ∀ thread ∈ threads, thread <+: l.history

theorem startsWith_kept (runId : RunId) (threads : List (List ChatMessage)) :
    Kept runId (StartsWith runId threads) where
  runId h := h.runId
  push h _ := ⟨h.runId, fun thread hMem => (h.threads thread hMem).trans (List.prefix_append _ _)⟩
  count h _ _ _ := ⟨h.runId, h.threads⟩

section Loop

variable {runId : RunId} {threads : List (List ChatMessage)} {l : ReactLoop}

theorem other_passes {x : Act} (h : ∀ w, starts x w = []) : Passes assembling (· = threads) x := by
  rintro m w rfl
  refine ⟨trivial, ?_⟩
  show m ++ starts x w = m
  rw [h, List.append_nil]

theorem toolStep_passes (x : Act) (h : ReactLoop.ToolStep runId x) : Passes assembling (· = threads) x := by
  cases h <;> exact other_passes fun _ => rfl

theorem converse_starts (h : StartsWith runId threads l) :
    l.converse.Meets assembling (Prog.Returns fun e m => StartsWith runId m e.loop) threads := by
  refine Prog.Meets.perform fun w _ => ⟨trivial, ?_⟩
  show Prog.Meets _ _ _ (threads ++ starts (.stream l.runId .turn l.request) w)
  cases hReply : w.stream.bind Reply.empty.read with
  | error e =>
    have hStarts : starts (.stream l.runId .turn l.request) w = [] := by simp only [starts, hReply]
    rw [hStarts, List.append_nil]
    exact h
  | ok reply =>
    have hStarts : starts (.stream l.runId .turn l.request) w = [l.history ++ [reply.message]] := by
      simp only [starts, hReply]
      rfl
    rw [hStarts]
    have hPushed : StartsWith runId (threads ++ [l.history ++ [reply.message]]) (l.push reply.message) := by
      refine ⟨h.runId, fun thread hMem => ?_⟩
      rcases List.mem_append.mp hMem with hMem | hMem
      · exact (h.threads thread hMem).trans (List.prefix_append _ _)
      · rw [List.mem_singleton.mp hMem]
        exact List.prefix_refl _
    have hKept := startsWith_kept runId (threads ++ [l.history ++ [reply.message]])
    have hEnds (r : Except LoopError TurnEnd) (m : List (List ChatMessage))
        (hEnd : Prog.Returns (fun e m => StartsWith runId (threads ++ [l.history ++ [reply.message]]) e.loop ∧
          m = threads ++ [l.history ++ [reply.message]]) r m) :
        Prog.Returns (fun e m => StartsWith runId m e.loop) r m := by
      cases r with
      | ok e =>
        obtain ⟨hLoop, rfl⟩ := hEnd
        exact hLoop
      | error e => exact hEnd
    cases hFinish : reply.finishReason <;> simp only [hFinish]
    case toolCalls =>
      refine (ReactLoop.actOn_rule (I := (· = threads ++ [l.history ++ [reply.message]]))
        (fun l ctx call m hLoop hm => ?_) hPushed rfl _).mono hEnds
      exact ReactLoop.runOneTool_rule toolStep_passes hKept hLoop ctx call hm
    all_goals
      exact (ReactLoop.finish_rule hKept (fun _ => other_passes fun _ => rfl) hPushed rfl).mono hEnds

theorem takeTurn_starts (h : StartsWith runId threads l) :
    l.takeTurn.Meets assembling (Prog.Returns fun e m => StartsWith runId m e.loop) threads := by
  refine ReactLoop.takeTurn_rule (I := fun l m => StartsWith runId m l)
    (J := fun l m => StartsWith runId m l) (fun w _ => ?_) fun m hStart => ?_
  · have hSame : assembling.next threads (.locked (.runStatus l.runId)) w = threads := List.append_nil _
    rw [hSame]
    exact ⟨trivial, h, fun _ _ _ => ⟨h.runId, h.threads⟩⟩
  · refine (ReactLoop.reflect_rule (I := (· = m)) (startsWith_kept runId m)
      (fun _ => other_passes fun _ => rfl) hStart rfl).andThen fun l' m' hNext => ?_
    obtain ⟨hLoop, rfl⟩ := hNext
    exact converse_starts hLoop

theorem drive_starts {turns : Nat} {l' : ReactLoop} {result : Except LoopError Unit}
    {tr : List (Act × World)} (hRun : Prog.Yields (ReactLoop.drive turns l) tr (.ok (l', result))) :
    ∀ thread ∈ assembling.after [] tr, thread <+: l'.history := by
  have hMeets := ReactLoop.drive_rule (W := assembling) (I := fun l' m => StartsWith l.runId m l')
    (fun _ _ h => takeTurn_starts h) turns (m := []) (l := l) ⟨rfl, fun _ h => nomatch h⟩
  exact (hMeets.sound hRun (Watch.along_of_forall fun _ _ _ => trivial)).2.threads

end Loop

theorem mem_after {thread : List ChatMessage} (tr : List (Act × World)) {threads : List (List ChatMessage)}
    (h : thread ∈ threads) : thread ∈ assembling.after threads tr := by
  induction tr generalizing threads with
  | nil => exact h
  | cons e tr ih => exact ih (List.mem_append_left _ h)

/-- Whatever a run does before and after, the message of a turn is put together as its events say exactly
when the turn has no content or no tool calls. -/
theorem turn_assembled_iff {l l' : ReactLoop} {turns : Nat} {result : Except LoopError Unit}
    {pre post : List (Act × World)} {runId : RunId} {request : LlmRequest} {w : World}
    (hRun : Prog.Yields (ReactLoop.drive turns l) (pre ++ (.stream runId .turn request, w) :: post)
      (.ok (l', result)))
    {events rest : List LlmEvent} {finish : FinishReason}
    (hStream : w.stream = .ok (events ++ .done finish :: rest))
    (hFragments : ∀ event ∈ events, Fragment event) :
    TurnAssembled l' request events ↔ content events = "" ∨ ∀ i, chunks events i = [] := by
  obtain ⟨reply, hRead, hGathered⟩ := gathered_nil.read events hFragments finish rest
  rw [List.nil_append] at hGathered
  have hStarts : starts (.stream runId .turn request) w = [request.messages ++ [reply.message]] := by
    have hReply : w.stream.bind Reply.empty.read = .ok reply := by
      rw [hStream]
      exact hRead
    simp only [starts, hReply]
  have hPrefix : request.messages ++ [reply.message] <+: l'.history := by
    refine drive_starts hRun _ ?_
    rw [Watch.after_append, Watch.after_cons]
    refine mem_after post (List.mem_append_right _ ?_)
    rw [hStarts]
    exact List.mem_singleton.mpr rfl
  rw [← hGathered.assembled_iff]
  constructor
  · rintro ⟨m, hOther, hAssembled⟩
    -- both messages come next after the request's
    have hSame : request.messages ++ [m] = request.messages ++ [reply.message] :=
      (List.prefix_of_prefix_length_le hOther hPrefix (by simp)).eq_of_length (by simp)
    obtain rfl := (List.cons.inj (List.append_cancel_left hSame)).1
    exact hAssembled
  · exact fun hAssembled => ⟨_, hPrefix, hAssembled⟩

def twoCalls : List LlmEvent :=
  [.toolCallDelta 0 (some "first") (some "ls") (some "\x7b"), .usage 9 2,
    .toolCallDelta 1 (some "second") (some "cat") (some "{}"), .toolCallDelta 0 none none (some "\x7d")]

/-- The pieces of two calls take turns; both tools are called. -/
theorem turn_assembled_calls :
    ∃ l', Prog.Yields (ReactLoop.drive 1 (ReactLoop.new chatRun chatConfig))
      ([(.locked (.runStatus chatRun), streaming [])] ++
        (.stream chatRun .turn (ReactLoop.new chatRun chatConfig).request,
          streaming (twoCalls ++ .done .toolCalls :: [])) ::
        [(.dispatch chatRun ⟨"first", "ls", "{}"⟩, streaming []),
          (.dispatch chatRun ⟨"second", "cat", "{}"⟩, streaming [])])
      (.ok (l', .error (.maxTurnsExceeded 9))) ∧
      TurnAssembled l' (ReactLoop.new chatRun chatConfig).request twoCalls := by
  refine Exists.imp (fun l' hRun => ⟨hRun, ?_⟩) ⟨_, .act (.act (.act (.act (.done _))))⟩
  refine (turn_assembled_iff hRun rfl fun event hMem => ?_).mpr (.inl rfl)
  simp only [twoCalls, List.mem_cons, List.not_mem_nil, or_false] at hMem
  obtain rfl | rfl | rfl | rfl := hMem <;> trivial

/-- The model says what it is about to do, and calls a tool. -/
theorem turn_loses_text :
    ∃ l', Prog.Yields (ReactLoop.drive 1 (ReactLoop.new chatRun chatConfig))
      [(.locked (.runStatus chatRun), streaming []),
        (.stream chatRun .turn (ReactLoop.new chatRun chatConfig).request,
          streaming [.delta "Let me look.", .toolCallDelta 0 (some "call") (some "ls") (some "{}"),
            .done .toolCalls]),
        (.dispatch chatRun ⟨"call", "ls", "{}"⟩, streaming [])]
      (.ok (l', .error (.maxTurnsExceeded 9))) ∧
      ¬TurnAssembled l' (ReactLoop.new chatRun chatConfig).request
        [.delta "Let me look.", .toolCallDelta 0 (some "call") (some "ls") (some "{}")] := by
  refine ⟨_, .act (.act (.act (.done _))), ?_⟩
  rintro ⟨m, ⟨later, hHistory⟩, hAssembled⟩
  obtain rfl : m = assistantToolCalls [⟨"call", "ls", "{}"⟩] :=
    (List.cons.inj (List.cons.inj hHistory).2).1
  exact absurd hAssembled.content (by decide)

end Cronymax.Agent.Assembly
