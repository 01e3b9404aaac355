import Cronymax.Agent.Rules
import Mathlib.Data.List.TakeWhile

/-! Threads that a provider accepts: every tool call of the assistant has exactly one result before the
thread goes on, and every result answers a call.  A thread grows by blocks, each a message that is
not a result, followed by the results of its calls. -/

namespace Cronymax.Agent

open Atomic Authority

/-- The message calls tools under the id. -/
def Calls (m : ChatMessage) (id : String) : Prop :=
  m.role = .assistant ∧ ∃ call ∈ m.toolCalls, call.id = id

/-- Every call is answered before anything else is said. -/
def Answered (thread : List ChatMessage) : Prop :=
  ∀ pre m post, thread = pre ++ m :: post → ∀ id, Calls m id →
    (post.takeWhile (·.role = .tool)).countP (·.toolCallId = some id) = 1

/-- Every result answers a call before it. -/
def Answers (thread : List ChatMessage) : Prop :=
  ∀ pre m post, thread = pre ++ m :: post → m.role = .tool →
    ∃ caller ∈ pre, ∃ id, Calls caller id ∧ m.toolCallId = some id

/-- What a provider accepts: answered calls, and results that answer one. -/
structure WellFormed (thread : List ChatMessage) : Prop where
  answered : Answered thread
  answers : Answers thread

/-- A message that is not a result, with the results of its calls. -/
structure Block (m : ChatMessage) (results : List ChatMessage) : Prop where
  role : m.role ≠ .tool
  tools : ∀ result ∈ results, result.role = .tool
  answered : ∀ id, Calls m id → results.countP (·.toolCallId = some id) = 1
  answers : ∀ result ∈ results, ∃ id, Calls m id ∧ result.toolCallId = some id

section Lists

variable {α : Type} {p : α → Bool}

theorem takeWhile_stop {m : α} (hm : p m = false) (l rest : List α) :
    (l ++ m :: rest).takeWhile p = l.takeWhile p := by
  induction l with
  | nil => simp [hm]
  | cons a l ih => simp only [List.cons_append, List.takeWhile_cons, ih]

end Lists

namespace WellFormed

variable {thread : List ChatMessage} {m : ChatMessage}

theorem nil : WellFormed [] :=
  ⟨fun pre m post h => by simp at h, fun pre m post h => by simp at h⟩

theorem append (h : WellFormed thread) {results : List ChatMessage} (hBlock : Block m results) :
    WellFormed (thread ++ m :: results) where
  answered pre a post hSplit id hCalls := by
    obtain ⟨mid, rfl, rfl⟩ | ⟨rfl, rfl, rfl⟩ | ⟨mid, rfl, rfl⟩ := split_cases hSplit
    · rw [takeWhile_stop (by simp [hBlock.role])]
      exact h.answered pre a mid rfl id hCalls
    · have hAll : post.takeWhile (·.role = .tool) = post :=
        List.takeWhile_eq_self_iff.mpr fun result hResult => by
          simpa using hBlock.tools result hResult
      rw [hAll]
      exact hBlock.answered id hCalls
    · -- a result calls nothing
      have hRole := hBlock.tools a (by simp)
      rw [hCalls.1] at hRole
      cases hRole
  answers pre a post hSplit hRole := by
    obtain ⟨mid, rfl, rfl⟩ | ⟨rfl, rfl, rfl⟩ | ⟨mid, rfl, rfl⟩ := split_cases hSplit
    · exact h.answers pre a mid rfl hRole
    · exact absurd hRole hBlock.role
    · obtain ⟨id, hCalls, hId⟩ := hBlock.answers a (by simp)
      exact ⟨m, by simp, id, hCalls, hId⟩

theorem push (h : WellFormed thread) (hRole : m.role ≠ .tool) (hCalls : m.toolCalls = []) :
    WellFormed (thread ++ [m]) := by
  have hNone (id : String) : ¬Calls m id := by
    rintro ⟨-, call, hCall, -⟩
    rw [hCalls] at hCall
    cases hCall
  exact h.append ⟨hRole, by simp, fun id hCalls => absurd hCalls (hNone id), by simp⟩

theorem drop (h : WellFormed thread) {n : Nat} (hAnswers : Answers (thread.drop n)) :
    WellFormed (thread.drop n) where
  answered pre m post hSplit id hCalls := by
    refine h.answered (thread.take n ++ pre) m post ?_ id hCalls
    rw [List.append_assoc, ← hSplit, List.take_append_drop]
  answers := hAnswers

end WellFormed

/-- One result for each of the calls, in their order. -/
def Results : List ToolCall → List ChatMessage → Prop :=
  List.Forall₂ fun call result => result.role = .tool ∧ result.toolCallId = some call.id

namespace Results

variable {calls : List ToolCall} {results : List ChatMessage}

theorem role (h : Results calls results) : ∀ result ∈ results, result.role = .tool := by
  induction h with
  | nil => simp
  | cons hFirst _ ih => simpa [hFirst.1] using ih

theorem ids (h : Results calls results) :
    results.map (·.toolCallId) = (calls.map (·.id)).map some := by
  induction h with
  | nil => rfl
  | cons hFirst _ ih => simp only [List.map_cons, hFirst.2, ih]

theorem block (h : Results calls results) (hNodup : (calls.map (·.id)).Nodup) :
    Block (assistantToolCalls calls) results where
  role := by simp [assistantToolCalls]
  tools := h.role
  answered id hCalls := by
    obtain ⟨-, call, hCall, rfl⟩ := hCalls
    have hCount : results.countP (·.toolCallId = some call.id) =
        ((calls.map (·.id)).map some).count (some call.id) := by
      rw [← h.ids, List.count, List.countP_map]
      exact List.countP_congr fun result _ => by simp
    rw [hCount, List.count_map_of_injective _ _ (Option.some_injective _)]
    exact List.count_eq_one_of_mem hNodup (List.mem_map_of_mem hCall)
  answers result hResult := by
    have hMem : result.toolCallId ∈ (calls.map (·.id)).map some :=
      h.ids ▸ List.mem_map_of_mem hResult
    obtain ⟨id, hId, hSame⟩ := List.mem_map.mp hMem
    obtain ⟨call, hCall, rfl⟩ := List.mem_map.mp hId
    exact ⟨call.id, ⟨rfl, call, hCall, rfl⟩, hSame.symm⟩

end Results

end Cronymax.Agent

/-! The conversation of a session, run after run.  What the loop asks of the provider, and what it
hands back to the session, is well formed as long as the loop does not break off between the calls of
a reply and their results, and does not cut them apart. -/

namespace Cronymax.Agent

open Atomic Authority

/-- The calls of a reply have names and different ids, and it ends for their sake. -/
def Reply.Sound (reply : Reply) : Prop :=
  reply.toolCalls ≠ [] →
    reply.finishReason = .toolCalls ∧ (∀ call ∈ reply.toolCalls, call.name ≠ "") ∧
      (reply.toolCalls.map (·.id)).Nodup

/-- What the steps of a run may meet, so that its calls and results are not cut apart. -/
def Steady (x : Act) (w : World) : Prop :=
  match x with
  | .stream _ .turn _ =>
    match w.stream.bind Reply.empty.read with
    | .ok reply => reply.Sound
    | .error _ => True
  -- the window of six messages begins no later than the call of each result in it
  | .stream _ .reflection request => Answers request.messages.dropLast
  | .locked (.operation (.openReview runId request drawn)) =>
    match w.authority.answer
      (Section.decide w.authority (.operation (.openReview runId request drawn))) with
    | .ok _ => True
    | .error _ => False
  | .awaitReview completion =>
    match w.resolution? completion with
    | some resolution => resolution.decision = .approved ∨ resolution.decision = .rejected
    | none => False
  | _ => True

/-- Whatever is streamed has a well-formed thread. -/
def SendsWellFormed (x : Act) : Prop :=
  match x with
  | .stream _ _ request => WellFormed request.messages
  | .locked (.operation (.flushThread _ thread)) => WellFormed thread
  | _ => True

/-- Watches that the threads sent are well formed. -/
def conversation : Watch Unit Act World where
  assumes _ := Steady
  demands _ x _ := SendsWellFormed x
  next _ _ _ := ()

theorem WellFormed.user {thread : List ChatMessage} (h : WellFormed thread) (text : String) :
    WellFormed (thread ++ [user text]) := h.push nofun rfl

theorem WellFormed.system {thread : List ChatMessage} (h : WellFormed thread) (text : String) :
    WellFormed (thread ++ [system text]) := h.push nofun rfl

theorem quiet_meets {α : Type} {p : AgentOp α} (h : p.Only SendsWellFormed)
    {Q : Except LoopError α → Unit → Prop} (hQ : ∀ r, Q r ()) : p.Meets conversation Q () :=
  (Prog.Meets.of_only (I := fun _ => True) h (fun _ hx _ _ _ _ => ⟨hx, trivial⟩) trivial).mono
    fun r _ _ => hQ r

theorem ask_quiet {α : Type} {op : Prog Section RuntimeAuthority AuthorityError α}
    (h : op.Only fun x => SendsWellFormed (.locked x)) : (ask op).Only SendsWellFormed :=
  Prog.Only.within h

namespace ReactLoop

variable {l : ReactLoop}

/-- The thread of the loop is well formed. -/
def Ready (l : ReactLoop) : Prop := WellFormed l.history

theorem new_ready (runId : RunId) {config : LoopConfig}
    (h : WellFormed (config.initialThread.getD [])) : (new runId config).Ready := by
  have hFresh :
      WellFormed ((config.systemPrompt.map system).toList ++ [user config.userInput]) := by
    refine WellFormed.user ?_ _
    cases config.systemPrompt with
    | none => exact .nil
    | some text => exact WellFormed.nil.system text
  rw [Ready, new]
  cases hPrior : config.initialThread with
  | none => exact hFresh
  | some prior =>
    rw [hPrior] at h
    by_cases hNil : prior = []
    · rw [Option.filter_some_neg (by simp [hNil])]
      exact hFresh
    · rw [Option.filter_some_pos (by simp [hNil])]
      exact WellFormed.user h _

theorem runReflectionPass_ready (h : l.Ready) (cfg : ReflectionConfig) :
    (l.runReflectionPass cfg).Meets conversation (Prog.Returns fun l' _ => l'.Ready) () := by
  refine Prog.Meets.perform fun w hAnswers => ⟨?_, ?_⟩
  · have hWindow : Answers (l.history.drop (l.history.length - 6)) := by
      simpa only [conversation, Steady, reflectionRequest, List.dropLast_concat] using hAnswers
    exact (WellFormed.drop h hWindow).user _
  · split
    · exact h
    · split
      · exact h
      · exact WellFormed.system h _

theorem reflect_ready (h : l.Ready) :
    l.reflect.Meets conversation (Prog.Returns fun l' _ => l'.Ready) () := by
  rw [reflect]
  split
  · split
    · exact runReflectionPass_ready h _
    · exact h
  · exact h

theorem runCriticPass_meets (h : l.Ready) (cfg : CriticConfig) :
    (l.runCriticPass cfg).Meets conversation (Prog.Returns fun _ _ => True) () := by
  refine Prog.Meets.perform fun w _ => ⟨WellFormed.user h _, ?_⟩
  split
  · trivial
  · split
    · split <;> trivial
    · trivial

theorem finish_ready (h : l.Ready) :
    l.finish.Meets conversation (Prog.Returns fun e _ => e.loop.Ready) () := by
  rw [finish]
  split
  · split
    · refine (runCriticPass_meets h _).andThen fun decision _ _ => ?_
      cases decision with
      | needsRevision issues => exact WellFormed.user h _
      | passed => exact h
      | malformedResponse => exact h
    · exact h
  · exact h

/-- An outcome, not an end of the loop. -/
def HasOutcome (r : Except LoopError ToolOutcome) : Prop := ∃ outcome, r = .ok outcome

theorem useTool_meets (op : Prog ToolAct World Empty ToolOutcome) :
    (useTool op).Meets conversation (Prog.Returns fun _ _ => True) () := by
  rw [useTool]
  induction op with
  | done outcome => trivial
  | fail e => exact e.elim
  | act x next ih => exact fun w _ => ⟨trivial, ih w⟩

theorem resume_meets (call : ToolCall) {resolution : ReviewResolution}
    (h : resolution.decision = .approved ∨ resolution.decision = .rejected) :
    (l.resume call resolution).Meets conversation (Prog.Returns fun r _ => HasOutcome r) () := by
  obtain hApproved | hRejected := h
  · simp only [resume, hApproved]
    refine Prog.Meets.perform fun w _ => ⟨trivial, ?_⟩
    exact (useTool_meets _).andThen fun outcome _ _ => ⟨outcome, rfl⟩
  · simp only [resume, hRejected]
    exact ⟨_, rfl⟩

theorem review_meets (call : ToolCall) (request : Value) :
    (l.review call request).Meets conversation (Prog.Returns fun r _ => HasOutcome r) () := by
  refine Prog.Meets.perform fun w _ => ⟨trivial, ?_⟩
  rw [ask_openReview]
  refine fun w' hOpens => ⟨trivial, ?_⟩
  simp only [conversation, Steady] at hOpens
  split at hOpens
  · rename_i hAnswer
    simp only [hAnswer]
    refine fun w'' _ => ⟨trivial, ?_⟩
    refine Prog.Meets.perform fun v hDecided => ⟨trivial, ?_⟩
    simp only [conversation, Steady] at hDecided
    split at hDecided
    · rename_i hResolution
      simp only [hResolution]
      exact resume_meets call hDecided
    · exact hDecided.elim
  · exact hOpens.elim

theorem dispatch_meets (call : ToolCall) :
    (l.dispatch call).Meets conversation (Prog.Returns fun r _ => HasOutcome r) () := by
  refine Prog.Meets.perform fun w _ => ⟨trivial, ?_⟩
  refine (useTool_meets _).andThen fun outcome _ _ => ?_
  cases outcome with
  | needsApproval request => exact review_meets call request
  | output v => exact ⟨_, rfl⟩
  | error message => exact ⟨_, rfl⟩
  | terminal v => exact ⟨_, rfl⟩
  | spawnsAgent taskId => exact ⟨_, rfl⟩

/-- The result of the call stands at the end of the thread. -/
def Recorded (l : ReactLoop) (call : ToolCall) (r : ReactLoop × Except LoopError ToolStepResult) :
    Prop :=
  (∃ content, r.1.history = l.history ++ [toolResult call.id call.name content]) ∧
    (r.2 = .ok .continue ∨ r.2 = .ok .terminal)

theorem record_meets (call : ToolCall) (outcome : ToolOutcome) :
    (l.record call outcome).Meets conversation (Prog.Returns fun r _ => l.Recorded call r) () := by
  cases outcome with
  | output v => exact ⟨⟨_, rfl⟩, .inl rfl⟩
  | error message => exact ⟨⟨_, rfl⟩, .inl rfl⟩
  | terminal v => exact ⟨⟨_, rfl⟩, .inr rfl⟩
  | needsApproval request => exact ⟨⟨_, rfl⟩, .inl rfl⟩
  | spawnsAgent taskId =>
    exact Prog.Meets.perform fun w _ => ⟨trivial, ⟨_, rfl⟩, .inl rfl⟩

theorem beforeToolCall_meets (ctx : TurnContext) (call : ToolCall) (chain : List Middleware) :
    (beforeToolCall ctx call chain).Meets conversation (Prog.Returns fun _ _ => True) () := by
  induction chain with
  | nil => trivial
  | cons mw chain ih =>
    refine Prog.Meets.perform fun w _ => ⟨trivial, ?_⟩
    split
    · trivial
    · exact ih

theorem runOneTool_meets (ctx : TurnContext) (call : ToolCall) :
    (l.runOneTool ctx call).Meets conversation (Prog.Returns fun r _ => l.Recorded call r) () := by
  refine (beforeToolCall_meets ctx call _).andThen fun gate _ _ => ?_
  cases gate with
  | block reason => exact ⟨⟨_, rfl⟩, .inl rfl⟩
  | allow =>
    refine (dispatch_meets call).andThen fun r _ hOutcome => ?_
    obtain ⟨outcome, rfl⟩ := hOutcome
    exact record_meets call outcome

/-- Some calls of the reply have their results, the others are still to come. -/
def Midway (thread : List ChatMessage) (done rest : List ToolCall) (l : ReactLoop) : Prop :=
  ∃ results, Results done results ∧
    l.history = thread ++ assistantToolCalls (done ++ rest) :: results

theorem Midway.step {thread : List ChatMessage} {done rest : List ToolCall} {call : ToolCall}
    (h : Midway thread done (call :: rest) l) {l' : ReactLoop} {content : String}
    (hResult : l'.history = l.history ++ [toolResult call.id call.name content]) :
    Midway thread (done ++ [call]) rest l' := by
  obtain ⟨results, hResults, hHistory⟩ := h
  refine ⟨results ++ [toolResult call.id call.name content], ?_, ?_⟩
  · exact List.rel_append hResults (.cons ⟨rfl, rfl⟩ .nil)
  · rw [hResult, hHistory, List.append_assoc, List.cons_append, List.append_assoc,
      List.singleton_append]

theorem Midway.ready {thread : List ChatMessage} {done : List ToolCall}
    (hThread : WellFormed thread) (hNodup : (done.map (·.id)).Nodup) (h : Midway thread done [] l) : l.Ready := by
  obtain ⟨results, hResults, hHistory⟩ := h
  rw [Ready, hHistory, List.append_nil]
  exact hThread.append (hResults.block hNodup)

/-- By induction on the calls that are left. -/
theorem runTools_ready {thread : List ChatMessage} (hThread : WellFormed thread) (ctx : TurnContext)
    {done rest : List ToolCall} (hNodup : ((done ++ rest).map (·.id)).Nodup) (terminalSeen : Bool)
    (h : Midway thread done rest l) :
    (runTools ctx l terminalSeen rest).Meets conversation
      (Prog.Returns fun e _ => e.loop.Ready) () := by
  induction rest generalizing l done terminalSeen with
  | nil =>
    rw [List.append_nil] at hNodup
    rw [runTools]
    cases terminalSeen <;> exact h.ready hThread hNodup
  | cons call rest ih =>
    rw [runTools]
    refine (runOneTool_meets ctx call).andThen fun r _ hRecorded => ?_
    obtain ⟨⟨content, hResult⟩, hStep⟩ := hRecorded
    have hNext := h.step hResult
    rw [← List.singleton_append, ← List.append_assoc] at hNodup
    obtain ⟨l', step⟩ := r
    obtain rfl | rfl := hStep
    · exact ih hNodup terminalSeen hNext
    · exact ih hNodup true hNext

theorem actOn_ready {thread : List ChatMessage} (hThread : WellFormed thread)
    {calls : List ToolCall} (hNames : ∀ call ∈ calls, call.name ≠ "") (hNodup : (calls.map (·.id)).Nodup)
    (hHistory : l.history = thread ++ [assistantToolCalls calls]) (hCalls : calls ≠ []) :
    (l.actOn calls).Meets conversation (Prog.Returns fun e _ => e.loop.Ready) () := by
  have hNone : calls.find? (·.name = "") = none :=
    List.find?_eq_none.mpr fun call hCall => by simpa using hNames call hCall
  rw [actOn, if_neg hCalls, hNone]
  exact @runTools_ready _ _ hThread _ [] _ hNodup false ⟨[], .nil, hHistory⟩

theorem actOn_nil : l.actOn [] = .done (.stop l (.ok ())) := rfl

theorem converse_ready (h : l.Ready) :
    l.converse.Meets conversation (Prog.Returns fun e _ => e.loop.Ready) () := by
  refine Prog.Meets.perform fun w hSound => ⟨h, ?_⟩
  cases hReply : w.stream.bind Reply.empty.read with
  | error e => exact h
  | ok reply =>
    by_cases hCalls : reply.toolCalls = []
    · have hReady : (l.push reply.message).Ready :=
        WellFormed.push h reply.message_role (reply.message_toolCalls.trans hCalls)
      simp only [hCalls, actOn_nil]
      cases reply.finishReason with
      | toolCalls => exact hReady
      | stop => exact finish_ready hReady
      | length => exact finish_ready hReady
      | other reason => exact finish_ready hReady
    · simp only [conversation, Steady, hReply] at hSound
      obtain ⟨hFinish, hNames, hNodup⟩ := hSound hCalls
      simp only [hFinish]
      refine actOn_ready h hNames hNodup ?_ hCalls
      rw [push, Reply.message, if_pos hCalls]

theorem takeTurn_ready (h : l.Ready) :
    l.takeTurn.Meets conversation (Prog.Returns fun e _ => e.loop.Ready) () :=
  takeTurn_rule (I := fun l _ => l.Ready) (J := fun l _ => l.Ready)
    (fun _ _ => ⟨trivial, h, fun _ _ _ => h⟩)
    fun _ h => (reflect_ready h).andThen fun _ _ hReflected => converse_ready hReflected

theorem drive_ready (turns : Nat) (h : l.Ready) :
    (drive turns l).Meets conversation (Prog.Returns fun r _ => r.1.Ready) () :=
  drive_rule (I := fun l _ => l.Ready) (fun _ _ h => takeTurn_ready h) turns h

theorem flush_meets (h : l.Ready) :
    l.flush.Meets conversation (Prog.Returns fun _ _ => True) () := by
  rw [flush]
  cases l.config.sessionId with
  | none => trivial
  | some sid =>
    simp only [ask_lock]
    refine fun w _ => ⟨h, ?_⟩
    cases hAnswer : w.authority.answer
      (Section.decide w.authority (.operation (.flushThread sid l.history))) <;>
      simp only [hAnswer] <;> trivial

theorem markRunRunning_only (runId : RunId) : (ask (markRunRunning runId)).Only SendsWellFormed :=
  have hCheck : SendsWellFormed (.locked (.runStatus runId)) := trivial
  have hMark : SendsWellFormed (.locked (.markRunning runId)) := trivial
  ask_quiet (checkThen_only hCheck hMark)

theorem run_meets (h : l.Ready) : l.run.Meets conversation (fun _ _ => True) () := by
  refine Prog.Meets.bind (Q := fun _ _ => True)
    (quiet_meets (markRunRunning_only _) fun _ => trivial) (fun _ _ _ => ?_) fun _ _ _ => trivial
  refine (drive_ready _ h).andThen fun r _ hDriven => ?_
  exact (flush_meets hDriven).andThen fun _ _ _ => quiet_meets (settle_only trivial trivial fun _ => trivial) fun _ => trivial

end ReactLoop

/-- The threads that a run writes to the session. -/
def flushed (sid : SessionId) (tr : List (Act × World)) : List (List ChatMessage) :=
  tr.filterMap fun e =>
    match e.1 with
    | .locked (.operation (.flushThread sid' thread)) => if sid' = sid then some thread else none
    | _ => none

theorem mem_flushed {sid : SessionId} {tr : List (Act × World)} {thread : List ChatMessage}
    (h : thread ∈ flushed sid tr) :
    ∃ e ∈ tr, e.1 = .locked (.operation (.flushThread sid thread)) := by
  obtain ⟨⟨x, w⟩, he, hx⟩ := List.mem_filterMap.mp h
  refine ⟨_, he, ?_⟩
  split at hx
  · rename_i hAct
    split at hx
    · rename_i hSame
      rw [hAct, hSame, Option.some.inj hx]
    · cases hx
  · cases hx

/-- Runs of one session, each on the thread that the one before has left. -/
inductive SessionRuns (sid : SessionId) : List ChatMessage → List (List (Act × World)) → Prop where
  | nil {thread : List ChatMessage} : SessionRuns sid thread []
  | run {runId : RunId} {config : LoopConfig} {thread next : List ChatMessage}
      {tr rest : List (Act × World)} {result : Except LoopError Unit}
      {runs : List (List (Act × World))} (hThread : config.initialThread.getD [] = thread)
      (hRun : Prog.Yields (ReactLoop.new runId config).run (tr ++ rest) result)
      (hNext : next = thread ∨ next ∈ flushed sid tr) (hRuns : SessionRuns sid next runs) :
      SessionRuns sid thread (tr :: runs)

/-- The runs of a session that are steady send well-formed threads only. -/
theorem session_wellFormed {sid : SessionId} {thread : List ChatMessage}
    {runs : List (List (Act × World))} (hThread : WellFormed thread)
    (hRuns : SessionRuns sid thread runs) (hSteady : ∀ tr ∈ runs, ∀ e ∈ tr, Steady e.1 e.2) :
    ∀ tr ∈ runs, ∀ e ∈ tr, SendsWellFormed e.1 := by
  induction hRuns with
  | nil => simp
  | run hInitial hRun hNext _ ih =>
    rename_i runId config thread next tr rest result runs _
    have hReady : (ReactLoop.new runId config).Ready :=
      ReactLoop.new_ready runId (hInitial ▸ hThread)
    have hSends : ∀ e ∈ tr, SendsWellFormed e.1 :=
      ((ReactLoop.run_meets hReady).sound_start hRun
        (Watch.along_of_forall fun _ => hSteady tr List.mem_cons_self)).forall fun _ _ _ h => h
    have hNextThread : WellFormed next := by
      obtain rfl | hFlushed := hNext
      · exact hThread
      · obtain ⟨e, he, hFlush⟩ := mem_flushed hFlushed
        have hSent := hSends e he
        rw [hFlush] at hSent
        exact hSent
    intro tr' hTr'
    obtain rfl | hTr' := List.mem_cons.mp hTr'
    · exact hSends
    · exact ih hNextThread (fun tr h => hSteady tr (List.mem_cons_of_mem _ h)) tr' hTr'

section Examples

def chatRun : RunId := ⟨"run"⟩

def chat : SessionId := ⟨"chat"⟩

def streaming (events : List LlmEvent) : World where
  authority :=
    let run := Run.new chatRun ⟨"home"⟩ none (some chat) .null 0
    .start (Snapshot.empty.setRun chatRun { run with status := .running }) .empty [] []
  streams := [.ok events]
  gates := []
  outcomes := []
  children := []
  reviewIds := []

def chatConfig : LoopConfig where
  model := "model"
  systemPrompt := none
  userInput := "list the files"
  maxTurns := 9
  temperature := none
  reasoningEffort := none
  tools := emptyDispatcher
  thinking := none
  initialThread := none
  sessionId := some chat
  reflection := none
  critic := none
  middleware := []
  texts := ⟨fun _ => "null", fun _ => none, fun _ => "", ""⟩

def callsTool (finishReason : FinishReason) : World :=
  streaming [.toolCallDelta 0 (some "call") (some "ls") (some "{}"), .done finishReason]

instance : Nonempty World := ⟨streaming []⟩

def chatTrace (worlds : List World) : List (Act × World) :=
  (ReactLoop.new chatRun chatConfig).run.facing worlds

theorem chatTrace_runs (worlds : List World) : SessionRuns chat [] [chatTrace worlds] := by
  obtain ⟨rest, r, hRun⟩ := (ReactLoop.new chatRun chatConfig).run.exists_yields_facing worlds
  exact .run rfl hRun (.inl rfl) .nil

/-- A provider that calls a tool and finishes with another reason: the call is handed back to the
session without a result. -/
theorem call_without_result :
    ¬∀ (sid : SessionId) (thread : List ChatMessage) (runs : List (List (Act × World))),
      WellFormed thread → SessionRuns sid thread runs →
        ∀ tr ∈ runs, ∀ e ∈ tr, SendsWellFormed e.1 := by
  intro h
  let tr := chatTrace [streaming [], streaming [], callsTool .stop, streaming []]
  let call : ToolCall := ⟨"call", "ls", "{}"⟩
  have hSent := h chat [] [tr] .nil (chatTrace_runs _) tr List.mem_cons_self
  have hFlush : ∃ w, (Act.locked (.operation (.flushThread chat
      [user "list the files", assistantToolCalls [call]])), w) ∈ tr :=
    ⟨streaming [], List.mem_of_getElem? (i := 3) rfl⟩
  obtain ⟨w, hFlush⟩ := hFlush
  have hAnswered := (hSent _ hFlush).answered [_] _ [] rfl "call" ⟨rfl, call, List.mem_cons_self, rfl⟩
  cases hAnswered

/-- A turn with a call, whose result goes into the next request. -/
theorem call_with_result :
    (chatTrace [streaming [], streaming [], callsTool .toolCalls, streaming [], streaming [],
      streaming [.delta "no files", .done .stop], streaming []]).Forall
        fun e => SendsWellFormed e.1 := by
  refine List.forall_iff_forall_mem.mpr
    (session_wellFormed .nil (chatTrace_runs _) (fun tr hTr => ?_) _ List.mem_cons_self)
  obtain rfl := List.mem_singleton.mp hTr
  have hSound : Steady (.stream chatRun .turn (ReactLoop.new chatRun chatConfig).request)
      (callsTool .toolCalls) := fun _ => ⟨rfl, by decide, by decide⟩
  exact List.forall_iff_forall_mem.mp (.intro trivial (.intro trivial (.intro hSound
    (.intro trivial (.intro trivial (.intro (absurd rfl) trivial))))))

end Examples

end Cronymax.Agent
