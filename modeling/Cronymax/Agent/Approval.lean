import Cronymax.Agent.Dispatcher
import Cronymax.Agent.Conversation

/-! What has to come before a handler is run.  The loop asks the whole middleware chain, dispatches the
call, and where the tool needs approval opens a review of this very call and finds it approved. -/

namespace Cronymax.Agent

open Atomic Authority

/-- The gates of the chain are passed in order, and the last one lets the call through. -/
def Gated (ctx : TurnContext) (call : ToolCall) (chain : List Middleware)
    (gates : List (Act × World)) : Prop :=
  gates.map (·.1) = chain.map (Act.beforeToolCall ctx · call) ∧ ∀ e ∈ gates, e.2.gate = .allow

/-- A review of this request has been opened, waited for and approved. -/
inductive Approved (runId : RunId) (call : ToolCall) (request : Value) :
    List (Act × World) → Prop where
  | intro {drawn opened parked decided dispatched : World} {reply : Authority.Reply}
      {resolution : ReviewResolution}
      (hOpened : opened.authority.answer (Section.decide opened.authority
        (.operation (.openReview runId (ReactLoop.reviewRequest call request) drawn.reviewId))) =
          .ok reply)
      (hResolved : decided.resolution? ⟨parked.authority.completions⟩ = some resolution)
      (hApproved : resolution.decision = .approved) :
      Approved runId call request
        [(.drawReview, drawn),
          (.locked (.operation
            (.openReview runId (ReactLoop.reviewRequest call request) drawn.reviewId)), opened),
          (.locked (.registerCompletion drawn.reviewId), parked),
          (.awaitReview ⟨parked.authority.completions⟩, decided),
          (.dispatchApproved runId call, dispatched)]

/-- What comes before a tool: nothing, or an approval where it needs one. -/
inductive Passed (runId : RunId) (call : ToolCall) (handler : Handler) :
    Bool → List (Act × World) → Prop where
  | direct : Passed runId call handler false []
  | approved {steps : List (Act × World)}
      (hApproved : Approved runId call (approvalRequest call) steps) :
      Passed runId call handler true steps
  | again {w : World} {request : Value} {steps : List (Act × World)}
      (hAsks : w.outcome = .needsApproval request)
      (hApproved : Approved runId call request steps) :
      Passed runId call handler false ((.tool (.handle handler call.arguments), w) :: steps)

/-- The handler runs for a call that has passed the gates and has its approval. -/
inductive Cleared (calls : List BuilderCall) (runId : RunId) (chain : List Middleware) :
    List (Act × World) → Handler → String → Prop where
  | intro {ctx : TurnContext} {call : ToolCall} {definition : ToolDef} {needsApproval : Bool}
      {handler : Handler} {earlier gates steps : List (Act × World)} {w : World}
      (hGated : Gated ctx call chain gates)
      (hRegistered :
        (registrations calls)[handler.number]? = some (definition, needsApproval))
      (hName : definition.name = call.name)
      (hAllowed : (DispatcherBuilder.after calls).allowedTools ≠ [] →
        call.name ∈ (DispatcherBuilder.after calls).allowedTools)
      (hPassed : Passed runId call handler needsApproval steps) :
      Cleared calls runId chain (earlier ++ gates ++ (.dispatch runId call, w) :: steps) handler
        call.arguments

/-- Every tool of the builder comes from a registration under its name. -/
structure Registered (calls : List BuilderCall) (b : DispatcherBuilder) : Prop where
  handlers : b.handlers = (registrations calls).length
  tools : ∀ name reg, b.tools.lookup name = some reg → reg.definition.name = name ∧
    (registrations calls)[reg.handler.number]? = some (reg.definition, reg.needsApproval)

theorem registrations_append (calls : List BuilderCall) (c : BuilderCall) :
    registrations (calls ++ [c]) = registrations calls ++ registrations [c] :=
  List.filterMap_append

theorem registered_step {calls : List BuilderCall} {b : DispatcherBuilder} (h : Registered calls b)
    (c : BuilderCall) : Registered (calls ++ [c]) (b.step c) := by
  cases c with
  | setAllowedTools names =>
    have hSame : registrations (calls ++ [.setAllowedTools names]) = registrations calls := by
      rw [registrations_append]
      exact List.append_nil _
    have hParts : (b.setAllowedTools names).handlers = b.handlers ∧
        (b.setAllowedTools names).tools = b.tools := by
      rw [DispatcherBuilder.setAllowedTools]
      split <;> exact ⟨rfl, rfl⟩
    refine ⟨?_, fun name reg hReg => ?_⟩
    · rw [DispatcherBuilder.step, hSame, hParts.1, h.handlers]
    · rw [DispatcherBuilder.step, hParts.2] at hReg
      rw [hSame]
      exact h.tools name reg hReg
  | register definition needsApproval =>
    have hMore : registrations (calls ++ [.register definition needsApproval]) =
        registrations calls ++ [(definition, needsApproval)] := registrations_append _ _
    refine ⟨?_, fun name reg hReg => ?_⟩
    · rw [hMore, List.length_append, ← h.handlers]
      rfl
    · rw [DispatcherBuilder.step, DispatcherBuilder.register, Table.lookup_insert_if] at hReg
      rw [hMore]
      split at hReg
      · rename_i hName
        obtain rfl := Option.some.inj hReg
        refine ⟨hName.symm, ?_⟩
        rw [h.handlers, List.getElem?_append_right (le_refl _), Nat.sub_self]
        rfl
      · obtain ⟨hName, hSource⟩ := h.tools name reg hReg
        refine ⟨hName, ?_⟩
        rw [List.getElem?_append_left (List.getElem?_eq_some_iff.mp hSource).1]
        exact hSource

theorem after_registered (calls : List BuilderCall) : Registered calls (.after calls) := by
  induction calls using List.reverseRecOn with
  | nil => exact ⟨rfl, fun name reg h => by simp [DispatcherBuilder.after, DispatcherBuilder.new] at h⟩
  | append_singleton calls c ih =>
    rw [DispatcherBuilder.after, List.foldl_append]
    exact registered_step ih c

theorem build_tools {calls : List BuilderCall} {name : String} {reg : RegisteredTool}
    (h : (DispatcherBuilder.after calls).build.tools.lookup name = some reg) :
    (reg.definition.name = name ∧
      (registrations calls)[reg.handler.number]? = some (reg.definition, reg.needsApproval)) ∧
      ((DispatcherBuilder.after calls).allowedTools ≠ [] →
        name ∈ (DispatcherBuilder.after calls).allowedTools) := by
  have hRegistered := after_registered calls
  rw [DispatcherBuilder.build] at h
  simp only at h
  split at h
  · rename_i hAll
    exact ⟨hRegistered.tools name reg h, fun hSome => absurd hAll hSome⟩
  · rw [Table.lookup_filterMap] at h
    obtain ⟨reg', hReg, hAllowed⟩ := Option.bind_eq_some_iff.mp h
    split at hAllowed
    · rename_i hMem
      obtain rfl := Option.some.inj hAllowed
      exact ⟨hRegistered.tools name reg' hReg, fun _ => hMem⟩
    · cases hAllowed

/-- Watches a run of the loop for handlers that are called without their approval. -/
def approval (calls : List BuilderCall) (runId : RunId) (chain : List Middleware) :
    Watch (List (Act × World)) Act World where
  assumes _ _ _ := True
  demands past x _ :=
    match x with
    | .tool (.handle handler arguments) => Cleared calls runId chain past handler arguments
    | _ => True
  next past x w := past ++ [(x, w)]

section Watched

variable {calls : List BuilderCall} {runId : RunId} {chain : List Middleware}
  {past : List (Act × World)}

theorem Gated.nil {ctx : TurnContext} {call : ToolCall} : Gated ctx call [] [] :=
  ⟨rfl, fun _ h => nomatch h⟩

theorem Gated.cons {ctx : TurnContext} {call : ToolCall} {mw : Middleware} {chain : List Middleware}
    {gates : List (Act × World)} {w : World} (hGate : w.gate = .allow)
    (h : Gated ctx call chain gates) :
    Gated ctx call (mw :: chain) ((.beforeToolCall ctx mw call, w) :: gates) where
  left := by rw [List.map_cons, List.map_cons, h.1]
  right e he := by
    obtain rfl | he := List.mem_cons.mp he
    · exact hGate
    · exact h.2 e he

/-- By induction on the part of the chain that is left. -/
theorem beforeToolCall_watched (ctx : TurnContext) (call : ToolCall) (rest : List Middleware) :
    (ReactLoop.beforeToolCall ctx call rest).Meets (approval calls runId chain)
      (Prog.Returns fun gate past' =>
        gate = .allow → ∃ gates, past' = past ++ gates ∧ Gated ctx call rest gates) past := by
  induction rest generalizing past with
  | nil => exact fun _ => ⟨[], (List.append_nil past).symm, .nil⟩
  | cons mw rest ih =>
    refine Prog.Meets.perform fun w _ => ⟨trivial, ?_⟩
    split
    · exact nofun
    · rename_i hGate
      refine ih.mono fun r past' hReturns => ?_
      cases r with
      | error e => exact hReturns
      | ok gate =>
        intro hAllow
        obtain ⟨gates, rfl, hGated⟩ := hReturns hAllow
        exact ⟨_ :: gates, List.append_assoc _ _ _, hGated.cons hGate⟩

/-- What has to lie in the past of a handler's run. -/
def Clears (calls : List BuilderCall) (runId : RunId) (chain : List Middleware)
    (past : List (Act × World)) (call : ToolCall) (request : Value) : Prop :=
  ∀ reg, (DispatcherBuilder.after calls).build.tools.lookup call.name = some reg →
    ∀ steps, Approved runId call request steps →
      Cleared calls runId chain (past ++ steps) reg.handler call.arguments

theorem dispatch_watched {ctx : TurnContext} {call : ToolCall} {earlier gates : List (Act × World)}
    {w : World} (hGated : Gated ctx call chain gates)
    (hPast : past = earlier ++ gates ++ [(.dispatch runId call, w)]) :
    (useTool ((DispatcherBuilder.after calls).build.dispatch call)).Meets
      (approval calls runId chain)
      (Prog.Returns fun outcome past' => ∀ request, outcome = .needsApproval request →
        Clears calls runId chain past' call request) past := by
  rw [HostCapabilityDispatcher.dispatch]
  cases hLookup : (DispatcherBuilder.after calls).build.tools.lookup call.name with
  | none => exact nofun
  | some reg =>
    obtain ⟨⟨hName, hRegistered⟩, hAllowed⟩ := build_tools hLookup
    simp only
    split
    · rename_i hNeeds
      rintro request ⟨⟩ reg' hReg steps hApproved
      obtain rfl := Option.some.inj (hLookup.symm.trans hReg)
      rw [hNeeds] at hRegistered
      rw [hPast, List.append_assoc, List.singleton_append]
      exact .intro hGated hRegistered hName hAllowed (.approved hApproved)
    · rename_i hNeeds
      rw [Bool.not_eq_true] at hNeeds
      rw [hNeeds] at hRegistered
      refine fun v _ => ⟨?_, ?_⟩
      · rw [hPast]
        exact .intro hGated hRegistered hName hAllowed .direct
      · intro request hAsks reg' hReg steps hApproved
        obtain rfl := Option.some.inj (hLookup.symm.trans hReg)
        have hCleared : Cleared calls runId chain
            (earlier ++ gates ++ (.dispatch runId call, w) ::
              ((.tool (.handle reg.handler call.arguments), v) :: steps))
            reg.handler call.arguments :=
          .intro hGated hRegistered hName hAllowed (.again hAsks hApproved)
        simpa only [hPast, approval, List.append_assoc, List.cons_append, List.nil_append]
          using hCleared

variable {config : LoopConfig} {l : ReactLoop} (hLoop : IsLoop runId config l)
  (hTools : config.tools = (DispatcherBuilder.after calls).build.toolDispatcher)

include hLoop hTools

theorem resume_watched {call : ToolCall} {resolution : ReviewResolution}
    (hClears : ∀ reg,
      (DispatcherBuilder.after calls).build.tools.lookup call.name = some reg →
        ∀ w, resolution.decision = .approved → Cleared calls runId chain
          (past ++ [(.dispatchApproved runId call, w)]) reg.handler call.arguments) :
    (l.resume call resolution).Meets (approval calls runId chain) (Prog.Returns fun _ _ => True)
      past := by
  rw [ReactLoop.resume]
  split
  · rename_i hApproved
    refine Prog.Meets.perform fun w _ => ⟨trivial, ?_⟩
    rw [hLoop.config, hTools, hLoop.runId]
    show ((useTool ((DispatcherBuilder.after calls).build.dispatchApproved call)) >>= _).Meets _ _ _
    rw [HostCapabilityDispatcher.dispatchApproved]
    cases hLookup : (DispatcherBuilder.after calls).build.tools.lookup call.name with
    | none => trivial
    | some reg => exact fun v _ => ⟨hClears reg hLookup w hApproved, trivial⟩
  · trivial
  · trivial
  · trivial

theorem review_watched {call : ToolCall} {request : Value}
    (hClears : Clears calls runId chain past call request) :
    (l.review call request).Meets (approval calls runId chain) (Prog.Returns fun _ _ => True)
      past := by
  refine Prog.Meets.perform fun drawn _ => ⟨trivial, ?_⟩
  rw [ask_openReview]
  refine fun opened _ => ⟨trivial, ?_⟩
  cases hOpened : opened.authority.answer (Section.decide opened.authority
    (.operation (.openReview l.runId (ReactLoop.reviewRequest call request) drawn.reviewId))) with
  | error e =>
    simp only [hOpened]
    trivial
  | ok reply =>
    simp only [hOpened]
    refine fun parked _ => ⟨trivial, ?_⟩
    refine Prog.Meets.perform fun decided _ => ⟨trivial, ?_⟩
    cases hResolved : decided.resolution? ⟨parked.authority.completions⟩ with
    | none => trivial
    | some resolution =>
      refine resume_watched hLoop hTools fun reg hReg dispatched hApproved => ?_
      rw [hLoop.runId] at hOpened ⊢
      simpa [approval] using hClears reg hReg _ (.intro hOpened hResolved hApproved)

theorem runOneTool_watched (ctx : TurnContext) (call : ToolCall) :
    (l.runOneTool ctx call).Meets (approval calls runId config.middleware)
      (Prog.Returns fun r _ => IsLoop runId config r.1 ∧ True) past := by
  refine (beforeToolCall_watched ctx call _).andThen fun gate past' hGates => ?_
  cases gate with
  | block reason => exact ⟨⟨hLoop.runId, hLoop.config⟩, trivial⟩
  | allow =>
    obtain ⟨gates, rfl, hGated⟩ := hGates rfl
    rw [hLoop.config] at hGated
    refine Prog.Meets.andThen (P := fun _ _ => True) ?_ fun r _ _ => ?_
    · refine Prog.Meets.perform fun w _ => ⟨trivial, ?_⟩
      rw [hLoop.config, hTools, hLoop.runId]
      refine (dispatch_watched hGated rfl).andThen fun outcome past' hClears => ?_
      cases outcome with
      | needsApproval request => exact review_watched hLoop hTools (hClears request rfl)
      | output v | error message | terminal v | spawnsAgent taskId => trivial
    · cases r with
      | error e => exact ⟨hLoop, trivial⟩
      | ok outcome =>
        exact ReactLoop.record_rule (isLoop_kept _ _) (fun _ _ _ _ => ⟨trivial, trivial⟩) hLoop call outcome trivial

theorem run_watched :
    l.run.Meets (approval calls runId config.middleware) (fun _ _ => True) past :=
  ReactLoop.run_rule (isLoop_kept _ _) (fun _ ctx call _ hLoop _ => runOneTool_watched hLoop hTools ctx call)
    (fun _ _ _ _ _ => ⟨trivial, trivial⟩) (fun _ _ _ => trivial) (fun _ _ _ _ _ => trivial) hLoop

end Watched

/-- The answer that the access gets refuses the call. -/
def Refuses (x : Act) (w : World) : Prop :=
  match x with
  | .beforeToolCall _ _ _ => w.gate ≠ .allow
  | .awaitReview completion =>
    ∀ resolution, w.resolution? completion = some resolution → resolution.decision ≠ .approved
  | _ => False

theorem Approved.not_refuses {runId : RunId} {call : ToolCall} {request : Value}
    {steps : List (Act × World)} (h : Approved runId call request steps) :
    ∀ e ∈ steps, ¬Refuses e.1 e.2 := by
  obtain ⟨hOpened, hResolved, hApproved⟩ := h
  intro e he hRefuses
  simp only [List.mem_cons, List.not_mem_nil, or_false] at he
  obtain rfl | rfl | rfl | rfl | rfl := he
  case inr.inr.inr.inl => exact hRefuses _ hResolved hApproved
  all_goals exact hRefuses

theorem Passed.not_refuses {runId : RunId} {call : ToolCall} {handler : Handler} {b : Bool}
    {steps : List (Act × World)} (h : Passed runId call handler b steps) :
    ∀ e ∈ steps, ¬Refuses e.1 e.2 := by
  cases h with
  | direct => exact fun _ he => nomatch he
  | approved hApproved => exact hApproved.not_refuses
  | again hAsks hApproved =>
    intro e he
    obtain rfl | he := List.mem_cons.mp he
    · exact id
    · exact hApproved.not_refuses e he

theorem Cleared.dispatched {calls : List BuilderCall} {runId : RunId} {chain : List Middleware}
    {past before mid : List (Act × World)} {handler : Handler} {arguments : String} {x : Act}
    {w : World} (h : Cleared calls runId chain past handler arguments)
    (hPast : past = before ++ (x, w) :: mid) (hRefuses : Refuses x w) :
    ∃ call v, (Act.dispatch runId call, v) ∈ mid := by
  obtain ⟨hGated, hRegistered, hName, hAllowed, hPassed⟩ := h
  obtain ⟨_, -, rfl⟩ | ⟨-, hSame, -⟩ | ⟨_, -, hSteps⟩ := split_cases hPast
  · exact ⟨_, _, List.mem_append_right _ List.mem_cons_self⟩
  · cases hSame
    exact hRefuses.elim
  · exact absurd hRefuses (hPassed.not_refuses (x, w) (by simp [hSteps]))

theorem approval_after {calls : List BuilderCall} {runId : RunId} {chain : List Middleware}
    (past tr : List (Act × World)) : (approval calls runId chain).after past tr = past ++ tr := by
  induction tr generalizing past with
  | nil => exact (List.append_nil past).symm
  | cons e tr ih => exact (ih _).trans (List.append_assoc _ _ _)

/-- A handler is run only for a call that has passed every gate, an approval if the tool needs one;
after a refusal no handler is run before another call is dispatched. -/
theorem handlers_cleared {calls : List BuilderCall} {runId : RunId} {config : LoopConfig}
    {tr pre post : List (Act × World)} {r : Except LoopError Unit} {handler : Handler}
    {arguments : String} {w : World}
    (hTools : config.tools = (DispatcherBuilder.after calls).build.toolDispatcher)
    (hRun : Prog.Yields (ReactLoop.new runId config).run tr r)
    (hHandle : tr = pre ++ (.tool (.handle handler arguments), w) :: post) :
    Cleared calls runId config.middleware pre handler arguments ∧
      ∀ before x v mid, pre = before ++ (x, v) :: mid → Refuses x v →
        ∃ call v', (Act.dispatch runId call, v') ∈ mid := by
  have hMeets : (ReactLoop.new runId config).run.Meets (approval calls runId config.middleware)
      (fun _ _ => True) [] := run_watched ⟨rfl, rfl⟩ hTools
  have hAlong := (hMeets.sound hRun (Watch.along_of_forall fun _ _ _ => trivial)).1
  rw [hHandle] at hAlong
  have hCleared := hAlong.at
  rw [approval_after, List.nil_append] at hCleared
  exact ⟨hCleared, fun _ _ _ _ hSplit hRefuses => Cleared.dispatched hCleared hSplit hRefuses⟩

section Examples

def listing : List BuilderCall := [.register ⟨"ls", "list the files", .null⟩ true]

def approving : World :=
  let w := streaming []
  { w with authority := { w.authority with resolutions := [(⟨0⟩, ⟨.approved, none⟩)] } }

def listingConfig : LoopConfig :=
  { chatConfig with tools := (DispatcherBuilder.after listing).build.toolDispatcher }

def listingTrace : List (Act × World) :=
  (ReactLoop.new chatRun listingConfig).run.facing
    [streaming [], streaming [], callsTool .toolCalls, streaming [], streaming [], streaming [],
      streaming [], approving, streaming []]

/-- A call that is approved before its handler runs. -/
theorem listing_cleared :
    Cleared listing chatRun [] listingTrace ⟨0⟩ "{}" := by
  obtain ⟨rest, r, hRun⟩ := (ReactLoop.new chatRun listingConfig).run.exists_yields_facing
    [streaming [], streaming [], callsTool .toolCalls, streaming [], streaming [], streaming [],
      streaming [], approving, streaming [], streaming []]
  exact (handlers_cleared rfl hRun rfl).1

end Examples

end Cronymax.Agent
