import Cronymax.Agent.Loop

/-! Rules for watching the loop: what every tool call keeps, and requests and waiting for children with
it, a turn keeps; what every turn keeps, the loop keeps. -/

namespace Cronymax.Agent

open Atomic Authority

/-- A loop of the run with the configuration. -/
structure IsLoop (runId : RunId) (config : LoopConfig) (l : ReactLoop) : Prop where
  runId : l.runId = runId
  config : l.config = config

/-- A property of loops of the run that turns keep, whatever they push and count. -/
structure Kept (runId : RunId) (K : ReactLoop → Prop) : Prop where
  runId : ∀ {l : ReactLoop}, K l → l.runId = runId
  push : ∀ {l : ReactLoop}, K l → ∀ m, K (l.push m)
  count : ∀ {l : ReactLoop}, K l → ∀ turn consecutiveFailures criticRevisionsRemaining,
    K { l with turn, consecutiveFailures, criticRevisionsRemaining }

theorem isLoop_kept (runId : RunId) (config : LoopConfig) : Kept runId (IsLoop runId config) where
  runId h := h.runId
  push h _ := ⟨h.runId, h.config⟩
  count h _ _ _ := ⟨h.runId, h.config⟩

/-- The action meets the demands of the watch and keeps the invariant. -/
def Passes {M : Type} (W : Watch M Act World) (I : M → Prop) (x : Act) : Prop :=
  ∀ m w, I m → W.demands m x w ∧ I (W.next m x w)

namespace ReactLoop

theorem flush_isLocked (l : ReactLoop) : l.flush.Only IsLocked := by
  rw [flush]
  cases l.config.sessionId with
  | none => trivial
  | some sid => exact (ask_isLocked _).attempt.bind fun _ => trivial

theorem settle_only {C : Act → Prop} {l : ReactLoop} {result : Except LoopError Unit}
    (hCheck : C (.locked (.runStatus l.runId))) (hComplete : C (.locked (.complete l.runId)))
    (hFail : ∀ message, C (.locked (.fail l.runId message))) : (l.settle result).Only C := by
  cases result with
  | ok _ =>
    have hOnly : (ask (completeRun l.runId)).Only C := Prog.Only.within (checkThen_only hCheck hComplete)
    exact hOnly.attempt.bind fun _ => trivial
  | error e =>
    have hOnly : ∀ message, (ask (failRun l.runId message)).Only C := fun message =>
      Prog.Only.within (checkThen_only hCheck (hFail message))
    cases e with
    | cancelled => trivial
    | authority _ | provider _ | maxTurnsExceeded _ | reviewChannelClosed =>
      exact (hOnly _).attempt.bind fun _ => trivial

theorem settle_isLocked (l : ReactLoop) (result : Except LoopError Unit) :
    (l.settle result).Only IsLocked := settle_only ⟨_, rfl⟩ ⟨_, rfl⟩ fun _ => ⟨_, rfl⟩

/-- The actions of a tool call. -/
inductive ToolStep (runId : RunId) : Act → Prop where
  | beforeToolCall (ctx : TurnContext) (middleware : Middleware) (call : ToolCall) :
    ToolStep runId (.beforeToolCall ctx middleware call)
  | dispatch (call : ToolCall) : ToolStep runId (.dispatch runId call)
  | dispatchApproved (call : ToolCall) : ToolStep runId (.dispatchApproved runId call)
  | tool (x : ToolAct) : ToolStep runId (.tool x)
  | drawReview : ToolStep runId .drawReview
  | openReview (request : Value) (drawn : ReviewId) :
    ToolStep runId (.locked (.operation (.openReview runId request drawn)))
  | registerCompletion (reviewId : ReviewId) :
    ToolStep runId (.locked (.registerCompletion reviewId))
  | awaitReview (completion : Completion) : ToolStep runId (.awaitReview completion)
  | awaitChild (taskId : String) : ToolStep runId (.awaitChild taskId)

section Tools

variable {M : Type} {W : Watch M Act World} {I : M → Prop} {runId : RunId} {K : ReactLoop → Prop}
  {l : ReactLoop} {m : M} (hStep : ∀ x, ToolStep runId x → Passes W I x)

include hStep

theorem useTool_rule (op : Prog ToolAct World Empty ToolOutcome) (hm : I m) :
    (useTool op).Meets W (Prog.Returns fun _ m => I m) m := by
  rw [useTool]
  induction op generalizing m with
  | done outcome => exact hm
  | fail e => exact e.elim
  | act x next ih =>
    intro w _
    obtain ⟨hDemands, hNext⟩ := hStep _ (.tool x) m w hm
    exact ⟨hDemands, ih w hNext⟩

theorem beforeToolCall_rule (ctx : TurnContext) (call : ToolCall) (chain : List Middleware)
    (hm : I m) : (beforeToolCall ctx call chain).Meets W (Prog.Returns fun _ m => I m) m := by
  induction chain generalizing m with
  | nil => exact hm
  | cons mw chain ih =>
    refine Prog.Meets.perform fun w _ => ?_
    obtain ⟨hDemands, hNext⟩ := hStep _ (.beforeToolCall ctx mw call) m w hm
    refine ⟨hDemands, ?_⟩
    split
    · exact hNext
    · exact ih hNext

theorem resume_rule (hRun : l.runId = runId) (call : ToolCall) (resolution : ReviewResolution)
    (hm : I m) : (l.resume call resolution).Meets W (Prog.Returns fun _ m => I m) m := by
  rw [resume]
  split
  · refine Prog.Meets.perform fun w _ => ?_
    rw [hRun]
    obtain ⟨hDemands, hNext⟩ := hStep _ (.dispatchApproved call) m w hm
    exact ⟨hDemands, (useTool_rule hStep _ hNext).andThen fun _ _ hm => hm⟩
  · exact hm
  · exact hm
  · exact hm

theorem review_rule (hRun : l.runId = runId) (call : ToolCall) (request : Value) (hm : I m) :
    (l.review call request).Meets W (Prog.Returns fun _ m => I m) m := by
  refine Prog.Meets.perform fun drawn _ => ?_
  obtain ⟨hDemands, hm⟩ := hStep _ .drawReview m drawn hm
  refine ⟨hDemands, ?_⟩
  rw [ask_openReview, hRun]
  intro opened _
  obtain ⟨hDemands, hm⟩ := hStep _ (.openReview (reviewRequest call request) drawn.reviewId) _ opened hm
  refine ⟨hDemands, ?_⟩
  cases hOpened : opened.authority.answer (Section.decide opened.authority
    (.operation (.openReview runId (reviewRequest call request) drawn.reviewId))) with
  | error e =>
    simp only [hOpened]
    exact hm
  | ok reply =>
    simp only [hOpened]
    intro parked _
    obtain ⟨hDemands, hm⟩ := hStep _ (.registerCompletion drawn.reviewId) _ parked hm
    refine ⟨hDemands, ?_⟩
    refine Prog.Meets.perform fun decided _ => ?_
    obtain ⟨hDemands, hm⟩ := hStep _ (.awaitReview ⟨parked.authority.completions⟩) _ decided hm
    refine ⟨hDemands, ?_⟩
    split
    · exact hm
    · exact resume_rule hStep hRun call _ hm

theorem dispatch_rule (hRun : l.runId = runId) (call : ToolCall) (hm : I m) :
    (l.dispatch call).Meets W (Prog.Returns fun _ m => I m) m := by
  refine Prog.Meets.perform fun w _ => ?_
  rw [hRun]
  obtain ⟨hDemands, hm⟩ := hStep _ (.dispatch call) m w hm
  refine ⟨hDemands, (useTool_rule hStep _ hm).andThen fun outcome m hm => ?_⟩
  cases outcome with
  | needsApproval request => exact review_rule hStep hRun call request hm
  | output v | error message | terminal v | spawnsAgent taskId => exact hm

omit hStep in
theorem record_rule (hKept : Kept runId K) (hChild : ∀ taskId, Passes W I (.awaitChild taskId))
    (hLoop : K l) (call : ToolCall) (outcome : ToolOutcome) (hm : I m) :
    (l.record call outcome).Meets W (Prog.Returns fun r m => K r.1 ∧ I m) m := by
  have hSame : ∀ failures result, K ({ l with consecutiveFailures := failures }.push result) :=
    fun failures result => hKept.push (hKept.count hLoop l.turn failures l.criticRevisionsRemaining) result
  cases outcome with
  | output v | error message | terminal v => exact ⟨hSame _ _, hm⟩
  | needsApproval request => exact ⟨hSame l.consecutiveFailures _, hm⟩
  | spawnsAgent taskId =>
    refine Prog.Meets.perform fun w _ => ?_
    obtain ⟨hDemands, hNext⟩ := hChild taskId m w hm
    exact ⟨hDemands, hSame _ _, hNext⟩

theorem runOneTool_rule (hKept : Kept runId K) (hLoop : K l) (ctx : TurnContext) (call : ToolCall)
    (hm : I m) : (l.runOneTool ctx call).Meets W (Prog.Returns fun r m => K r.1 ∧ I m) m := by
  refine (beforeToolCall_rule hStep ctx call _ hm).andThen fun gate m hm => ?_
  cases gate with
  | block reason => exact ⟨hKept.push hLoop _, hm⟩
  | allow =>
    refine (dispatch_rule hStep (hKept.runId hLoop) call hm).andThen fun r m hm => ?_
    cases r with
    | error e => exact ⟨hLoop, hm⟩
    | ok outcome => exact record_rule hKept (fun id => hStep _ (.awaitChild id)) hLoop call outcome hm

end Tools

section Turn

variable {M : Type} {W : Watch M Act World} {I : M → Prop} {runId : RunId} {K : ReactLoop → Prop}
  {l : ReactLoop} {m : M}

variable (hKept : Kept runId K)
  (hTool : ∀ l ctx call m, K l → I m →
    (l.runOneTool ctx call).Meets W (Prog.Returns fun r m => K r.1 ∧ I m) m)
  (hStream : ∀ purpose request, Passes W I (.stream runId purpose request))

include hTool in
/-- By induction on the calls that are left. -/
theorem runTools_rule (hLoop : K l) (hm : I m) (ctx : TurnContext)
    (terminalSeen : Bool) (calls : List ToolCall) :
    (runTools ctx l terminalSeen calls).Meets W
      (Prog.Returns fun e m => K e.loop ∧ I m) m := by
  induction calls generalizing l m terminalSeen with
  | nil =>
    rw [runTools]
    cases terminalSeen <;> exact ⟨hLoop, hm⟩
  | cons call calls ih =>
    rw [runTools]
    refine (hTool l ctx call m hLoop hm).andThen fun r m hNext => ?_
    obtain ⟨l', step⟩ := r
    cases step with
    | error e => exact hNext
    | ok step =>
      cases step with
      | «continue» => exact ih hNext.1 hNext.2 terminalSeen
      | terminal => exact ih hNext.1 hNext.2 true
      | cancelled => exact hNext

include hTool in
theorem actOn_rule (hLoop : K l) (hm : I m) (calls : List ToolCall) :
    (l.actOn calls).Meets W (Prog.Returns fun e m => K e.loop ∧ I m) m := by
  rw [actOn]
  split
  · exact ⟨hLoop, hm⟩
  · split
    · exact ⟨hLoop, hm⟩
    · exact runTools_rule hTool hLoop hm _ false _

include hKept in
theorem reflect_rule (hReflection : ∀ request, Passes W I (.stream runId .reflection request))
    (hLoop : K l) (hm : I m) : l.reflect.Meets W (Prog.Returns fun l' m => K l' ∧ I m) m := by
  rw [reflect]
  split
  · split
    · refine Prog.Meets.perform fun w _ => ?_
      obtain ⟨hDemands, hNext⟩ := hReflection _ m w hm
      rw [hKept.runId hLoop]
      refine ⟨hDemands, ?_⟩
      split
      · exact ⟨hLoop, hNext⟩
      · split
        · exact ⟨hLoop, hNext⟩
        · exact ⟨hKept.push (hKept.count hLoop l.turn 0 l.criticRevisionsRemaining) _, hNext⟩
    · exact ⟨hLoop, hm⟩
  · exact ⟨hLoop, hm⟩

include hKept in
theorem runCriticPass_rule (hCritic : ∀ request, Passes W I (.stream runId .critic request))
    (hLoop : K l) (hm : I m) (cfg : CriticConfig) :
    (l.runCriticPass cfg).Meets W (Prog.Returns fun _ m => I m) m := by
  refine Prog.Meets.perform fun w _ => ?_
  obtain ⟨hDemands, hNext⟩ := hCritic _ m w hm
  rw [hKept.runId hLoop]
  refine ⟨hDemands, ?_⟩
  split
  · exact hNext
  · split
    · split <;> exact hNext
    · exact hNext

include hKept in
theorem finish_rule (hCritic : ∀ request, Passes W I (.stream runId .critic request)) (hLoop : K l)
    (hm : I m) : l.finish.Meets W (Prog.Returns fun e m => K e.loop ∧ I m) m := by
  rw [finish]
  split
  · split
    · refine (runCriticPass_rule hKept hCritic hLoop hm _).andThen fun decision m hNext => ?_
      cases decision with
      | needsRevision issues =>
        exact ⟨hKept.push (hKept.count hLoop l.turn l.consecutiveFailures _) _, hNext⟩
      | passed | malformedResponse => exact ⟨hLoop, hNext⟩
    · exact ⟨hLoop, hm⟩
  · exact ⟨hLoop, hm⟩

include hKept hTool hStream in
theorem converse_rule (hLoop : K l) (hm : I m) :
    l.converse.Meets W (Prog.Returns fun e m => K e.loop ∧ I m) m := by
  refine Prog.Meets.perform fun w _ => ?_
  obtain ⟨hDemands, hNext⟩ := hStream .turn l.request m w hm
  rw [hKept.runId hLoop]
  refine ⟨hDemands, ?_⟩
  cases w.stream.bind Reply.empty.read with
  | error e => exact ⟨hLoop, hNext⟩
  | ok reply =>
    have hPushed : K (l.push reply.message) := hKept.push hLoop _
    cases hFinish : reply.finishReason <;> simp only [hFinish]
    case toolCalls => exact actOn_rule hTool hPushed hNext _
    all_goals exact finish_rule hKept (hStream .critic) hPushed hNext

end Turn

variable {M : Type} {W : Watch M Act World} {I J : ReactLoop → M → Prop} {l : ReactLoop} {m : M}

theorem takeTurn_rule
    (hCheck : ∀ w, W.assumes m (.locked (.runStatus l.runId)) w →
      W.demands m (.locked (.runStatus l.runId)) w ∧
        I l (W.next m (.locked (.runStatus l.runId)) w) ∧
        ∀ status, w.authority.status? l.runId = some status → status.isTerminal = false →
          J { l with turn := l.turn + 1 } (W.next m (.locked (.runStatus l.runId)) w))
    (hTurn : ∀ m, J { l with turn := l.turn + 1 } m →
      (reflect { l with turn := l.turn + 1 } >>= converse).Meets W
        (Prog.Returns fun e m => I e.loop m) m) :
    l.takeTurn.Meets W (Prog.Returns fun e m => I e.loop m) m := by
  rw [takeTurn, ask_runStatus]
  intro w hw
  obtain ⟨hDemands, hKeeps, hLive⟩ := hCheck w hw
  refine ⟨hDemands, ?_⟩
  cases hStatus : w.authority.status? l.runId with
  | none =>
    simp only [hStatus]
    exact hKeeps
  | some status =>
    simp only [hStatus]
    cases status with
    | cancelled | paused | succeeded | failed _ => exact hKeeps
    | pending | running | awaitingReview => exact hTurn _ (hLive _ hStatus rfl)

/-- By induction on the turns that are left. -/
theorem drive_rule (hTurn : ∀ l m, I l m → l.takeTurn.Meets W (Prog.Returns fun e m => I e.loop m) m)
    (turns : Nat) (hStart : I l m) : (drive turns l).Meets W (Prog.Returns fun r m => I r.1 m) m := by
  induction turns generalizing l m with
  | zero => exact hStart
  | succ turns ih =>
    refine (hTurn l m hStart).andThen fun e m hEnd => ?_
    cases e with
    | next l' => exact ih hEnd
    | stop l' result => exact hEnd

section Run

variable {M : Type} {W : Watch M Act World} {I : M → Prop} {runId : RunId} {K : ReactLoop → Prop}
  {l : ReactLoop} {m : M} (hKept : Kept runId K)
  (hTool : ∀ l ctx call m, K l → I m →
    (l.runOneTool ctx call).Meets W (Prog.Returns fun r m => K r.1 ∧ I m) m)
  (hStream : ∀ purpose request, Passes W I (.stream runId purpose request))
  (hLocked : ∀ x m w, W.demands m (.locked x) w)
  (hCheck : ∀ m w status, w.authority.status? runId = some status → status.isTerminal = false →
    I (W.next m (.locked (.runStatus runId)) w))

include hKept hTool hStream hLocked hCheck

theorem turns_rule (hLoop : K l) (turns : Nat) :
    (drive turns l).Meets W (Prog.Returns fun r _ => K r.1) m := by
  refine drive_rule (I := fun l _ => K l) (fun l m hLoop => ?_) turns hLoop
  refine takeTurn_rule (I := fun l _ => K l) (J := fun l m => K l ∧ I m) (fun w _ => ?_)
    fun m hStart => ?_
  · refine ⟨hLocked _ m w, hLoop, fun status hStatus hLive => ⟨hKept.count hLoop _ _ _, ?_⟩⟩
    rw [hKept.runId hLoop] at hStatus ⊢
    exact hCheck m w status hStatus hLive
  · refine (reflect_rule hKept (hStream .reflection) hStart.1 hStart.2).andThen fun l' m hNext => ?_
    refine (converse_rule hKept hTool hStream hNext.1 hNext.2).mono fun r m hEnd => ?_
    cases r with
    | ok e => exact hEnd.1
    | error e => exact hEnd

theorem run_rule (hLoop : K l) : l.run.Meets W (fun _ _ => True) m := by
  have hAsk : ∀ x, IsLocked x → ∀ m w, True → W.assumes m x w → W.demands m x w ∧ True := by
    rintro x ⟨y, rfl⟩ m w - -
    exact ⟨hLocked y m w, trivial⟩
  refine Prog.Meets.bind (Q := fun _ _ => True) (Prog.Meets.of_only (ask_isLocked _) hAsk trivial)
    (fun _ m _ => ?_) fun _ _ _ => trivial
  refine (turns_rule hKept hTool hStream hLocked hCheck hLoop _).andThen fun r m _ => ?_
  exact Prog.Meets.of_only ((flush_isLocked _).bind fun _ => settle_isLocked _ _) hAsk trivial

end Run

end ReactLoop

end Cronymax.Agent
