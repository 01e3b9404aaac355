import Cronymax.Authority.Integrity
import Cronymax.Authority.Trees
import Cronymax.Agent.Cancellation
import Cronymax.Agent.Dispatcher

/-! Children of a supervisor.  The handlers of `invoke_agent` and `invoke_flow` record a task for the
child that they start and hand the loop a channel to wait on.  The loop waits, and reads what the
child has delivered; neither the loop nor a handler records that the child is through. -/

namespace Cronymax.Agent

open Atomic Authority

/-- A section of the authority, taken by a tool. -/
def tell (x : Section) : Prog ToolAct World Empty (Except AuthorityError Authority.Reply) := do
  let w ← Prog.perform (.authority x)
  pure (w.authority.answer (x.decide w.authority))

/-- The arguments of `invoke_agent`. -/
structure AgentArgs where
  agentId : String
  goal : String
  reads : List String

/-- The arguments of `invoke_flow`. -/
structure FlowArgs where
  flowId : String
  input : String
  useOutputs : List (String × String)

/-- One of the two tools that start a child, with what its environment does. -/
inductive Invocation where
  | agent (parse : String → Except String AgentArgs)
  | flow (parse : String → Except String FlowArgs) (loaded : Except String Unit)
      (started : Except String String) (bindSession : Option String)

namespace Invocation

variable (runId : RunId) (texts : Texts) (drawn : TaskId)

def notRecorded (e : AuthorityError) : ToolOutcome :=
  .error ("failed to record child task: " ++ texts.authorityError e)

/-- The handler of `invoke_agent`. -/
def invokeAgent (parse : String → Except String AgentArgs) (arguments : String) :
    Prog ToolAct World Empty ToolOutcome :=
  match parse arguments with
  | .error e => pure (.error ("invalid invoke_agent args: " ++ e))
  | .ok a => do
    match ← tell (.operation
      (.startChildTask runId none ("invoke_agent:" ++ a.agentId) none none drawn)) with
    | .error e => pure (notRecorded texts e)
    | .ok _ => pure (.spawnsAgent drawn.uuid)

/-- The flow run is bound to the chat session of the caller. -/
def bind (flowRunId : String) : Option String → Prog ToolAct World Empty Unit
  | some sid => do
    let _ ← tell (.operation (.bindSession flowRunId sid))
    pure ()
  | none => pure ()

/-- The handler of `invoke_flow`. -/
def invokeFlow (parse : String → Except String FlowArgs) (loaded : Except String Unit)
    (started : Except String String) (bindSession : Option String) (arguments : String) :
    Prog ToolAct World Empty ToolOutcome :=
  match parse arguments with
  | .error e => pure (.error ("invalid invoke_flow args: " ++ e))
  | .ok a => do
    match ← tell (.operation
      (.startChildTask runId none ("invoke_flow:" ++ a.flowId) none (some a.flowId) drawn)) with
    | .error e => pure (notRecorded texts e)
    | .ok _ =>
      match loaded with
      | .error e => do
        let _ ← tell (.operation (.completeChildTask runId drawn none false))
        pure (.error e)
      | .ok () =>
        match started with
        | .error e => do
          let _ ← tell (.operation (.completeChildTask runId drawn none false))
          pure (.error ("failed to start flow '" ++ a.flowId ++ "': " ++ e))
        | .ok flowRunId => do
          bind flowRunId bindSession
          pure (.spawnsAgent drawn.uuid)

/-- The name of the tool. -/
def name : Invocation → String
  | agent _ => "invoke_agent"
  | flow _ _ _ _ => "invoke_flow"

def handle : Invocation → String → Prog ToolAct World Empty ToolOutcome
  | agent parse => invokeAgent runId texts drawn parse
  | flow parse loaded started bindSession =>
    invokeFlow runId texts drawn parse loaded started bindSession

def dispatch (invocation : Invocation) (call : ToolCall) : Prog ToolAct World Empty ToolOutcome :=
  if call.name = invocation.name then invocation.handle runId texts drawn call.arguments
  else pure (notRegistered call)

/-- A dispatcher with this tool alone. -/
def dispatcher (invocation : Invocation) : ToolDispatcher where
  definitions := []
  dispatch := invocation.dispatch runId texts drawn
  dispatchApproved := invocation.dispatch runId texts drawn

end Invocation

def ReactLoop.invoke (l : ReactLoop) (invocation : Invocation) (drawn : TaskId) (call : ToolCall) :
    AgentOp (ReactLoop × Except LoopError ToolStepResult) :=
  { l with config := { l.config with
      tools := invocation.dispatcher l.runId l.config.texts drawn } }.runOneTool l.context call

/-- A parent's call of the tool, as far as it has come. -/
structure ParentStep where
  runId : RunId
  taskId : TaskId
  rest : AgentOp (ReactLoop × Except LoopError ToolStepResult)

/-- What a parent has been told of its child. -/
structure Received where
  runId : RunId
  taskId : TaskId
  success : Bool
deriving DecidableEq

/-- Runs with their children: the world, the calls that go on and what was received. -/
structure Family where
  world : World
  steps : List ParentStep
  drawn : List TaskId
  received : List Received

/-- A parent calls, makes a step of a call, or another section of the authority is taken. -/
inductive FamilyEvent where
  | call (l : ReactLoop) (invocation : Invocation) (drawn : TaskId) (call : ToolCall)
  | act (k : Nat)
  | other (x : { x : Section // x.taskId? = none })
  | restart (faults : List (Option PersistenceError)) (clock : List Int)

namespace ParentStep

/-- A call that has come to its end tells the parent. -/
def receives (p : ParentStep) (w : World) : List Received :=
  match p.rest with
  | .act (.awaitChild _) _ => [⟨p.runId, p.taskId, w.child.elim false (·.success)⟩]
  | _ => []

end ParentStep

namespace Family

@[grind =] def step (s : Family) : FamilyEvent → Family
  | .call l invocation drawn call =>
    if drawn ∈ s.drawn then s
    else { s with
      steps := s.steps ++ [⟨l.runId, drawn, l.invoke invocation drawn call⟩]
      drawn := drawn :: s.drawn }
  | .act k =>
    match s.steps[k]? with
    | some p =>
      match p.rest with
      | .act x next => { s with
          world := Acts.apply x s.world
          steps := s.steps.set k { p with rest := next s.world }
          received := s.received ++ p.receives s.world }
      | _ => s
    | none => s
  | .other x => { s with world := s.world.lock x.1 }
  | .restart faults clock =>
    match rehydrate (.ok s.world.authority.saved.stored) faults clock with
    | .ok w => { s with world := { s.world with authority := w }, steps := [], received := [] }
    | .error _ => s

def start (w : World) (faults : List (Option PersistenceError)) (clock : List Int) : Family where
  world := { w with authority := .start .empty .empty faults clock }
  steps := []
  drawn := []
  received := []

end Family

/-- How often the task was announced as completed. -/
def timesCompleted (w : RuntimeAuthority) (runId : RunId) (taskId : TaskId) : Nat :=
  w.emitted.countP fun e =>
    match e.payload with
    | .taskCompleted r t _ => r = runId.uuid && t = taskId.uuid
    | _ => false

/-- The tree of the run tells what the parent has received. -/
def Received.Told (r : Received) (w : RuntimeAuthority) : Prop :=
  taskStatus w.inner.taskTrees r.runId r.taskId =
      some (if r.success then .completed else .failed) ∧
    timesCompleted w r.runId r.taskId = 1

/-- The task trees tell the truth. -/
structure Family.Truthful (s : Family) : Prop where
  same : ∀ runId, s.world.authority.getTaskTree runId =
    s.world.authority.inner.snapshot.taskTrees.lookup runId
  told : ∀ r ∈ s.received, r.Told s.world.authority

/-- No parent waits for a child at this step. -/
def Family.Quiet (s : Family) : FamilyEvent → Prop
  | .act k => ∀ p taskId next, s.steps[k]? = some p → p.rest ≠ .act (.awaitChild taskId) next
  | .restart faults clock => ∀ w, rehydrate (.ok s.world.authority.saved.stored) faults clock = .ok w →
      ∀ runId, s.world.authority.saved.taskTrees.lookup runId = none
  | _ => True

/-- How far a child's task has come. -/
inductive TaskStage where
  | fresh
  | started
  | ended
deriving DecidableEq

def TaskStage.next (stage : TaskStage) : Section → TaskStage
  | .operation (.startChildTask ..) => .started
  | .operation (.completeChildTask ..) => .ended
  | _ => stage

/-- The section edits no task but this one. -/
inductive EditsOwn (runId : RunId) (taskId : TaskId) : Section → Prop where
  | spares {x : Section} (h : x.taskId? = none) : EditsOwn runId taskId x
  | start (label : String) (flowId : Option String) : EditsOwn runId taskId
    (.operation (.startChildTask runId none label none flowId taskId))
  | complete (output : Option Value) (success : Bool) : EditsOwn runId taskId
    (.operation (.completeChildTask runId taskId output success))

/-- Watches the sections on the task of a call. -/
def ownTask (runId : RunId) (taskId : TaskId) : Watch TaskStage Act World where
  assumes _ _ _ := True
  demands stage x _ := (∀ y, x.locks = some y → EditsOwn runId taskId y) ∧
    ∀ id, x = .awaitChild id → stage = .started
  next stage x _ := x.locks.elim stage stage.next

section OwnTask

variable {l : ReactLoop} {runId : RunId} {texts : Texts} {drawn : TaskId}

/-- The stage in which an outcome leaves the task. -/
def Leaves (outcome : ToolOutcome) (stage : TaskStage) : Prop :=
  match outcome with
  | .spawnsAgent _ => stage = .started
  | .needsApproval _ => False
  | _ => True

theorem spares_meets {α : Type} {x : Act} {f : World → AgentOp α} {stage : TaskStage}
    {Q : Except LoopError α → TaskStage → Prop} (hLocks : x.locks = none)
    (hAwaits : ∀ id, x ≠ .awaitChild id) (hRest : ∀ w, (f w).Meets (ownTask runId drawn) Q stage) :
    (Prog.perform x >>= f).Meets (ownTask runId drawn) Q stage := by
  intro w _
  refine ⟨⟨fun y hy => ?_, fun id hx => absurd hx (hAwaits id)⟩, ?_⟩
  · rw [hLocks] at hy
    cases hy
  · have hNext : (ownTask runId drawn).next stage x w = stage :=
      congrArg (Option.elim · stage stage.next) hLocks
    rw [hNext]
    exact hRest w

theorem tell_meets {x : Section} (hOwn : EditsOwn runId drawn x) {stage : TaskStage}
    {f : Except AuthorityError Authority.Reply → Prog ToolAct World Empty ToolOutcome}
    (hRest : ∀ answer, (useTool (f answer)).Meets (ownTask runId drawn) (Prog.Returns Leaves)
      (stage.next x)) :
    (useTool (tell x >>= f)).Meets (ownTask runId drawn) (Prog.Returns Leaves) stage :=
  fun _ _ => ⟨⟨fun _ hLocks => by cases hLocks; exact hOwn, fun _ hAwaits => by cases hAwaits⟩,
    hRest _⟩

theorem invokeAgent_meets (parse : String → Except String AgentArgs) (arguments : String) :
    (useTool (Invocation.invokeAgent runId texts drawn parse arguments)).Meets (ownTask runId drawn)
      (Prog.Returns Leaves) .fresh := by
  unfold Invocation.invokeAgent
  split
  · trivial
  · refine tell_meets (.start _ _) fun answer => ?_
    cases answer with
    | error e => trivial
    | ok reply => rfl

theorem invokeFlow_meets (parse : String → Except String FlowArgs) (loaded : Except String Unit)
    (started : Except String String) (bindSession : Option String) (arguments : String) :
    (useTool (Invocation.invokeFlow runId texts drawn parse loaded started bindSession
      arguments)).Meets (ownTask runId drawn) (Prog.Returns Leaves) .fresh := by
  unfold Invocation.invokeFlow
  split
  · trivial
  · refine tell_meets (.start _ _) fun answer => ?_
    cases answer with
    | error e => trivial
    | ok reply =>
      cases loaded with
      | error e => exact tell_meets (.complete _ _) fun _ => trivial
      | ok _ =>
        cases started with
        | error e => exact tell_meets (.complete _ _) fun _ => trivial
        | ok flowRunId =>
          cases bindSession with
          | none => rfl
          | some sid => exact tell_meets (f := fun _ => pure (.spawnsAgent drawn.uuid)) (.spares rfl) fun _ => rfl

theorem invocation_meets (invocation : Invocation) (call : ToolCall) :
    (useTool (invocation.dispatch runId texts drawn call)).Meets (ownTask runId drawn)
      (Prog.Returns Leaves) .fresh := by
  unfold Invocation.dispatch
  split
  · cases invocation with
    | agent parse => exact invokeAgent_meets parse call.arguments
    | flow parse loaded started bindSession =>
      exact invokeFlow_meets parse loaded started bindSession call.arguments
  · trivial

theorem beforeToolCall_meets_ownTask (ctx : TurnContext) (call : ToolCall) (chain : List Middleware) :
    (ReactLoop.beforeToolCall ctx call chain).Meets (ownTask runId drawn)
      (Prog.Returns fun _ stage => stage = .fresh) .fresh := by
  induction chain with
  | nil => rfl
  | cons mw chain ih =>
    refine spares_meets rfl (fun _ h => by cases h) fun w => ?_
    split
    · rfl
    · exact ih

theorem record_meets_ownTask (call : ToolCall) {outcome : ToolOutcome} {stage : TaskStage}
    (hLeaves : Leaves outcome stage) :
    (l.record call outcome).Meets (ownTask runId drawn) (fun _ _ => True) stage := by
  cases outcome with
  | output v | error message | terminal v => trivial
  | needsApproval request => exact hLeaves.elim
  | spawnsAgent taskId =>
    exact fun w _ => ⟨⟨fun _ hLocks => (by cases hLocks), fun _ _ => hLeaves⟩, trivial⟩

theorem dispatch_meets_ownTask {call : ToolCall}
    (hTool : (useTool (l.config.tools.dispatch call)).Meets (ownTask runId drawn)
      (Prog.Returns Leaves) .fresh) :
    (l.dispatch call).Meets (ownTask runId drawn)
      (Prog.Returns fun r stage => ∀ outcome, r = .ok outcome → Leaves outcome stage) .fresh := by
  refine spares_meets rfl (fun _ h => by cases h) fun w =>
    hTool.andThen fun outcome stage hLeaves => ?_
  cases outcome with
  | needsApproval request => exact hLeaves.elim
  | output v | error message | terminal v | spawnsAgent taskId =>
    rintro outcome' ⟨⟩
    exact hLeaves

theorem runOneTool_meets_ownTask {call : ToolCall} (ctx : TurnContext)
    (hTool : (useTool (l.config.tools.dispatch call)).Meets (ownTask runId drawn)
      (Prog.Returns Leaves) .fresh) :
    (l.runOneTool ctx call).Meets (ownTask runId drawn) (fun _ _ => True) .fresh := by
  refine (beforeToolCall_meets_ownTask ctx call _).andThen fun gate stage hFresh => ?_
  subst hFresh
  cases gate with
  | block reason => trivial
  | allow =>
    refine (dispatch_meets_ownTask hTool).andThen fun r stage hLeaves => ?_
    cases r with
    | error e => trivial
    | ok outcome => exact record_meets_ownTask call (hLeaves outcome rfl)

theorem invoke_meets (invocation : Invocation) (call : ToolCall) :
    (l.invoke invocation drawn call).Meets (ownTask l.runId drawn) (fun _ _ => True) .fresh :=
  runOneTool_meets_ownTask _ (invocation_meets invocation call)

end OwnTask

section Sections

variable {w : RuntimeAuthority} {runId r : RunId} {taskId : TaskId} {x : Section}

theorem taskStatus_apply_ne (h : x.taskId? ≠ some taskId) :
    taskStatus (x.apply w).inner.taskTrees r taskId = taskStatus w.inner.taskTrees r taskId := by
  by_cases hNone : x.taskId? = none
  · rw [(Section.decide_trees hNone).apply.2]
    rfl
  · cases x with
    | operation o =>
      cases o with
      | startChildTask runId parentId label agentId flowId drawn =>
        rw [(editTasks_trees _ _ _).apply.2, taskStatus_addTask,
          if_neg fun hSame => h (congrArg some hSame.2.symm)]
      | completeChildTask runId ended output success =>
        rw [(editTasks_trees _ _ _).apply.2,
          taskStatus_endTask_ne output success fun hSame => h (congrArg some hSame.symm)]
      | _ => exact absurd rfl hNone
    | _ => exact absurd rfl hNone

theorem EditsOwn.running (h : EditsOwn runId taskId x) {stage : TaskStage}
    (hRunning : stage = .started → taskStatus w.inner.taskTrees runId taskId = some .running)
    (hStarted : stage.next x = .started) :
    taskStatus (x.apply w).inner.taskTrees runId taskId = some .running := by
  cases h with
  | spares hNone =>
    have hSame : stage.next x = stage := by
      cases x with
      | operation o => cases o <;> first | rfl | cases hNone
      | _ => rfl
    rw [taskStatus_apply_ne (by rw [hNone]; exact fun h => by cases h)]
    exact hRunning (hSame.symm.trans hStarted)
  | start label flowId =>
    rw [(editTasks_trees _ _ _).apply.2, taskStatus_addTask, if_pos ⟨rfl, rfl⟩]
  | complete output success => cases hStarted

theorem EditsOwn.names (h : EditsOwn runId taskId x) : x.taskId? = none ∨ x.taskId? = some taskId := by
  cases h with
  | spares hNone => exact .inl hNone
  | start label flowId | complete output success => exact .inr rfl

end Sections

theorem authority_apply (x : Act) (w : World) :
    (Acts.apply x w).authority = x.locks.elim w.authority (·.apply w.authority) := by
  cases x with
  | tool x => cases x <;> rfl
  | _ => rfl

/-- What is still to come of a call fits the stage of its task. -/
def ParentStep.Stands (p : ParentStep) (w : RuntimeAuthority) (stage : TaskStage) : Prop :=
  p.rest.Meets (ownTask p.runId p.taskId) (fun _ _ => True) stage ∧
    (stage = .started → taskStatus w.inner.taskTrees p.runId p.taskId = some .running)

namespace Family

/-- No parent has received anything yet, and every task of a step is where its step stands. -/
structure Sound (s : Family) : Prop where
  agree : s.world.authority.TreesAgree
  unread : s.received = []
  drawn : ∀ p ∈ s.steps, p.taskId ∈ s.drawn
  nodup : (s.steps.map (·.taskId)).Nodup
  stands : ∀ p ∈ s.steps, ∃ stage, p.Stands s.world.authority stage

variable {s : Family} {k : Nat} {p : ParentStep}

theorem sound_start (w : World) (faults : List (Option PersistenceError)) (clock : List Int) :
    (start w faults clock).Sound :=
  ⟨rfl, rfl, by simp [start], .nil, by simp [start]⟩

theorem stands_apply {w : RuntimeAuthority} {stage : TaskStage} {x : Section} (h : p.Stands w stage)
    (hOther : x.taskId? ≠ some p.taskId) : p.Stands (x.apply w) stage :=
  ⟨h.1, fun hStarted => (taskStatus_apply_ne hOther).trans (h.2 hStarted)⟩

theorem Sound.call (h : s.Sound) (l : ReactLoop) (invocation : Invocation) (drawn : TaskId)
    (call : ToolCall) : (s.step (.call l invocation drawn call)).Sound := by
  simp only [step]
  split
  · exact h
  · rename_i hFresh
    refine ⟨h.agree, h.unread, fun p hp => ?_, ?_, fun p hp => ?_⟩
    · obtain hp | hp := List.mem_append.mp hp
      · exact List.mem_cons_of_mem _ (h.drawn p hp)
      · obtain rfl := List.mem_singleton.mp hp
        exact List.mem_cons_self
    · rw [List.map_append, List.nodup_append]
      refine ⟨h.nodup, List.nodup_singleton _, fun t ht u hu hSame => ?_⟩
      obtain ⟨p, hp, rfl⟩ := List.mem_map.mp ht
      obtain rfl := List.mem_singleton.mp hu
      exact hFresh (hSame ▸ h.drawn p hp)
    · obtain hp | hp := List.mem_append.mp hp
      · exact h.stands p hp
      · obtain rfl := List.mem_singleton.mp hp
        exact ⟨.fresh, invoke_meets invocation call, fun hStarted => by cases hStarted⟩

theorem Sound.other (h : s.Sound) (x : { x : Section // x.taskId? = none }) :
    (s.step (.other x)).Sound where
  agree := h.agree.apply x.1
  unread := h.unread
  drawn := h.drawn
  nodup := h.nodup
  stands p hp := by
    obtain ⟨stage, hStands⟩ := h.stands p hp
    exact ⟨stage, stands_apply hStands (by rw [x.2]; exact fun h => by cases h)⟩

theorem Sound.others (h : s.Sound) (hStep : s.steps[k]? = some p) {j : Nat} {q : ParentStep}
    (hOther : s.steps[j]? = some q) (hNe : k ≠ j) : p.taskId ≠ q.taskId := by
  intro hSame
  refine hNe ((List.getElem?_inj ?_ h.nodup).mp ?_)
  · rw [List.length_map]
    exact (List.getElem?_eq_some_iff.mp hStep).1
  · rw [List.getElem?_map, List.getElem?_map, hStep, hOther]
    exact congrArg some hSame

theorem Sound.act (h : s.Sound) (hStep : s.steps[k]? = some p) {x : Act}
    {next : World → AgentOp (ReactLoop × Except LoopError ToolStepResult)}
    (hRest : p.rest = .act x next) (hAwaits : ∀ id, x ≠ .awaitChild id) :
    (s.step (.act k)).Sound := by
  obtain ⟨stage, hMeets, hRunning⟩ := h.stands p (List.mem_of_getElem? hStep)
  rw [hRest] at hMeets
  obtain ⟨⟨hOwn, -⟩, hNext⟩ := hMeets s.world trivial
  have hReceives : p.receives s.world = [] := by
    unfold ParentStep.receives
    rw [hRest]
    cases x with
    | awaitChild id => exact absurd rfl (hAwaits id)
    | _ => rfl
  simp only [step, hStep, hRest, hReceives, List.append_nil]
  refine ⟨?_, h.unread, fun q hq => ?_, ?_, fun q hq => ?_⟩
  · rw [authority_apply]
    cases x.locks with
    | none => exact h.agree
    | some y => exact h.agree.apply y
  · obtain hq | rfl := List.mem_or_eq_of_mem_set hq
    · exact h.drawn q hq
    · exact h.drawn p (List.mem_of_getElem? hStep)
  · have hSame : (s.steps.set k { p with rest := next s.world }).map (·.taskId) =
        s.steps.map (·.taskId) := by
      obtain ⟨hk, rfl⟩ := List.getElem?_eq_some_iff.mp hStep
      have hk' : k < (s.steps.map (·.taskId)).length := by simpa using hk
      have hId : (s.steps.map (·.taskId))[k] = s.steps[k].taskId := List.getElem_map _
      rw [List.map_set, ← hId]
      exact List.set_getElem_self hk'
    rw [hSame]
    exact h.nodup
  · obtain ⟨j, hj⟩ := List.getElem?_of_mem hq
    rw [authority_apply]
    by_cases hHere : k = j
    · subst j
      rw [List.getElem?_set_self (List.getElem?_eq_some_iff.mp hStep).1] at hj
      cases hj
      refine ⟨_, hNext, ?_⟩
      show x.locks.elim stage stage.next = .started → _
      cases hLocks : x.locks with
      | none => exact hRunning
      | some y => exact fun hStarted => (hOwn y hLocks).running hRunning hStarted
    · rw [List.getElem?_set_ne hHere] at hj
      obtain ⟨stage', hStands⟩ := h.stands q (List.mem_of_getElem? hj)
      refine ⟨stage', ?_⟩
      cases hLocks : x.locks with
      | none => exact hStands
      | some y =>
        refine stands_apply hStands fun hNames => ?_
        obtain hNone | hNamed := (hOwn y hLocks).names
        · cases hNone.symm.trans hNames
        · exact h.others hStep hj hHere (Option.some.inj (hNamed.symm.trans hNames))

theorem Sound.awaits (h : s.Sound) (hStep : s.steps[k]? = some p) {id : String}
    {next : World → AgentOp (ReactLoop × Except LoopError ToolStepResult)}
    (hRest : p.rest = .act (.awaitChild id) next) : ¬(s.step (.act k)).Truthful := by
  intro hTruthful
  obtain ⟨stage, hMeets, hRunning⟩ := h.stands p (List.mem_of_getElem? hStep)
  rw [hRest] at hMeets
  have hStatus := hRunning ((hMeets s.world trivial).1.2 id rfl)
  have hTold := (hTruthful.told ⟨p.runId, p.taskId, s.world.child.elim false (·.success)⟩
    (by simp [step, hStep, hRest, ParentStep.receives])).1
  have hSame : (s.step (.act k)).world.authority = s.world.authority := by
    simp only [step, hStep, hRest]
    rfl
  rw [hSame, hStatus] at hTold
  cases hSuccess : s.world.child.elim false (·.success) <;> rw [hSuccess] at hTold <;> cases hTold

theorem restart_cases {w w' : RuntimeAuthority} {faults : List (Option PersistenceError)}
    {clock : List Int} (hStart : rehydrate (.ok w.saved.stored) faults clock = .ok w') :
    w'.inner.taskTrees = ∅ ∧ w'.inner.snapshot.taskTrees =
      w.saved.taskTrees.mapValues fun t => ⟨t.tasks.mapValues Task.stored⟩ := by
  simp only [rehydrate] at hStart
  split at hStart
  · split at hStart
    · cases hStart
    · cases hStart
      exact ⟨rfl, rfl⟩
  · cases hStart
    exact ⟨rfl, rfl⟩

theorem restart_agrees_iff {w w' : RuntimeAuthority} {faults : List (Option PersistenceError)}
    {clock : List Int} (hStart : rehydrate (.ok w.saved.stored) faults clock = .ok w') :
    w'.TreesAgree ↔ ∀ runId, w.saved.taskTrees.lookup runId = none := by
  obtain ⟨hInMemory, hSnapshot⟩ := restart_cases hStart
  rw [RuntimeAuthority.TreesAgree, hInMemory, hSnapshot]
  constructor
  · intro hSame runId
    have hLookup := congrArg (·.lookup runId) hSame
    simp only [Table.lookup_mapValues, Finmap.lookup_empty] at hLookup
    exact Option.map_eq_none_iff.mp hLookup.symm
  · intro hNone
    refine Finmap.ext_lookup fun runId => ?_
    rw [Table.lookup_mapValues, hNone runId, Finmap.lookup_empty]
    rfl

theorem Sound.truthful (h : s.Sound) : s.Truthful where
  same := treesAgree_iff.mp h.agree
  told r hr := by
    rw [h.unread] at hr
    cases hr

theorem Sound.restart (h : s.Sound) (faults : List (Option PersistenceError)) (clock : List Int)
    (hAgree : (s.step (.restart faults clock)).world.authority.TreesAgree) :
    (s.step (.restart faults clock)).Sound := by
  simp only [step] at hAgree ⊢
  split at hAgree
  · exact ⟨hAgree, rfl, by simp, .nil, by simp⟩
  · exact h

theorem Sound.step (h : s.Sound) {e : FamilyEvent} (hAfter : (s.step e).Truthful) :
    (s.step e).Sound := by
  cases e with
  | call l invocation drawn call => exact h.call l invocation drawn call
  | other x => exact h.other x
  | restart faults clock => exact h.restart faults clock (treesAgree_iff.mpr hAfter.same)
  | act k =>
    cases hStep : s.steps[k]? with
    | none =>
      simp only [Family.step, hStep]
      exact h
    | some p =>
      cases hRest : p.rest with
      | done _ | fail _ =>
        simp only [Family.step, hStep, hRest]
        exact h
      | act x next =>
        refine h.act hStep hRest fun id hAwaits => ?_
        subst hAwaits
        exact h.awaits hStep hRest hAfter

theorem truthful_step_iff (h : s.Sound) {e : FamilyEvent} : (s.step e).Truthful ↔ s.Quiet e := by
  cases e with
  | call l invocation drawn call =>
    exact iff_of_true (h.call l invocation drawn call).truthful trivial
  | other x => exact iff_of_true (h.other x).truthful trivial
  | restart faults clock =>
    constructor
    · intro hTruthful w hStart
      have hAgree := treesAgree_iff.mpr hTruthful.same
      simp only [Family.step, hStart] at hAgree
      exact (restart_agrees_iff hStart).mp hAgree
    · intro hQuiet
      refine (h.restart faults clock ?_).truthful
      simp only [Family.step]
      split
      · rename_i w hStart
        exact (restart_agrees_iff hStart).mpr (hQuiet w hStart)
      · exact h.agree
  | act k =>
    constructor
    · intro hTruthful p taskId next hStep hRest
      exact h.awaits hStep hRest hTruthful
    · intro hQuiet
      refine (Sound.truthful ?_)
      cases hStep : s.steps[k]? with
      | none =>
        simp only [Family.step, hStep]
        exact h
      | some p =>
        cases hRest : p.rest with
        | done _ | fail _ =>
          simp only [Family.step, hStep, hRest]
          exact h
        | act x next =>
          refine h.act hStep hRest fun id hAwaits => ?_
          subst hAwaits
          exact hQuiet p id next hStep hRest

end Family

/-- In the life of a supervisor's process and of those that are started after it, the task trees tell the
truth in every state exactly when no restart finds a task on disk and no parent comes to wait for a
child. -/
theorem truthful_iff (w : World) (faults : List (Option PersistenceError)) (clock : List Int)
    (events : List FamilyEvent) :
    History.Each Family.step (fun s e => (s.step e).Truthful) (.start w faults clock) events ↔
      History.Each Family.step Family.Quiet (.start w faults clock) events :=
  History.each_congr (Family.sound_start w faults clock)
    (fun _ _ hSound hAfter => hSound.step hAfter) (fun _ _ hSound => Family.truthful_step_iff hSound)
    events

def delivering : World := { streaming [] with children := [some ⟨true, .null, none⟩] }

def coderTask : TaskId := ⟨"task"⟩

def invokesCoder : List FamilyEvent :=
  [.call (.new chatRun chatConfig) (.agent fun _ => .ok ⟨"coder", "fix the build", []⟩) coderTask
      ⟨"call", "invoke_agent", "\x7b\x7d"⟩,
    .act 0, .act 0]

/-- The child succeeds, and its task is running still; and a process that is started again shows no task
while the snapshot has one. -/
theorem coder_runs_on :
    ¬(History.play Family.step (.start delivering [] []) (invokesCoder ++ [.act 0])).Truthful ∧
      ¬(History.play Family.step (.start delivering [] [])
        (invokesCoder ++ [.restart [] []])).Truthful := by
  constructor
  · intro hTruthful
    have hTold := (hTruthful.told ⟨chatRun, coderTask, true⟩ (List.mem_singleton.mpr rfl)).1
    have hRunning : taskStatus (History.play Family.step (.start delivering [] [])
        (invokesCoder ++ [.act 0])).world.authority.inner.taskTrees chatRun coderTask =
          some .running := rfl
    rw [hRunning] at hTold
    cases hTold
  · intro hTruthful
    have hSame := hTruthful.same chatRun
    have hForgotten : (History.play Family.step (.start delivering [] [])
        (invokesCoder ++ [.restart [] []])).world.authority.getTaskTree chatRun = none := rfl
    have hThere : ((History.play Family.step (.start delivering [] [])
        (invokesCoder ++ [.restart [] []])).world.authority.inner.snapshot.taskTrees.lookup
          chatRun).isSome = true := rfl
    rw [← hSame, hForgotten] at hThere
    cases hThere

end Cronymax.Agent
