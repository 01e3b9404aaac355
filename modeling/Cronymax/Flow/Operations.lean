import Cronymax.Atomic.History
import Cronymax.Atomic.Rely
import Cronymax.Flow.Sections

/-! Which sections each operation may perform, in whatever state its sections find, and what the
parts of an operation leave alone. -/

namespace Cronymax.Flow

open Atomic

namespace FlowRuntime

/-- Every file operation to come succeeds. -/
def Healthy (w : FlowRuntime) : Prop := ∀ fault ∈ w.faults, fault = none

theorem Healthy.fault {w : FlowRuntime} (h : w.Healthy) : w.fault = none := by
  unfold FlowRuntime.fault
  cases hFaults : w.faults with
  | nil => rfl
  | cons f rest => exact h f (by simp [hFaults])

theorem Healthy.apply {w : FlowRuntime} (h : w.Healthy) (a : Act) : (a.apply w).Healthy := by
  have hTail : ∀ fault ∈ w.faults.tail, fault = none := fun f hf => h f (List.mem_of_mem_tail hf)
  have hModify : ∀ runId f, (w.modifyRun runId f).Healthy := fun runId f => by
    unfold modifyRun
    split <;> exact h
  cases a with
  | persistRun state => exact hTail
  | readReviews flowId runId => exact hTail
  | writeReviewsTmp flowId runId reviews => exact hTail
  | renameReviews flowId runId =>
    simp only [Act.apply]
    split <;> exact hTail
  | transition runId status reason => exact hModify runId _
  | _ => first | exact hModify _ _ | exact h

instance (w : FlowRuntime) : Decidable w.Healthy := by
  unfold Healthy
  infer_instance

/-- The run is there and every file operation to come succeeds. -/
def Good (runId : String) (w : FlowRuntime) : Prop :=
  w.Healthy ∧ (w.getRun runId).isSome = true

instance (runId : String) (w : FlowRuntime) : Decidable (w.Good runId) := by
  unfold Good
  infer_instance

theorem Good.apply {runId : String} (a : Act) (w : FlowRuntime) (h : w.Good runId) :
    (Acts.apply a w : FlowRuntime).Good runId :=
  ⟨h.1.apply a, a.isSome_apply h.2⟩

theorem Good.run {runId : String} {w : FlowRuntime} (h : w.Good runId) :
    ∃ s, w.getRun runId = some s :=
  Option.isSome_iff_exists.mp h.2

theorem Good.run_snd {runId : String} {w : FlowRuntime} (h : w.Good runId) {α : Type} (p : Op α) :
    (p.run w).2.Good runId := by
  rw [Prog.run_snd]
  exact Prog.after_preserves (fun e _ t ht => ht.apply e.1 t) h

end FlowRuntime

open FlowRuntime

variable {runId node port : String} {flow : FlowDefinition}

theorem persistRun_quiet (s : FlowRunState) : (persistRun s).Only Act.Quiet :=
  .perform rfl fun w => by split <;> trivial

theorem readReviews_only (flowId runId : String) :
    (readReviews flowId runId).Only (·.isReview = true) :=
  .perform rfl fun w => by split <;> trivial

theorem utcNowIso_only : utcNowIso.Only (·.isReview = true) := .perform rfl fun _ => trivial

theorem writeReviews_only (flowId runId : String) (reviews : Reviews) :
    (writeReviews flowId runId reviews).Only (·.isReview = true) := by
  refine .perform rfl fun w => ?_
  split
  · trivial
  · exact .perform rfl fun w => by split <;> trivial

theorem writeReviewComments_only (flowId runId port reviewer : String)
    (comments : List ReviewComment) :
    (writeReviewComments flowId runId port reviewer comments).Only (·.isReview = true) :=
  (readReviews_only flowId runId).bind fun _ =>
    utcNowIso_only.bind fun _ => writeReviews_only _ _ _

theorem upsertReviewState_only (flowId runId doc node sha : String) (revision : UInt32)
    (status : String) :
    (upsertReviewState flowId runId doc node sha revision status).Only (·.isReview = true) := by
  refine (readReviews_only flowId runId).bind fun _ =>
    Prog.Only.bind ?_ fun _ => writeReviews_only _ _ _
  split
  · exact utcNowIso_only
  · trivial

theorem readReviews_quiet (flowId runId : String) : (readReviews flowId runId).Only Act.Quiet :=
  (readReviews_only flowId runId).mono fun _ h => Act.quiet_of_isReview h

theorem utcNowIso_quiet : utcNowIso.Only Act.Quiet :=
  utcNowIso_only.mono fun _ h => Act.quiet_of_isReview h

theorem readReviewComments_quiet (flowId runId port : String) :
    (readReviewComments flowId runId port).Only Act.Quiet :=
  (readReviews_quiet flowId runId).bind fun _ => trivial

theorem writeReviewComments_quiet (flowId runId port reviewer : String)
    (comments : List ReviewComment) :
    (writeReviewComments flowId runId port reviewer comments).Only Act.Quiet :=
  (writeReviewComments_only _ _ _ _ _).mono fun _ h => Act.quiet_of_isReview h

theorem upsertReviewState_quiet (flowId runId doc node sha : String) (revision : UInt32)
    (status : String) :
    (upsertReviewState flowId runId doc node sha revision status).Only Act.Quiet :=
  (upsertReviewState_only _ _ _ _ _ _ _).mono fun _ h => Act.quiet_of_isReview h

theorem noteReview_quiet (runId doc node sha : String) (revision : UInt32) (status : String) :
    (noteReview runId doc node sha revision status).Only Act.Quiet := by
  refine .perform rfl fun w => ?_
  split
  · trivial
  · exact (upsertReviewState_quiet _ _ _ _ _ _ _).attempt.bind fun _ => trivial

theorem buildInvocationContext_quiet (runId nodeId : String) (trigger : InvocationTrigger)
    (flow : FlowDefinition) :
    (buildInvocationContext runId nodeId trigger flow).Only Act.Quiet := by
  refine .perform rfl fun w => ?_
  split
  · refine Prog.Only.bind ?_ fun _ => Prog.only_done _
    unfold feedbackFor
    split
    · exact (readReviewComments_quiet _ _ _).bind fun _ => trivial
    · trivial
  · trivial

theorem updateRun_only (act : Act) (runId : String) (f : FlowRunState → FlowRunState) :
    (updateRun act runId f).Only fun a => a.Quiet ∨ a = act := by
  refine .perform (.inr rfl) fun w => ?_
  split
  · trivial
  · exact ((persistRun_quiet _).mono fun _ h => .inl h).bind fun _ => trivial

theorem markPortStatus_only (runId node port : String) (status : PortStatus) :
    (markPortStatus runId node port status).Only fun a =>
      a.Quiet ∨ a = .markPortStatus runId node port status := by
  refine .perform (.inr rfl) fun w => ?_
  split
  · trivial
  · split
    · exact (persistRun_quiet _).mono fun _ h => .inl h
    · trivial

theorem markPortStatusUnchecked_only (runId node port : String) (status : PortStatus) :
    (markPortStatusUnchecked runId node port status).Only fun a =>
      a.Quiet ∨ a = .markPortStatusUnchecked runId node port status :=
  (updateRun_only _ _ _).bind fun _ => trivial

theorem recordInvocation_only (runId nodeId : String) (trigger : InvocationTrigger) :
    (recordInvocation runId nodeId trigger).Only fun a =>
      a.Quiet ∨ a = .recordInvocation runId nodeId trigger :=
  (updateRun_only _ _ _).bind fun _ => trivial

theorem scheduleNodeWithContext_only (runId nodeId : String) (trigger : InvocationTrigger)
    (flow : FlowDefinition) :
    (scheduleNodeWithContext runId nodeId trigger flow).Only fun a =>
      a.Quiet ∨ a = .recordInvocation runId nodeId trigger :=
  ((buildInvocationContext_quiet runId nodeId trigger flow).mono fun _ h => .inl h).bind fun _ =>
    (recordInvocation_only runId nodeId trigger).bind fun _ => trivial

/-- The sections by which one node is activated. -/
def Activates (runId : String) (flow : FlowDefinition) (nodeId : String)
    (trigger : InvocationTrigger) (a : Act) : Prop :=
  ∃ node, flow.node nodeId = some node ∧
    ((node.owner = "human" ∧ ∃ output ∈ node.outputs,
        a = .markPortStatusUnchecked runId nodeId output.port .awaitingOwner) ∨
      (node.owner ≠ "human" ∧ a = .recordInvocation runId nodeId trigger))

/-- The port belongs to an output of a human-owned node. -/
def HumanOwned (flow : FlowDefinition) (node port : String) : Prop :=
  ∃ n, flow.node node = some n ∧ n.owner = "human" ∧ port ∈ n.outputs.map (·.port)

theorem Activates.newStatus {nodeId : String} {trigger : InvocationTrigger} {a : Act}
    (h : Activates runId flow nodeId trigger a) (node port : String) (old : PortStatus) :
    a.newStatus runId node port old = old ∨ HumanOwned flow node port ∧
      a = .markPortStatusUnchecked runId node port .awaitingOwner := by
  obtain ⟨n, hNode, ⟨hHuman, output, hOutput, rfl⟩ | ⟨_, rfl⟩⟩ := h
  · by_cases hPort : node = nodeId ∧ port = output.port
    · obtain ⟨rfl, rfl⟩ := hPort
      exact .inr ⟨⟨n, hNode, hHuman, List.mem_map_of_mem hOutput⟩, rfl⟩
    · exact .inl (by simp [hPort])
  · exact .inl (by simp)

theorem activateNode_only (runId : String) (flow : FlowDefinition) (nodeId : String)
    (trigger : InvocationTrigger) :
    (activateNode runId flow nodeId trigger).Only fun a =>
      a.Quiet ∨ Activates runId flow nodeId trigger a := by
  unfold activateNode
  split
  · trivial
  · rename_i n hNode
    split
    · rename_i hHuman
      refine Prog.Only.collect _ fun output hOutput => Prog.Only.bind ?_ fun _ => trivial
      exact (markPortStatusUnchecked_only _ _ _ _).mono fun a ha =>
        ha.imp id fun ha => ⟨n, hNode, .inl ⟨hHuman, output, hOutput, ha⟩⟩
    · rename_i hAgent
      refine Prog.Only.bind ?_ fun _ => trivial
      exact (scheduleNodeWithContext_only _ _ _ _).mono fun a ha =>
        ha.imp id fun ha => ⟨n, hNode, .inr ⟨hAgent, ha⟩⟩

theorem activateNodes_only (runId : String) (flow : FlowDefinition) (trigger : InvocationTrigger)
    (nodes : List String) :
    (activateNodes runId flow trigger nodes).Only fun a =>
      a.Quiet ∨ ∃ nodeId ∈ nodes, Activates runId flow nodeId trigger a :=
  .collect _ fun nodeId hNode => (activateNode_only _ _ _ _).mono fun _ ha =>
    ha.imp id fun ha => ⟨nodeId, hNode, ha⟩

theorem fireAndJoinFor_eq (producer port runId : String) (flow : FlowDefinition) :
    fireAndJoinFor producer port runId flow =
      if flow.graph.nodesAwaiting producer port = [] then pure []
      else Prog.perform (.snapshot runId) >>= fun w =>
        match w.getRun runId with
        | none => pure []
        | some s => activateNodes runId flow (andJoinTrigger producer port)
            ((flow.graph.nodesAwaiting producer port).filter (gateOpen · s flow.graph)) := by
  by_cases hEmpty : flow.graph.nodesAwaiting producer port = []
  · simp [fireAndJoinFor, hEmpty]
  · simp only [fireAndJoinFor, List.isEmpty_iff, hEmpty, if_false]
    congr 1
    funext w
    cases w.getRun runId with
    | none => rfl
    | some s =>
      simp only [activationPass_eq _ _ _ hEmpty]
      exact Prog.collect_map _ _ _

theorem fireAndJoinFor_only (producer port runId : String) (flow : FlowDefinition) :
    (fireAndJoinFor producer port runId flow).Only fun a => a.Quiet ∨
      ∃ nodeId ∈ flow.graph.nodesAwaiting producer port,
        Activates runId flow nodeId (andJoinTrigger producer port) a := by
  rw [fireAndJoinFor_eq]
  split
  · trivial
  · refine .perform (.inl rfl) fun w => ?_
    split
    · trivial
    · exact (activateNodes_only _ _ _ _).mono fun a ha =>
        ha.imp id fun ⟨nodeId, hNode, ha⟩ => ⟨nodeId, List.mem_of_mem_filter hNode, ha⟩

/-- The sections record the invocations of these nodes, and the contexts are theirs. -/
def Recorded (runId : String) (nodes : List String) (trigger : InvocationTrigger)
    (tr : List (Act × FlowRuntime)) (ctxs : List InvocationContext) : Prop :=
  ∀ ctx ∈ ctxs, ctx.nodeId ∈ nodes ∧ ctx.trigger = trigger ∧
    ∃ e ∈ tr, e.1 = .recordInvocation runId ctx.nodeId trigger

theorem buildInvocationContext_ensures (runId nodeId : String) (trigger : InvocationTrigger)
    (flow : FlowDefinition) :
    (buildInvocationContext runId nodeId trigger flow).Ensures fun _ ctx =>
      ∀ c ∈ ctx, c.nodeId = nodeId ∧ c.trigger = trigger := by
  refine .perform fun w => ?_
  split
  · exact Prog.Ensures.trivial.bind fun _ _ _ => .done (by simp)
  · exact .done (by simp)

theorem activateNodes_ensures (runId : String) (flow : FlowDefinition)
    (trigger : InvocationTrigger) (nodes : List String) :
    (activateNodes runId flow trigger nodes).Ensures (Recorded runId nodes trigger) := by
  refine .collect (by simp [Recorded]) (fun tr tr' r r' h h' ctx hctx => ?_) nodes
    fun nodeId hNode => ?_
  · rcases List.mem_append.mp hctx with hctx | hctx
    · obtain ⟨h1, h2, e, he, h3⟩ := h ctx hctx
      exact ⟨h1, h2, e, List.mem_append_left _ he, h3⟩
    · obtain ⟨h1, h2, e, he, h3⟩ := h' ctx hctx
      exact ⟨h1, h2, e, List.mem_append_right _ he, h3⟩
  unfold activateNode
  split
  · exact .done (by simp [Recorded])
  split
  · -- a human-owned node gets no context
    refine Prog.Ensures.mono (P := fun _ ctxs => ctxs = []) ?_ fun tr ctxs h => by
      simp [Recorded, h]
    exact .collect (Q := fun _ ctxs => ctxs = []) rfl (fun _ _ _ _ h h' => by rw [h, h']; rfl) _
      fun output _ => Prog.Ensures.trivial.bind fun _ _ _ => .done rfl
  · refine Prog.Ensures.bind (P := fun tr ctx => Recorded runId nodes trigger tr ctx.toList) ?_
      fun tr ctx h => .done (by simpa using h)
    refine (buildInvocationContext_ensures runId nodeId trigger flow).bind fun tr ctx h => ?_
    refine Prog.Ensures.bind (P := fun tr' _ => ∃ e ∈ tr',
      e.1 = .recordInvocation runId nodeId trigger) ?_ fun tr' _ ⟨e, he, hAct⟩ => .done ?_
    · refine Prog.Ensures.bind (P := fun tr' _ => ∃ e ∈ tr',
        e.1 = .recordInvocation runId nodeId trigger) ?_ fun tr' _ h => .done (by simpa using h)
      exact .perform fun w tr' a _ => ⟨_, List.mem_cons_self, rfl⟩
    · intro c hc
      obtain ⟨rfl, hTrigger⟩ := h c (by simpa using hc)
      exact ⟨hNode, hTrigger, e, by simp [he], hAct⟩

/-- The sections of an approval's cascade. -/
def Cascades (runId node port : String) (flow : FlowDefinition) (a : Act) : Prop :=
  a.Quiet ∨ a = .markPortStatus runId node port .approved ∨
    (∃ key entry, a = .writeBlackboardEntry runId key entry) ∨
    (∃ nodeId trigger, trigger.kind ≠ .rejectedRequeue ∧ Activates runId flow nodeId trigger a)

theorem Cascades.not_register {a : Act} (h : Cascades runId node port flow a)
    (state : FlowRunState) : a ≠ .register state := by
  rintro rfl
  rcases h with h | h | ⟨_, _, h⟩ | ⟨_, _, _, _, _, ⟨_, _, _, h⟩ | ⟨_, h⟩⟩ <;> cases h

theorem publishOutput_only (runId node port : String) (flow : FlowDefinition) :
    (publishOutput runId node port flow).Only fun a =>
      a.Quiet ∨ ∃ key entry, a = .writeBlackboardEntry runId key entry := by
  unfold publishOutput
  split
  · trivial
  · rename_i key _
    refine .perform (.inl rfl) fun w => ?_
    simp only
    split
    · trivial
    · exact .perform (.inr ⟨key, _, rfl⟩) fun _ => trivial

theorem approvePort_only (runId node port : String) (flow : FlowDefinition) :
    (approvePort runId node port flow).Only fun a =>
      a.Quiet ∨ a = .markPortStatus runId node port .approved ∨
        ∃ key entry, a = .writeBlackboardEntry runId key entry := by
  refine ((markPortStatus_only _ _ _ _).mono fun a ha => ?_).bind fun _ =>
    ((publishOutput_only _ _ _ _).mono fun a ha => ?_).bind fun _ =>
      (noteReview_quiet _ _ _ _ _ _).mono fun a ha => .inl ha
  · exact ha.imp id .inl
  · exact ha.imp id .inr

theorem reinvokeProducer_only (runId node port : String) (flow : FlowDefinition) :
    (reinvokeProducer runId node port flow).Only fun a =>
      a.Quiet ∨ Activates runId flow node (implicitReinvokeTrigger port) a := by
  unfold reinvokeProducer
  split
  · trivial
  · rename_i producer hNode
    split
    · trivial
    · rename_i hAgent
      refine .perform (.inl rfl) fun w => ?_
      split
      · trivial
      · split
        · trivial
        · refine Prog.Only.bind ?_ fun _ => trivial
          exact (scheduleNodeWithContext_only _ _ _ _).mono fun a ha =>
            ha.imp id fun ha => ⟨producer, hNode, .inr ⟨hAgent, ha⟩⟩

theorem cascadeApproval_only (runId node port : String) (flow : FlowDefinition) :
    (cascadeApproval runId node port flow).Only (Cascades runId node port flow) := by
  refine Prog.Only.bind ?approve fun _ => Prog.Only.bind ?join fun _ =>
    Prog.Only.bind ?retrigger fun _ => Prog.Only.bind ?reinvoke fun _ => trivial
  case approve =>
    refine (approvePort_only _ _ _ _).mono fun a ha => ?_
    rcases ha with ha | ha | ha
    · exact .inl ha
    · exact .inr (.inl ha)
    · exact .inr (.inr (.inl ha))
  case join =>
    refine (fireAndJoinFor_only _ _ _ _).mono fun a ha => ?_
    rcases ha with ha | ⟨nodeId, _, ha⟩
    · exact .inl ha
    · exact .inr (.inr (.inr ⟨nodeId, andJoinTrigger node port, by simp [andJoinTrigger], ha⟩))
  case retrigger =>
    refine (activateNodes_only _ _ _ _).mono fun a ha => ?_
    rcases ha with ha | ⟨nodeId, _, ha⟩
    · exact .inl ha
    · exact .inr (.inr (.inr
        ⟨nodeId, cycleRetriggerTrigger node port, by simp [cycleRetriggerTrigger], ha⟩))
  case reinvoke =>
    refine (reinvokeProducer_only _ _ _ _).mono fun a ha => ?_
    rcases ha with ha | ha
    · exact .inl ha
    · exact .inr (.inr (.inr
        ⟨node, implicitReinvokeTrigger port, by simp [implicitReinvokeTrigger], ha⟩))

theorem onDocumentApproved_only (runId node port : String) (flow : FlowDefinition) :
    (onDocumentApproved runId node port flow).Only (Cascades runId node port flow) := by
  refine .perform (.inl rfl) fun w => ?_
  simp only [Prog.pure_eq]
  split
  · trivial
  · exact cascadeApproval_only runId node port flow

theorem onDocumentApproved_of_approved (flow : FlowDefinition) {w : FlowRuntime}
    (h : w.portStatus runId node port = .approved) :
    (onDocumentApproved runId node port flow).run w = (.ok [], w) ∧
      (onDocumentApproved runId node port flow).trace w =
        [(.portStatus runId node port, w)] := by
  simp [onDocumentApproved, readPortStatus, Prog.perform, Prog.run, Prog.trace, h, Acts.apply,
    Act.apply]

theorem onDocumentApproved_of_not_approved (flow : FlowDefinition) {w : FlowRuntime}
    (h : w.portStatus runId node port ≠ .approved) :
    (onDocumentApproved runId node port flow).run w =
        (cascadeApproval runId node port flow).run w ∧
      (onDocumentApproved runId node port flow).trace w = (.portStatus runId node port, w) ::
        (cascadeApproval runId node port flow).trace w := by
  simp [onDocumentApproved, readPortStatus, Prog.perform, Prog.run, Prog.trace, h, Acts.apply,
    Act.apply]

/-- The sections of a requeue. -/
def Requeues (runId node port : String) (a : Act) : Prop :=
  a.Quiet ∨ a = .markPortStatusUnchecked runId node port .pending ∨
    a = .recordInvocation runId node (rejectedRequeueTrigger port)

theorem onRejectedRequeue_only (runId node port : String) (flow : FlowDefinition) :
    (onRejectedRequeue runId node port flow).Only (Requeues runId node port) := by
  refine ((markPortStatusUnchecked_only _ _ _ _).mono fun a ha => ?_).bind fun _ =>
    ((noteReview_quiet _ _ _ _ _ _).mono fun a ha => .inl ha).bind fun _ =>
      (scheduleNodeWithContext_only _ _ _ _).mono fun a ha => ?_
  · exact ha.imp id .inl
  · exact ha.imp id .inr

open FlowRuntime

/-- A call of a public operation on a run. -/
inductive Call where
  | submitted (node port sha : String) (revision : UInt32)
  | approved (node port : String)
  | verdict (node port reviewer : String) (vote : ReviewVerdict)
      (comments : List ReviewComment)
  | rejected (node port : String)
  | seeded (seeds : List (String × BlackboardEntry))
  | mark (node port : String) (status : PortStatus)
  | cancel
  | complete
  | fail (reason : String)
deriving DecidableEq

namespace Call

variable (flow : FlowDefinition) (runId : String)

/-- The operation of the source that a call is. -/
@[grind =] def op : Call → Op (List InvocationContext)
  | .submitted node port sha revision => onDocumentSubmitted runId node port flow sha revision
  | .approved node port => onDocumentApproved runId node port flow
  | .verdict node port reviewer vote comments => do
    let ctxs ← onReviewerVerdict runId node port reviewer vote comments flow
    pure (ctxs.getD [])
  | .rejected node port => do
    let ctx ← onRejectedRequeue runId node port flow
    pure ctx.toList
  | .seeded seeds => applySeededEntries runId flow seeds
  | .mark node port status => do
    markPortStatus runId node port status
    pure []
  | .cancel => do
    cancelRun runId
    pure []
  | .complete => do
    completeRun runId
    pure []
  | .fail reason => do
    failRun runId reason
    pure []

/-- The runtime after a call. -/
def step (w : FlowRuntime) (c : Call) : FlowRuntime := ((c.op flow runId).run w).2

/-- The sections of a call, each with the runtime that it met. -/
@[grind =] def trace (w : FlowRuntime) (c : Call) : List (Act × FlowRuntime) := (c.op flow runId).trace w

/-- The contexts that a call returns, none if it fails. -/
@[grind =] def contexts (w : FlowRuntime) (c : Call) : List InvocationContext :=
  match ((c.op flow runId).run w).1 with
  | .ok ctxs => ctxs
  | .error _ => []

end Call

theorem FlowRuntime.Good.step {flow : FlowDefinition} {runId : String} {w : FlowRuntime}
    (h : w.Good runId) (c : Call) : (c.step flow runId w).Good runId :=
  h.run_snd _

/-- A runtime without runs and files. -/
def emptyRuntime : FlowRuntime := ⟨∅, ∅, ∅, ∅, ∅, [], []⟩

/-- The run is started, and the calls follow one after the other. -/
def afterCalls (flow : FlowDefinition) (runId initialInput : String) (w : FlowRuntime)
    (calls : List Call) : FlowRuntime :=
  History.play (Call.step flow runId) ((startRun runId flow initialInput).run w).2 calls

end Cronymax.Flow
