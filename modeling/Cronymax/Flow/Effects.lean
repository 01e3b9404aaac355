import Cronymax.Flow.Operations

/-! What the operations achieve on a run while the file system works, in whatever environment: the
events of their traces (snapshots, marks, and recorded invocations), in order, and the invocations
for which they return a context. -/

namespace Cronymax.Flow

open Atomic FlowRuntime

/-- The section takes a snapshot, marks a status, invokes or registers. -/
@[grind =] def Act.isEvent : Act → Bool
  | .snapshot _ | .markPortStatus _ _ _ _ | .markPortStatusUnchecked _ _ _ _
  | .recordInvocation _ _ _ | .register _ => true
  | _ => false

/-- The sections of a run that are events, in order. -/
@[grind =] def events (tr : List (Act × FlowRuntime)) : List Act := (tr.map (·.1)).filter Act.isEvent

@[simp] theorem events_nil : events [] = [] := rfl

@[simp] theorem events_append (tr tr' : List (Act × FlowRuntime)) :
    events (tr ++ tr') = events tr ++ events tr' := by
  simp [events]

@[simp] theorem events_cons (a : Act) (w : FlowRuntime) (tr : List (Act × FlowRuntime)) :
    events ((a, w) :: tr) = if a.isEvent then a :: events tr else events tr := by
  by_cases h : a.isEvent = true <;> simp [events, h]

theorem portStatus_after {runId : String} {tr : List (Act × FlowRuntime)} {w : FlowRuntime}
    (hRun : (w.getRun runId).isSome = true) (node port : String) :
    (Prog.after w tr).portStatus runId node port =
      (events tr).foldl (fun old a => a.newStatus runId node port old)
        (w.portStatus runId node port) := by
  induction tr generalizing w with
  | nil => rfl
  | cons e tr ih =>
    obtain ⟨a, t⟩ := e
    have hTail := ih (w := a.apply w) (a.isSome_apply hRun)
    rw [a.portStatus_apply hRun] at hTail
    rw [Prog.after_cons, events_cons]
    refine hTail.trans ?_
    split
    · rfl
    · rename_i h
      rw [Act.newStatus_of_not_deed]
      cases a <;> first | rfl | exact absurd rfl h

/-- The section invokes the node with a trigger of this kind. -/
@[grind =] def Act.invokes (runId nodeId : String) (kind : TriggerKind) : Act → Bool
  | .recordInvocation runId' node trigger =>
    runId' = runId && node = nodeId && trigger.kind = kind
  | _ => false

/-- How often the record says that the node was invoked with such a trigger. -/
def invocationCount (runId nodeId : String) (kind : TriggerKind) (w : FlowRuntime) : Nat :=
  match w.getRun runId with
  | some s => (s.invocations nodeId).countP (·.kind = kind)
  | none => 0

section Counting

variable {runId nodeId : String} {kind : TriggerKind}

theorem countP_invoked (a : Act) (hTarget : a.target = some runId) :
    (a.invoked nodeId).countP (·.kind = kind) = if a.invokes runId nodeId kind then 1 else 0 := by
  cases a with
  | recordInvocation runId' node trigger =>
    obtain rfl : runId' = runId := by simpa [Act.target] using hTarget
    by_cases h : node = nodeId
    · by_cases hKind : trigger.kind = kind <;> simp [Act.invoked, Act.invokes, h, hKind]
    · simp [Act.invoked, Act.invokes, h]
  | _ => rfl

theorem invocationCount_apply {a : Act} {w : FlowRuntime} (hRun : (w.getRun runId).isSome = true)
    (ha : ∀ state, a ≠ .register state) :
    invocationCount runId nodeId kind (a.apply w) =
      invocationCount runId nodeId kind w + if a.invokes runId nodeId kind then 1 else 0 := by
  obtain ⟨s, hs⟩ := Option.isSome_iff_exists.mp hRun
  simp only [invocationCount, a.getRun_apply hs, hs]
  by_cases hTarget : a.target = some runId
  · rw [Act.onRun, if_pos hTarget, Act.invocations_change ha, List.countP_append,
      countP_invoked a hTarget]
  · have hOther : a.invokes runId nodeId kind = false := by
      cases a <;> simp_all [Act.target, Act.invokes]
    simp [Act.onRun, hTarget, hOther]

theorem invocationCount_after {tr : List (Act × FlowRuntime)} {w : FlowRuntime}
    (hRun : (w.getRun runId).isSome = true) (hTrace : ∀ e ∈ tr, ∀ state, e.1 ≠ .register state) :
    invocationCount runId nodeId kind (Prog.after w tr) =
      invocationCount runId nodeId kind w + tr.countP fun e => e.1.invokes runId nodeId kind := by
  induction tr generalizing w with
  | nil => rfl
  | cons e tr ih =>
    rw [Prog.after_cons, List.countP_cons]
    refine (ih (e.1.isSome_apply hRun) fun e' he' => hTrace e' (List.mem_cons_of_mem _ he')).trans ?_
    rw [invocationCount_apply hRun (hTrace e List.mem_cons_self)]
    omega

theorem countP_events {test : Act → Bool} (hTest : ∀ a, test a = true → a.isEvent = true)
    (tr : List (Act × FlowRuntime)) : tr.countP (fun e => test e.1) = (events tr).countP test := by
  rw [events, List.countP_filter, List.countP_map]
  refine List.countP_congr fun e _ => ?_
  have := hTest e.1
  simp only [Function.comp_apply, Bool.and_eq_true]
  tauto

theorem Act.isEvent_of_invokes (a : Act) (h : a.invokes runId nodeId kind = true) :
    a.isEvent = true := by
  cases a <;> first | rfl | cases h

end Counting

/-- The node of a context and its trigger. -/
def InvocationContext.key (ctx : InvocationContext) : String × InvocationTrigger :=
  (ctx.nodeId, ctx.trigger)

/-- The events by which a node is activated. -/
def activationEvents (runId : String) (flow : FlowDefinition) (trigger : InvocationTrigger)
    (nodeId : String) : List Act :=
  match flow.node nodeId with
  | none => []
  | some n =>
    if n.owner = "human" then
      n.outputs.map fun output => .markPortStatusUnchecked runId nodeId output.port .awaitingOwner
    else [.recordInvocation runId nodeId trigger]

/-- The contexts that an activation returns, by their keys. -/
def activationKeys (flow : FlowDefinition) (trigger : InvocationTrigger) (nodeId : String) :
    List (String × InvocationTrigger) :=
  match flow.node nodeId with
  | none => []
  | some n => if n.owner = "human" then [] else [(nodeId, trigger)]

section Achieves

variable {runId : String}

theorem persistRun_achieves (s : FlowRunState) :
    (persistRun s).Achieves (Good runId) fun tr _ => events tr = [] := by
  refine .perform fun w hw => ?_
  rw [hw.1.fault]
  exact .done (by simp [Act.isEvent])

theorem readReviews_achieves (flowId runId' : String) :
    (readReviews flowId runId').Achieves (Good runId) fun tr _ => events tr = [] := by
  refine .perform fun w hw => ?_
  rw [hw.1.fault]
  exact .done (by simp [Act.isEvent])

theorem readReviewComments_achieves (flowId runId' port : String) :
    (readReviewComments flowId runId' port).Achieves (Good runId) fun tr _ => events tr = [] :=
  (readReviews_achieves _ _).bind fun _ _ h => .done (by simp [h])

theorem events_of_reviews {tr : List (Act × FlowRuntime)}
    (h : ∀ e ∈ tr, e.1.isReview = true) : events tr = [] := by
  refine List.filter_eq_nil_iff.mpr fun a ha => ?_
  obtain ⟨e, he, rfl⟩ := List.mem_map.mp ha
  have hReview := h e he
  cases he1 : e.1 <;> first | exact Bool.false_ne_true | (rw [he1] at hReview; cases hReview)

theorem noteReview_achieves (runId' doc node sha : String) (revision : UInt32) (status : String) :
    (noteReview runId' doc node sha revision status).Achieves (Good runId)
      fun tr _ => events tr = [] := by
  refine .perform fun w _ => ?_
  split
  · exact .done (by simp [Act.isEvent])
  · refine (upsertReviewState_only _ _ _ _ _ _ _).attempt_achieves.bind fun tr _ h => .done ?_
    simp [Act.isEvent, events_of_reviews h]

theorem updateRun_achieves (act : Act) (f : FlowRunState → FlowRunState)
    (hAct : act.isEvent = true) :
    (updateRun act runId f).Achieves (Good runId) fun tr _ => events tr = [act] := by
  refine .perform fun w hw => ?_
  obtain ⟨s, hs⟩ := hw.run
  simp only [hs]
  exact (persistRun_achieves _).bind fun _ _ h => .done (by simp [hAct, h])

theorem markPortStatus_achieves (node port : String) (status : PortStatus) :
    (markPortStatus runId node port status).Achieves (Good runId)
      fun tr _ => events tr = [.markPortStatus runId node port status] := by
  refine .perform fun w hw => ?_
  obtain ⟨s, hs⟩ := hw.run
  simp only [hs]
  split
  · exact (persistRun_achieves _).mono fun _ _ h => by simp [Act.isEvent, h]
  · exact .done (by simp [Act.isEvent])

theorem markPortStatusUnchecked_achieves (node port : String) (status : PortStatus) :
    (markPortStatusUnchecked runId node port status).Achieves (Good runId)
      fun tr _ => events tr = [.markPortStatusUnchecked runId node port status] :=
  (updateRun_achieves _ _ rfl).bind fun _ _ h => .done (by simp [h])

theorem recordInvocation_achieves (nodeId : String) (trigger : InvocationTrigger) :
    (recordInvocation runId nodeId trigger).Achieves (Good runId)
      fun tr _ => events tr = [.recordInvocation runId nodeId trigger] :=
  (updateRun_achieves _ _ rfl).bind fun _ _ h => .done (by simp [h])

theorem buildInvocationContext_achieves (nodeId : String) (trigger : InvocationTrigger)
    (flow : FlowDefinition) :
    (buildInvocationContext runId nodeId trigger flow).Achieves (Good runId) fun tr ctx =>
      events tr = [] ∧ ctx.map (·.key) = (flow.node nodeId).map fun _ => (nodeId, trigger) := by
  refine .perform fun w hw => ?_
  obtain ⟨s, hs⟩ := hw.run
  simp only [hs]
  cases hNode : flow.node nodeId with
  | none => exact .done (by simp [Act.isEvent])
  | some n =>
    have hFeedback : (feedbackFor s.flowId runId trigger).Achieves (Good runId)
        fun tr _ => events tr = [] := by
      unfold feedbackFor
      split
      · exact (readReviewComments_achieves _ _ _).bind fun _ _ h => .done (by simp [h])
      · exact .done rfl
    exact hFeedback.bind fun _ _ h => .done
      (by simp [Act.isEvent, h, InvocationContext.key])

theorem scheduleNodeWithContext_achieves (nodeId : String) (trigger : InvocationTrigger)
    (flow : FlowDefinition) :
    (scheduleNodeWithContext runId nodeId trigger flow).Achieves (Good runId) fun tr ctx =>
      events tr = [.recordInvocation runId nodeId trigger] ∧
        ctx.map (·.key) = (flow.node nodeId).map fun _ => (nodeId, trigger) := by
  refine (buildInvocationContext_achieves nodeId trigger flow).bind fun tr ctx h => ?_
  refine (recordInvocation_achieves nodeId trigger).bind fun tr' _ h' => .done ?_
  simpa [h.1, h.2] using h'

theorem activateNode_achieves (flow : FlowDefinition) (trigger : InvocationTrigger)
    (nodeId : String) :
    (activateNode runId flow nodeId trigger).Achieves (Good runId) fun tr ctxs =>
      events tr = activationEvents runId flow trigger nodeId ∧
        ctxs.map (·.key) = activationKeys flow trigger nodeId := by
  unfold activateNode activationEvents activationKeys
  cases hNode : flow.node nodeId with
  | none => exact .done ⟨rfl, rfl⟩
  | some n =>
    by_cases hHuman : n.owner = "human"
    · simp only [hHuman, if_true]
      have hMark : ∀ output ∈ n.outputs, ((do
          markPortStatusUnchecked runId nodeId output.port .awaitingOwner
          pure []) : Op (List InvocationContext)).Achieves (Good runId) fun tr ctxs =>
            events tr = [.markPortStatusUnchecked runId nodeId output.port .awaitingOwner] ∧
              ctxs.map (·.key) = [] := fun output _ =>
        (markPortStatusUnchecked_achieves _ _ _).bind fun _ _ h => .done ⟨by simpa using h, rfl⟩
      refine (Prog.Achieves.collect_view rfl events_append n.outputs hMark).mono fun tr ctxs h => ?_
      refine ⟨h.1.trans List.map_eq_flatMap.symm, h.2.trans ?_⟩
      simp
    · simp only [hHuman, if_false]
      refine (scheduleNodeWithContext_achieves nodeId trigger flow).bind fun tr ctx h => .done ?_
      refine ⟨by simpa using h.1, ?_⟩
      have hKey := congrArg Option.toList h.2
      simpa [hNode] using hKey

theorem activateNodes_achieves (flow : FlowDefinition) (trigger : InvocationTrigger)
    (nodes : List String) :
    (activateNodes runId flow trigger nodes).Achieves (Good runId) fun tr ctxs =>
      events tr = nodes.flatMap (activationEvents runId flow trigger) ∧
        ctxs.map (·.key) = nodes.flatMap (activationKeys flow trigger) :=
  .collect_view rfl events_append nodes fun nodeId _ => activateNode_achieves flow trigger nodeId

/-- The nodes that await the port and whose gates are open. -/
@[grind =] def readyNodes (flow : FlowDefinition) (producer port : String) (s : FlowRunState) : List String :=
  (flow.graph.nodesAwaiting producer port).filter (gateOpen · s flow.graph)

/-- The sections activate the ready nodes of the snapshot, and return a context for each. -/
def Joins (runId : String) (flow : FlowDefinition) (producer port : String)
    (tr : List (Act × FlowRuntime)) (ctxs : List InvocationContext) : Prop :=
  flow.graph.nodesAwaiting producer port = [] ∧ tr = [] ∧ ctxs = [] ∨
    ∃ w s tr', tr = (.snapshot runId, w) :: tr' ∧ w.getRun runId = some s ∧
      events tr' = (readyNodes flow producer port s).flatMap
        (activationEvents runId flow (andJoinTrigger producer port)) ∧
      ctxs.map (·.key) = (readyNodes flow producer port s).flatMap
        (activationKeys flow (andJoinTrigger producer port))

theorem fireAndJoinFor_achieves (producer port : String) (flow : FlowDefinition) :
    (fireAndJoinFor producer port runId flow).Achieves (Good runId)
      (Joins runId flow producer port) := by
  rw [fireAndJoinFor_eq]
  split
  · rename_i hEmpty
    exact .done (.inl ⟨hEmpty, rfl, rfl⟩)
  · refine .perform fun w hw => ?_
    obtain ⟨s, hs⟩ := hw.run
    simp only [hs]
    exact (activateNodes_achieves _ _ _).mono fun tr ctxs h =>
      .inr ⟨w, s, tr, rfl, hs, h.1, h.2⟩

theorem publishOutput_achieves (node port : String) (flow : FlowDefinition) :
    (publishOutput runId node port flow).Achieves (Good runId) fun tr _ => events tr = [] := by
  unfold publishOutput
  split
  · exact .done rfl
  · refine .perform fun w _ => ?_
    simp only
    split
    · exact .done (by simp [Act.isEvent])
    · exact .perform fun _ _ => .done (by simp [Act.isEvent])

theorem approvePort_achieves (node port : String) (flow : FlowDefinition) :
    (approvePort runId node port flow).Achieves (Good runId)
      fun tr _ => events tr = [.markPortStatus runId node port .approved] :=
  (markPortStatus_achieves _ _ _).bind fun _ _ h1 => (publishOutput_achieves _ _ _).bind
    fun _ _ h2 => (noteReview_achieves _ _ _ _ _ _).mono fun _ _ h3 => by simp [h1, h2, h3]

/-- What the cascade does after the approval itself: joins, cycles and the producer again. -/
def Follows (runId : String) (flow : FlowDefinition) (node port : String)
    (tr : List (Act × FlowRuntime)) (ctxs : List InvocationContext) : Prop :=
  ∃ reinvoked, (reinvoked = [] ∨ reinvoked = [(node, implicitReinvokeTrigger port)]) ∧
    events tr = (flow.graph.nodesRetriggeredBy node port).flatMap
      (activationEvents runId flow (cycleRetriggerTrigger node port)) ++
        reinvoked.map (fun key => .recordInvocation runId key.1 key.2) ∧
    ctxs.map (·.key) = (flow.graph.nodesRetriggeredBy node port).flatMap
      (activationKeys flow (cycleRetriggerTrigger node port)) ++ reinvoked

theorem reinvokeProducer_achieves (node port : String) (flow : FlowDefinition) :
    (reinvokeProducer runId node port flow).Achieves (Good runId) fun tr ctxs =>
      ∃ reinvoked, (reinvoked = [] ∨ reinvoked = [(node, implicitReinvokeTrigger port)]) ∧
        events tr = reinvoked.map (fun key => .recordInvocation runId key.1 key.2) ∧
        ctxs.map (·.key) = reinvoked := by
  unfold reinvokeProducer
  split
  · exact .done ⟨[], .inl rfl, rfl, rfl⟩
  · rename_i producer hNode
    split
    · exact .done ⟨[], .inl rfl, rfl, rfl⟩
    · refine .perform fun w hw => ?_
      obtain ⟨s, hs⟩ := hw.run
      simp only [hs]
      split
      · exact .done ⟨[], .inl rfl, by simp [Act.isEvent], rfl⟩
      · refine (scheduleNodeWithContext_achieves _ _ _).bind fun tr ctx h => .done ?_
        refine ⟨_, .inr rfl, by simp [Act.isEvent, h.1], ?_⟩
        have hKey := congrArg Option.toList h.2
        simpa [hNode] using hKey

theorem followApproval_achieves (node port : String) (flow : FlowDefinition)
    (joined : List InvocationContext) :
    (followApproval runId node port flow joined).Achieves (Good runId) fun tr ctxs =>
      ∃ rest, ctxs = joined ++ rest ∧ Follows runId flow node port tr rest := by
  refine (activateNodes_achieves _ _ _).bind fun tr retriggered h1 =>
    (reinvokeProducer_achieves _ _ _).bind fun tr' reinvoked h2 => .done ?_
  obtain ⟨again, hAgain, hEvents, hKeys⟩ := h2
  refine ⟨retriggered ++ reinvoked, by simp, again, hAgain, ?_, ?_⟩
  · simp [h1.1, hEvents]
  · simp [h1.2, hKeys]

theorem cascadeApproval_achieves (node port : String) (flow : FlowDefinition) :
    (cascadeApproval runId node port flow).Achieves (Good runId) fun tr ctxs =>
      ∃ mark join follow joined rest, tr = mark ++ (join ++ follow) ∧ ctxs = joined ++ rest ∧
        events mark = [.markPortStatus runId node port .approved] ∧
        Joins runId flow node port join joined ∧ Follows runId flow node port follow rest :=
  (approvePort_achieves _ _ _).bind fun mark _ hMark =>
    (fireAndJoinFor_achieves _ _ _).bind fun join joined hJoin =>
      (followApproval_achieves _ _ _ joined).mono fun follow _ ⟨rest, hCtxs, hRest⟩ =>
        ⟨mark, join, follow, joined, rest, rfl, hCtxs, hMark, hJoin, hRest⟩

theorem onDocumentApproved_achieves (node port : String) (flow : FlowDefinition) :
    (onDocumentApproved runId node port flow).Achieves (Good runId) fun tr ctxs =>
      ∃ w tr', tr = (.portStatus runId node port, w) :: tr' ∧
        (w.portStatus runId node port = .approved ∧ tr' = [] ∧ ctxs = [] ∨
          w.portStatus runId node port ≠ .approved ∧ ∃ mark join follow joined rest,
            tr' = mark ++ (join ++ follow) ∧ ctxs = joined ++ rest ∧
            events mark = [.markPortStatus runId node port .approved] ∧
            Joins runId flow node port join joined ∧
            Follows runId flow node port follow rest) := by
  refine .perform fun w hw => ?_
  simp only [Prog.pure_eq]
  split
  · rename_i hApproved
    exact .done ⟨w, [], rfl, .inl ⟨hApproved, rfl, rfl⟩⟩
  · rename_i hNot
    exact (cascadeApproval_achieves _ _ _).mono fun tr ctxs h => ⟨w, tr, rfl, .inr ⟨hNot, h⟩⟩

theorem onRejectedRequeue_achieves (node port : String) (flow : FlowDefinition) :
    (onRejectedRequeue runId node port flow).Achieves (Good runId) fun tr ctx =>
      events tr = [.markPortStatusUnchecked runId node port .pending,
        .recordInvocation runId node (rejectedRequeueTrigger port)] ∧
      ctx.map (·.key) = (flow.node node).map fun _ => (node, rejectedRequeueTrigger port) :=
  (markPortStatusUnchecked_achieves _ _ _).bind fun _ _ h1 =>
    (noteReview_achieves _ _ _ _ _ _).bind fun _ _ h2 =>
      (scheduleNodeWithContext_achieves _ _ _).mono fun _ _ h3 => ⟨by simp [h1, h2, h3.1], h3.2⟩

end Achieves

end Cronymax.Flow
