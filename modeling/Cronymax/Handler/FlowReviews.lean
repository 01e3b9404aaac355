import Cronymax.Handler.ResolveReview

/-! Which of the two state machines a `ResolveReview` request moves.  A request for an output of a
flow run reaches the flow runtime only through ids that are UUIDs, so that the form
`<node>:<port>` is refused. -/

namespace Cronymax.Handler

open Atomic Authority Cronymax.Flow Cronymax.Flow.FlowRuntime

/-- What a run is, by its lookups. -/
structure RunView where
  record : FlowRunState
  invocations : String → List InvocationTrigger
  ports : String → String → PortStatus
  cycles : String → String → UInt32

/-- What a run shows apart from how its maps are kept. -/
def runView (s : FlowRunState) : RunView :=
  ⟨{ s with nodeStates := ∅ }, s.invocations, s.portStatus, s.portCycles⟩

/-- The runs and the files of a flow runtime. -/
structure FlowState where
  runs : String → Option RunView
  stateFiles : AList fun _ : String × String => FlowRunState
  reviewFiles : AList fun _ : String × String => Reviews

/-- What a flow runtime shows. -/
def flowState (w : FlowRuntime) : FlowState :=
  ⟨fun runId => (w.getRun runId).map runView, w.stateFiles, w.reviewFiles⟩

/-- The call changes something of the run. -/
def changes (w : FlowRuntime) (runId : String) : Flow.Call → Bool
  | .approved node port => (w.getRun runId).isSome && w.portStatus runId node port ≠ .approved
  | .rejected node port =>
    (w.getRun runId).isSome && (w.portStatus runId node port ≠ .pending || w.fault.isNone)
  | _ => true

section Calls

variable {w : FlowRuntime} {s : FlowRunState} {flow : FlowDefinition} {runId node port : String}

theorem modifyRun_of_no_run (hRun : w.getRun runId = none) (f : FlowRunState → FlowRunState) :
    w.modifyRun runId f = w := by
  rw [FlowRuntime.modifyRun, hRun]

variable (node port) in
theorem flowState_ne_of_port {w' : FlowRuntime} (hRun : (w.getRun runId).isSome = true)
    (hRun' : (w'.getRun runId).isSome = true)
    (hPort : w'.portStatus runId node port ≠ w.portStatus runId node port) :
    flowState w' ≠ flowState w := by
  intro hSame
  obtain ⟨s, hs⟩ := Option.isSome_iff_exists.mp hRun
  obtain ⟨s', hs'⟩ := Option.isSome_iff_exists.mp hRun'
  have hViews : some (runView s') = some (runView s) := by
    have := congrFun (congrArg FlowState.runs hSame) runId
    simpa only [flowState, hs, hs', Option.map_some] using this
  have hPorts := congrArg RunView.ports (Option.some.inj hViews)
  rw [FlowRuntime.portStatus_of_getRun hs, FlowRuntime.portStatus_of_getRun hs'] at hPort
  exact hPort (congrFun (congrFun hPorts node) port)

theorem approved_unchanged (hSame : changes w runId (.approved node port) = false) :
    Flow.Call.step flow runId w (.approved node port) = w := by
  unfold Flow.Call.step Flow.Call.op
  by_cases hApproved : w.portStatus runId node port = .approved
  · rw [(onDocumentApproved_of_approved flow hApproved).1]
  · have hRun : w.getRun runId = none := by simpa [changes, hApproved] using hSame
    rw [(onDocumentApproved_of_not_approved flow hApproved).1]
    simp [cascadeApproval, approvePort, markPortStatus,
      Prog.run, Acts.apply, Act.apply, hRun, modifyRun_of_no_run hRun]

variable (flow) in
theorem approved_status (hRun : (w.getRun runId).isSome = true)
    (hPort : w.portStatus runId node port ≠ .approved) :
    (Flow.Call.step flow runId w (.approved node port)).portStatus runId node port = .approved ∨
      (Flow.Call.step flow runId w (.approved node port)).portStatus runId node port =
        .awaitingOwner := by
  unfold Flow.Call.step Flow.Call.op
  rw [(onDocumentApproved_of_not_approved flow hPort).1]
  obtain ⟨next, hNext⟩ : ∃ next, cascadeApproval runId node port flow =
      .act (.markPortStatus runId node port .approved) next := ⟨_, rfl⟩
  have hOnly := cascadeApproval_only runId node port flow
  rw [hNext] at hOnly ⊢
  let marked := Act.apply (.markPortStatus runId node port .approved) w
  have hMarked : marked.portStatus runId node port = .approved := by
    rw [Act.portStatus_apply _ hRun]
    simp [hPort]
  refine portStatus_run_of_only (w := marked) (hOnly.2 w)
    (I := fun status => status = .approved ∨ status = .awaitingOwner) (fun a ha old hOld => ?_)
    (Act.isSome_apply _ hRun) (.inl hMarked)
  rcases ha.newStatus node port old with h | ⟨-, h⟩ | ⟨-, h⟩
  · rwa [h]
  · exact .inl h
  · exact .inr h

theorem rejected_step : Flow.Call.step flow runId w (.rejected node port) =
    ((onRejectedRequeue runId node port flow).run w).2 :=
  Prog.run_map_snd _ _ _

theorem runView_setPort_pending (hPort : s.portStatus node port = .pending) :
    runView (s.setPort node port .pending) = runView s := by
  have hPorts : (s.setPort node port .pending).portStatus = s.portStatus := by
    funext node' port'
    rw [FlowRunState.portStatus_setPort]
    split
    · rename_i h
      rw [h.1, h.2, hPort]
    · rfl
  have hInvocations : (s.setPort node port .pending).invocations = s.invocations :=
    funext fun node' => s.invocations_modifyNode (by intro _; rfl) node'
  have hCycles : (s.setPort node port .pending).portCycles = s.portCycles :=
    funext fun node' => funext fun port' => s.portCycles_modifyNode (by intro _; rfl) node' port'
  rw [runView, hPorts, hInvocations, hCycles]
  rfl

theorem rejected_unchanged (hSame : changes w runId (.rejected node port) = false) :
    flowState (Flow.Call.step flow runId w (.rejected node port)) = flowState w := by
  rw [rejected_step]
  cases hRun : w.getRun runId with
  | none =>
    simp [onRejectedRequeue, markPortStatusUnchecked,
      updateRun, Prog.run, Acts.apply, Act.apply, hRun, modifyRun_of_no_run hRun]
  | some s =>
    have hBoth : w.portStatus runId node port = .pending ∧ w.fault.isSome = true := by
      simpa [changes, hRun, Option.isSome_iff_ne_none] using hSame
    obtain ⟨e, hFault⟩ := Option.isSome_iff_exists.mp hBoth.2
    have hReset : (w.modifyRun runId (·.setPort node port .pending)) =
        { w with runs := w.runs.insert runId (s.setPort node port .pending) } := by
      rw [FlowRuntime.modifyRun, hRun]
    have hFault' : FlowRuntime.fault
        { w with runs := w.runs.insert runId (s.setPort node port .pending) } = some e := hFault
    simp only [onRejectedRequeue, markPortStatusUnchecked,
      updateRun, persistRun, Prog.perform_bind, Prog.act_bind, Prog.run,
      Acts.apply, Act.apply, hRun, hReset, hFault', Prog.fail_bind, Option.isSome_some, if_true]
    have hRuns : (fun runId' => (FlowRuntime.getRun
        { w with runs := w.runs.insert runId (s.setPort node port .pending) } runId').map runView) =
          fun runId' => (w.getRun runId').map runView := by
      funext runId'
      by_cases hOther : runId' = runId
      · subst hOther
        have hPort : s.portStatus node port = .pending :=
          (FlowRuntime.portStatus_of_getRun hRun node port).symm.trans hBoth.1
        rw [hRun, FlowRuntime.getRun, AList.lookup_insert, Option.map_some, Option.map_some,
          runView_setPort_pending hPort]
      · rw [FlowRuntime.getRun, AList.lookup_insert_ne hOther]
        rfl
    exact congrArg (fun runs => FlowState.mk runs w.stateFiles w.reviewFiles) hRuns

theorem rejected_status (hRun : (w.getRun runId).isSome = true) :
    (Flow.Call.step flow runId w (.rejected node port)).portStatus runId node port = .pending := by
  rw [rejected_step]
  obtain ⟨next, hNext⟩ : ∃ next, onRejectedRequeue runId node port flow =
      .act (.markPortStatusUnchecked runId node port .pending) next := ⟨_, rfl⟩
  have hOnly := onRejectedRequeue_only runId node port flow
  rw [hNext] at hOnly ⊢
  let reset := Act.apply (.markPortStatusUnchecked runId node port .pending) w
  have hReset : reset.portStatus runId node port = .pending := by
    rw [Act.portStatus_apply _ hRun]
    simp
  refine portStatus_run_of_only (w := reset) (hOnly.2 w) (I := fun status => status = .pending)
    (fun a ha old hOld => ?_) (Act.isSome_apply _ hRun) hReset
  rcases ha.newStatus node port old with h | ⟨-, h⟩
  · rwa [h]
  · exact h

variable (flow runId) in
theorem buildInvocationContext_ok (nodeId : String) (trigger : InvocationTrigger) (w : FlowRuntime) :
    ∃ ctx, ((buildInvocationContext runId nodeId trigger flow).run w).1 = .ok ctx := by
  have hReads (flowId port : String) (t : FlowRuntime) :
      ∃ comments, ((readReviewComments flowId runId port).run t).1 = .ok comments := by
    cases hFault : t.fault <;>
      simp [readReviewComments, readReviews, Prog.run, hFault]
  have hFeedback (flowId : String) (t : FlowRuntime) :
      ∃ comments, ((feedbackFor flowId runId trigger).run t).1 = .ok comments := by
    unfold feedbackFor
    split
    · rename_i port _ _
      obtain ⟨comments, hRead⟩ := hReads flowId port t
      exact ⟨some comments, by rw [Prog.run_bind_of_ok hRead]; rfl⟩
    · exact ⟨none, rfl⟩
  simp only [buildInvocationContext, Prog.perform_bind, Prog.run]
  split
  · rename_i s _ _ _
    obtain ⟨comments, hRead⟩ := hFeedback s.flowId (Acts.apply (Act.getRun runId) w)
    exact ⟨_, by rw [Prog.run_bind_of_ok hRead]; rfl⟩
  · exact ⟨none, rfl⟩

variable (flow node port) in
/-- A requeue whose reset is saved records an invocation of the node, whatever fails later. -/
theorem requeue_invokes (hRun : w.getRun runId = some s) (hFault : w.fault = none) :
    ∃ e ∈ (onRejectedRequeue runId node port flow).trace w,
      e.1 = .recordInvocation runId node (rejectedRequeueTrigger port) := by
  have hReset : ((markPortStatusUnchecked runId node port .pending).run w).1 = .ok () := by
    have hLater : (Act.apply (.markPortStatusUnchecked runId node port .pending) w).fault = none := by
      rw [Act.apply, FlowRuntime.modifyRun, hRun]
      exact hFault
    simp [markPortStatusUnchecked, updateRun, persistRun,
      Prog.run, Acts.apply, hRun, hLater]
  obtain ⟨ctx, hBuild⟩ := buildInvocationContext_ok flow runId node
    (rejectedRequeueTrigger port) ((noteReview runId port node "" 0
      "CHANGES_REQUESTED").run
        ((markPortStatusUnchecked runId node port .pending).run w).2).2
  have hRecord (t : FlowRuntime) : ∃ rest, (recordInvocation runId node
      (rejectedRequeueTrigger port) >>= fun _ => (pure ctx : Flow.Op _)).trace t =
        (.recordInvocation runId node (rejectedRequeueTrigger port), t) :: rest := ⟨_, rfl⟩
  unfold onRejectedRequeue scheduleNodeWithContext
  rw [Prog.trace_bind_of_ok hReset, Prog.trace_bind_of_ok (noteReview_ok _ _ _ _ _ _ _),
    Prog.trace_bind_of_ok hBuild]
  obtain ⟨rest, hRest⟩ := hRecord ((buildInvocationContext runId node (rejectedRequeueTrigger port)
    flow).run ((noteReview runId port node "" 0 "CHANGES_REQUESTED").run
      ((markPortStatusUnchecked runId node port .pending).run w).2).2).2
  rw [hRest]
  exact ⟨_, List.mem_append_right _ (List.mem_append_right _ (List.mem_append_right _
    List.mem_cons_self)), rfl⟩

theorem requeue_changes (hRun : (w.getRun runId).isSome = true) (hFault : w.fault = none) :
    flowState (Flow.Call.step flow runId w (.rejected node port)) ≠ flowState w := by
  obtain ⟨s, hs⟩ := Option.isSome_iff_exists.mp hRun
  obtain ⟨e, he, hInvokes⟩ := requeue_invokes flow node port hs hFault
  intro hSame
  rw [rejected_step] at hSame
  have hRun' := isSome_run (onRejectedRequeue runId node port flow) hRun
  obtain ⟨s', hs'⟩ := Option.isSome_iff_exists.mp hRun'
  have hViews : some (runView s') = some (runView s) := by
    have := congrFun (congrArg FlowState.runs hSame) runId
    simpa only [flowState, hs, hs', Option.map_some] using this
  have hInvocations : s'.invocations node = s.invocations node :=
    congrFun (congrArg RunView.invocations (Option.some.inj hViews)) node
  have hCount : invocationCount runId node .rejectedRequeue
      (Prog.after w ((onRejectedRequeue runId node port flow).trace w)) = _ :=
    invocationCount_after hRun fun e' he' state hState => by
      rcases (onRejectedRequeue_only runId node port flow).trace w e' he' with h | h | h <;>
        rw [hState] at h <;> cases h
  rw [← Prog.run_snd] at hCount
  simp only [invocationCount, hs, hs', hInvocations] at hCount
  have hSome : 0 < ((onRejectedRequeue runId node port flow).trace w).countP fun e =>
      e.1.invokes runId node .rejectedRequeue := by
    refine List.countP_pos_iff.mpr ⟨e, he, ?_⟩
    rw [hInvokes]
    simp [Act.invokes, rejectedRequeueTrigger]
  omega

variable (flow) in
theorem step_unchanged_iff (decision : ReviewDecision)
    (hIdle : w.portStatus runId node port ≠ .inReview ∧
      w.portStatus runId node port ≠ .awaitingOwner) :
    flowState (Flow.Call.step flow runId w (decisionCall decision node port)) = flowState w ↔
      changes w runId (decisionCall decision node port) = false := by
  unfold decisionCall
  refine ⟨fun hSame => Bool.eq_false_iff.mpr fun hChanges => ?_, fun hSame => ?_⟩
  · split at hChanges
    · rename_i hDecision
      rw [if_pos hDecision] at hSame
      obtain ⟨hRun, hPort⟩ : (w.getRun runId).isSome = true ∧
          w.portStatus runId node port ≠ .approved := by simpa [changes] using hChanges
      refine flowState_ne_of_port node port hRun (isSome_run _ hRun) ?_ hSame
      intro hStill
      rcases approved_status flow hRun hPort with h | h
      · exact hPort (hStill.symm.trans h)
      · exact hIdle.2 (hStill.symm.trans h)
    · rename_i hDecision
      rw [if_neg hDecision] at hSame
      obtain ⟨hRun, hPort⟩ : (w.getRun runId).isSome = true ∧
          (w.portStatus runId node port ≠ .pending ∨ w.fault = none) := by
        simpa [changes] using hChanges
      rcases hPort with hPort | hFault
      · refine flowState_ne_of_port node port hRun (isSome_run _ hRun) ?_ hSame
        exact fun hStill => hPort (hStill.symm.trans (rejected_status hRun))
      · exact requeue_changes hRun hFault hSame
  · split at hSame
    · rename_i hDecision
      rw [if_pos hDecision, approved_unchanged hSame]
    · rename_i hDecision
      rw [if_neg hDecision]
      exact rejected_unchanged hSame

end Calls

section Requests

variable (parseUuid : String → Option String) (h : RuntimeHandler) (req : ResolveReview)

/-- The port waits for the decision. -/
def Waits (ctx : RunContext) (node port : String) : Prop :=
  let status := (h.runtimes ctx.workspaceRoot).portStatus (ctx.flowRunId.getD "") node port
  status = .inReview ∨ status = .awaitingOwner

/-- The request approves or rejects an output that waits, under the documented form of its id. -/
structure ForOutput (ctx : RunContext) (node port : String) : Prop where
  registered : ctx ∈ h.flowContexts
  run : ctx.flowRunId = some req.runId
  review : req.reviewId = node ++ ":" ++ port
  waits : Waits h ctx node port
  decision : req.decision ≠ .defer

/-- The request is acknowledged, and the port is decided as it says. -/
def Resolved (ctx : RunContext) (node port : String) : Prop :=
  (h.handleResolveReview parseUuid req).1 = .ack ∧
    ∃ target, h.target ctx = some target ∧
      (h.handleResolveReview parseUuid req).2.1 = [⟨target, decisionCall req.decision node port⟩]

/-- Neither an output that waits nor a pending review of the authority goes by the id. -/
structure NamesNothing : Prop where
  output : ∀ ctx ∈ h.flowContexts, (ctx.flowRunId = some req.runId ∨
    ∃ run, requestedRun parseUuid h.authority req = .ok run ∧ ctx.flowRunId = some run.uuid) →
      ∀ node port, req.reviewId = node ++ ":" ++ port → ¬Waits h ctx node port
  review : ∀ run uuid, requestedRun parseUuid h.authority req = .ok run →
    parseUuid req.reviewId = some uuid → h.authority.awaits run ⟨uuid⟩ = false

/-- The request is answered with an error and leaves the flows and the authority as they are. -/
structure Refused : Prop where
  error : ∃ e, (h.handleResolveReview parseUuid req).1 = .err e
  flows : ∀ root, flowState
    (runtimeAfter (h.handleResolveReview parseUuid req).2.1 root (h.runtimes root)) =
      flowState (h.runtimes root)
  authority : (h.handleResolveReview parseUuid req).2.2 = h.authority

/-- The ids of the request are UUIDs, the context is the one that is found for its run, the
definition of its flow loads, and the first colon of the id ends the node. -/
structure Forwards (ctx : RunContext) (node port : String) : Prop where
  review : (parseUuid req.reviewId).isSome
  found : ∃ run, requestedRun parseUuid h.authority req = .ok run ∧
    h.flowContext req.runId run = some ctx
  loads : (h.target ctx).isSome
  split : req.reviewId = node ++ ":" ++ port ∧ ':' ∉ node.toList

/-- The request names a pending review of its run. -/
def Granted : Prop :=
  ∃ run uuid, requestedRun parseUuid h.authority req = .ok run ∧
    parseUuid req.reviewId = some uuid ∧
    h.authority.grants run ⟨uuid⟩ req.decision.permission

/-- The request reaches the flow runtime, although its id names nothing, and changes a run. -/
def Disturbs : Prop :=
  ∃ ctx node port, Forwards parseUuid h req ctx node port ∧
    changes (h.runtimes ctx.workspaceRoot) (ctx.flowRunId.getD "")
      (decisionCall req.decision node port)

variable {parseUuid h req}

theorem decisionCall_inj {decision : ReviewDecision} {node port node' port' : String}
    (hCall : decisionCall decision node port = decisionCall decision node' port') :
    node = node' ∧ port = port' := by
  unfold decisionCall at hCall
  split at hCall <;> simpa using hCall

variable (parseUuid h req) in
theorem handle_cases :
    (∃ e, h.handleResolveReview parseUuid req = (.err e, [], h.authority) ∧
      ∀ run, requestedRun parseUuid h.authority req = .ok run → parseUuid req.reviewId = none) ∨
    ∃ run uuid, requestedRun parseUuid h.authority req = .ok run ∧
      parseUuid req.reviewId = some uuid ∧
      (h.handleResolveReview parseUuid req).2.1 =
        ((h.flowContext req.runId run).bind (h.flowTask req)).toList ∧
      (h.handleResolveReview parseUuid req).2.2 = h.authority.settle
        (h.authority.resolveReview run ⟨uuid⟩ req.decision.permission req.notes) ∧
      if h.authority.grants run ⟨uuid⟩ req.decision.permission then
        (h.handleResolveReview parseUuid req).1 = .ack
      else ∃ e, (h.handleResolveReview parseUuid req).1 = .err e := by
  unfold RuntimeHandler.handleResolveReview
  cases hRun : requestedRun parseUuid h.authority req with
  | error e => exact .inl ⟨e, rfl, fun _ hOk => by cases hOk⟩
  | ok run =>
    cases hReview : parseUuid req.reviewId with
    | none => exact .inl ⟨_, by simp only [parseReview, hReview]; rfl, fun _ _ => rfl⟩
    | some uuid =>
      refine .inr ⟨run, uuid, rfl, rfl, ?_⟩
      have hAnswer := resolveReview_answer (w := h.authority) run ⟨uuid⟩ req.decision.permission
        req.notes
      simp only [parseReview, hReview]
      refine ⟨trivial, trivial, ?_⟩
      split
      · rename_i hGrants
        rw [if_pos hGrants] at hAnswer
        rw [hAnswer]
      · rename_i hGrants
        rw [if_neg hGrants] at hAnswer
        obtain ⟨e, hError⟩ := hAnswer
        exact ⟨_, by rw [hError]⟩

theorem ack_iff : (h.handleResolveReview parseUuid req).1 = .ack ↔ Granted parseUuid h req := by
  rcases handle_cases parseUuid h req with
    ⟨e, hHandle, hUnread⟩ | ⟨run, uuid, hRun, hReview, -, -, hResponse⟩
  · rw [hHandle]
    constructor
    · intro hAck
      cases hAck
    · rintro ⟨run, uuid, hRun, hReview, -⟩
      rw [hUnread run hRun] at hReview
      cases hReview
  · constructor
    · intro hAck
      refine ⟨run, uuid, hRun, hReview, ?_⟩
      by_contra hGrants
      rw [if_neg hGrants] at hResponse
      obtain ⟨e, hError⟩ := hResponse
      rw [hAck] at hError
      cases hError
    · rintro ⟨run', uuid', hRun', hReview', hGrants⟩
      obtain rfl : run' = run := Except.ok.inj (hRun'.symm.trans hRun)
      obtain rfl : uuid' = uuid := Option.some.inj (hReview'.symm.trans hReview)
      rwa [if_pos hGrants] at hResponse

theorem flowTask_eq_some {ctx : RunContext} {c : FlowCall} :
    h.flowTask req ctx = some c ↔ ∃ target node port, h.target ctx = some target ∧
      (req.reviewId = node ++ ":" ++ port ∧ ':' ∉ node.toList) ∧
      c = ⟨target, decisionCall req.decision node port⟩ := by
  unfold RuntimeHandler.flowTask
  rw [Option.bind_eq_some_iff]
  refine exists_congr fun target => ?_
  rw [Option.map_eq_some_iff]
  constructor
  · rintro ⟨hTarget, ⟨node, port⟩, hSplit, rfl⟩
    exact ⟨node, port, hTarget, splitReviewId_eq_some.mp hSplit, rfl⟩
  · rintro ⟨node, port, hTarget, hSplit, rfl⟩
    exact ⟨hTarget, (node, port), splitReviewId_eq_some.mpr hSplit, rfl⟩

variable (parseUuid h req) in
theorem calls_cases : (h.handleResolveReview parseUuid req).2.1 = [] ∧
      (∀ ctx node port, ¬Forwards parseUuid h req ctx node port) ∨
    ∃ ctx node port target, Forwards parseUuid h req ctx node port ∧ h.target ctx = some target ∧
      (h.handleResolveReview parseUuid req).2.1 =
        [⟨target, decisionCall req.decision node port⟩] ∧
      ∀ ctx' node' port', Forwards parseUuid h req ctx' node' port' →
        ctx' = ctx ∧ node' = node ∧ port' = port := by
  rcases handle_cases parseUuid h req with
    ⟨e, hHandle, hUnread⟩ | ⟨run, uuid, hRun, hReview, hCalls, -, -⟩
  · rw [hHandle]
    refine .inl ⟨rfl, fun ctx node port hForwards => ?_⟩
    obtain ⟨run, hRun, -⟩ := hForwards.found
    have hSome := hForwards.review
    rw [hUnread run hRun] at hSome
    cases hSome
  · rw [hCalls]
    have hFound {ctx : RunContext} {node port : String}
        (hForwards : Forwards parseUuid h req ctx node port) :
        h.flowContext req.runId run = some ctx := by
      obtain ⟨run', hRun', hContext⟩ := hForwards.found
      obtain rfl : run' = run := Except.ok.inj (hRun'.symm.trans hRun)
      exact hContext
    cases hTask : (h.flowContext req.runId run).bind (h.flowTask req) with
    | none =>
      refine .inl ⟨rfl, fun ctx node port hForwards => ?_⟩
      obtain ⟨target, hTarget⟩ := Option.isSome_iff_exists.mp hForwards.loads
      rw [hFound hForwards, Option.bind_some, flowTask_eq_some.mpr
        ⟨target, node, port, hTarget, hForwards.split, rfl⟩] at hTask
      cases hTask
    | some c =>
      obtain ⟨ctx, hContext, hCall⟩ := Option.bind_eq_some_iff.mp hTask
      obtain ⟨target, node, port, hTarget, hSplit, rfl⟩ := flowTask_eq_some.mp hCall
      refine .inr ⟨ctx, node, port, target, ⟨by rw [hReview]; rfl, ⟨run, hRun, hContext⟩,
        by rw [hTarget]; rfl, hSplit⟩, hTarget, rfl, fun ctx' node' port' hForwards => ?_⟩
      have hParts := (splitReviewId_eq_some.mpr hForwards.split).symm.trans
        (splitReviewId_eq_some.mpr hSplit)
      obtain ⟨rfl, rfl⟩ : node' = node ∧ port' = port := by simpa using hParts
      exact ⟨Option.some.inj ((hFound hForwards).symm.trans hContext), rfl, rfl⟩

theorem resolved_iff {ctx : RunContext} {node port : String} :
    Resolved parseUuid h req ctx node port ↔ Granted parseUuid h req ∧
      ∃ found, Forwards parseUuid h req found node port ∧ h.target found = h.target ctx := by
  rw [Resolved, ack_iff]
  refine and_congr_right fun _ => ?_
  rcases calls_cases parseUuid h req with
    ⟨hNone, hForwards⟩ | ⟨found, node', port', target, hForwards, hTarget, hOne, hUnique⟩
  · rw [hNone]
    constructor
    · rintro ⟨target, -, hCalls⟩
      cases hCalls
    · rintro ⟨found, hFound, -⟩
      exact absurd hFound (hForwards _ _ _)
  · rw [hOne]
    constructor
    · rintro ⟨target', hTarget', hCalls⟩
      obtain ⟨rfl, hCall⟩ : target = target' ∧ decisionCall req.decision node' port' =
          decisionCall req.decision node port := by simpa using hCalls
      obtain ⟨rfl, rfl⟩ := decisionCall_inj hCall
      exact ⟨found, hForwards, hTarget.trans hTarget'.symm⟩
    · rintro ⟨found', hForwards', hSame⟩
      obtain ⟨rfl, rfl, rfl⟩ := hUnique _ _ _ hForwards'
      exact ⟨target, hSame.symm.trans hTarget, rfl⟩

theorem refused_authority (hNothing : NamesNothing parseUuid h req) :
    (∃ e, (h.handleResolveReview parseUuid req).1 = .err e) ∧
      (h.handleResolveReview parseUuid req).2.2 = h.authority := by
  rcases handle_cases parseUuid h req with
    ⟨e, hHandle, -⟩ | ⟨run, uuid, hRun, hReview, -, hAuthority, hResponse⟩
  · rw [hHandle]
    exact ⟨⟨e, rfl⟩, rfl⟩
  · have hAwaits := hNothing.review run uuid hRun hReview
    have hDecides :
        h.authority.decides run ⟨uuid⟩ req.decision.permission = false := by
      simp [RuntimeAuthority.decides, hAwaits]
    have hGrants : ¬h.authority.grants run ⟨uuid⟩ req.decision.permission = true := by
      simp [RuntimeAuthority.grants, hDecides]
    rw [if_neg hGrants] at hResponse
    refine ⟨hResponse, hAuthority.trans ?_⟩
    rcases resolveReview_cases (w := h.authority) run ⟨uuid⟩ req.decision.permission req.notes with
      ⟨-, e, hRefuse⟩ | ⟨hDecided, -⟩
    · rw [hRefuse]
      rfl
    · rw [hDecides] at hDecided
      cases hDecided

theorem refused_iff (hNothing : NamesNothing parseUuid h req) :
    Refused parseUuid h req ↔ ¬Disturbs parseUuid h req := by
  obtain ⟨hError, hAuthority⟩ := refused_authority hNothing
  have hFlows : Refused parseUuid h req ↔ ∀ root, flowState
      (runtimeAfter (h.handleResolveReview parseUuid req).2.1 root (h.runtimes root)) =
        flowState (h.runtimes root) :=
    ⟨Refused.flows, fun hFlows => ⟨hError, hFlows, hAuthority⟩⟩
  rw [hFlows]
  rcases calls_cases parseUuid h req with
    ⟨hNone, hForwards⟩ | ⟨ctx, node, port, target, hForwards, hTarget, hOne, hUnique⟩
  · rw [hNone]
    refine ⟨?_, fun _ _ => rfl⟩
    rintro - ⟨ctx, node, port, hDisturbs, -⟩
    exact hForwards _ _ _ hDisturbs
  · obtain ⟨run, hRun, hContext⟩ := hForwards.found
    have hRegistered : ctx ∈ h.flowContexts := List.mem_of_find?_eq_some hContext
    have hRunId : ctx.flowRunId = some req.runId ∨ ∃ run,
        requestedRun parseUuid h.authority req = .ok run ∧ ctx.flowRunId = some run.uuid := by
      have := List.find?_some hContext
      simp only [Bool.or_eq_true, decide_eq_true_eq] at this
      exact this.imp id fun hUuid => ⟨run, hRun, hUuid⟩
    have hIdle := hNothing.output ctx hRegistered hRunId node port hForwards.split.1
    have hIdle' : (h.runtimes ctx.workspaceRoot).portStatus (ctx.flowRunId.getD "") node port ≠
          .inReview ∧
        (h.runtimes ctx.workspaceRoot).portStatus (ctx.flowRunId.getD "") node port ≠
          .awaitingOwner :=
      not_or.mp hIdle
    obtain ⟨flow, rfl⟩ : ∃ flow, target =
        ⟨ctx.workspaceRoot, ctx.flowRunId.getD "", flow⟩ := by
      obtain ⟨flow, -, hFlow⟩ := Option.map_eq_some_iff.mp hTarget
      exact ⟨flow, hFlow.symm⟩
    have hStep := step_unchanged_iff flow req.decision hIdle'
    rw [hOne]
    constructor
    · rintro hSame ⟨ctx', node', port', hForwards', hChanges⟩
      obtain ⟨rfl, rfl, rfl⟩ := hUnique _ _ _ hForwards'
      have hRoot := hSame ctx'.workspaceRoot
      simp only [runtimeAfter, List.foldl_cons, List.foldl_nil, FlowCall.leaves, if_true] at hRoot
      rw [hStep.mp hRoot] at hChanges
      cases hChanges
    · intro hCalm root
      simp only [runtimeAfter, List.foldl_cons, List.foldl_nil, FlowCall.leaves]
      split
      · rename_i hRoot
        subst hRoot
        refine hStep.mpr (Bool.eq_false_iff.mpr fun hChanges => ?_)
        exact hCalm ⟨ctx, node, port, hForwards, hChanges⟩
      · rfl

end Requests

/-- A request meets its contract exactly where it is granted and forwarded if it is for an output that
waits, and where it is not forwarded to a run that it changes if it names nothing. -/
theorem reviews_resolved_iff (parseUuid : String → Option String) (h : RuntimeHandler)
    (req : ResolveReview) :
    (∀ ctx node port, ForOutput h req ctx node port → Resolved parseUuid h req ctx node port) ∧
        (NamesNothing parseUuid h req → Refused parseUuid h req) ↔
      (∀ ctx node port, ForOutput h req ctx node port → Granted parseUuid h req ∧
        ∃ found, Forwards parseUuid h req found node port ∧ h.target found = h.target ctx) ∧
        (NamesNothing parseUuid h req → ¬Disturbs parseUuid h req) := by
  refine and_congr ?_ (forall_congr' refused_iff)
  refine forall_congr' fun ctx => forall_congr' fun node => forall_congr' fun port => ?_
  exact imp_congr_right fun _ => resolved_iff

def specFlow : FlowDefinition :=
  .ofNodes "docs" ["writer"] [{ id := "writer", owner := "writer", outputs :=
    [{ port := "spec", reviewers := ["human"] }] }] "flow.yaml" (by decide)

def reviewedRun : FlowRunState :=
  (FlowRunState.new "run-4be0643f1d98473b97cdca98a65347dd" "docs" "Write the spec." "now").setPort
    "writer" "spec" .inReview

def reviewedHandler : RuntimeHandler where
  authority := inMemory []
  flowContexts := [⟨"/workspace", some "docs", some reviewedRun.runId⟩]
  loadFlowDef := fun _ _ => some specFlow
  runtimes := fun _ => { emptyRuntime with runs := (∅ : AList _).insert reviewedRun.runId reviewedRun }

def approveSpec : ResolveReview := ⟨reviewedRun.runId, "writer:spec", .approve, none⟩

def readsUuid (s : String) : Option String :=
  if s = "4be0643f-1d98-473b-97cd-ca98a65347dd" then some s else none

/-- The spec waits for a human, and its approval is refused. -/
theorem spec_approval_refused :
    ¬((∀ ctx node port, ForOutput reviewedHandler approveSpec ctx node port →
        Resolved readsUuid reviewedHandler approveSpec ctx node port) ∧
      (NamesNothing readsUuid reviewedHandler approveSpec →
        Refused readsUuid reviewedHandler approveSpec)) := by
  rintro ⟨hOutputs, -⟩
  have hAck := (hOutputs ⟨"/workspace", some "docs", some reviewedRun.runId⟩ "writer" "spec"
    ⟨List.mem_cons_self, rfl, by decide, .inl (by decide), by decide⟩).1
  have hHandle : (reviewedHandler.handleResolveReview readsUuid approveSpec).1 =
      .err (.invalidRequest "invalid run id: run-4be0643f1d98473b97cdca98a65347dd") := by decide
  rw [hHandle] at hAck
  cases hAck

end Cronymax.Handler
