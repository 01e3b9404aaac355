import Cronymax.Flow.Footprint
import Cronymax.Flow.Readiness

/-! Turns of a cycle.  A port on a cycle is submitted again and again; whether a submission serves
the nodes that it is for depends on the status that the port has kept from the turn before. -/

namespace Cronymax.Flow

open Atomic FlowRuntime

variable {flow : FlowDefinition} {runId node port : String} {w : FlowRuntime} {s : FlowRunState}

theorem mem_flatMap_activationKeys {nodes : List String} {trigger trigger' : InvocationTrigger}
    {nodeId : String} : (nodeId, trigger') ∈ nodes.flatMap (activationKeys flow trigger) ↔
      nodeId ∈ nodes ∧ trigger' = trigger ∧
        ∃ n, flow.node nodeId = some n ∧ n.owner ≠ "human" := by
  have hOne (other : String) : (nodeId, trigger') ∈ activationKeys flow trigger other ↔
      other = nodeId ∧ trigger' = trigger ∧
        ∃ n, flow.node nodeId = some n ∧ n.owner ≠ "human" := by
    unfold activationKeys
    cases hNode : flow.node other with
    | none =>
      refine iff_of_false List.not_mem_nil ?_
      rintro ⟨rfl, _, _, h, _⟩
      rw [hNode] at h
      cases h
    | some n =>
      by_cases hHuman : n.owner = "human"
      · simp only [hHuman, if_true]
        refine iff_of_false List.not_mem_nil ?_
        rintro ⟨rfl, _, _, h, hAgent⟩
        obtain rfl := Option.some.inj (hNode.symm.trans h)
        exact hAgent hHuman
      · simp only [hHuman, if_false, List.mem_singleton, Prod.mk.injEq]
        constructor
        · rintro ⟨rfl, rfl⟩
          exact ⟨rfl, rfl, n, hNode, hHuman⟩
        · rintro ⟨rfl, rfl, _⟩
          exact ⟨rfl, rfl⟩
  simp only [List.mem_flatMap, hOne]
  constructor
  · rintro ⟨other, hMem, rfl, h⟩
    exact ⟨hMem, h⟩
  · rintro ⟨hMem, h⟩
    exact ⟨nodeId, hMem, rfl, h⟩

theorem mem_flatMap_activationEvents {nodes : List String} {trigger : InvocationTrigger}
    {nodeId port : String} :
    .markPortStatusUnchecked runId nodeId port .awaitingOwner ∈
        nodes.flatMap (activationEvents runId flow trigger) ↔
      nodeId ∈ nodes ∧ HumanOwned flow nodeId port := by
  have hOne (other : String) : .markPortStatusUnchecked runId nodeId port .awaitingOwner ∈
      activationEvents runId flow trigger other ↔
        other = nodeId ∧ HumanOwned flow nodeId port := by
    unfold activationEvents HumanOwned
    cases hNode : flow.node other with
    | none =>
      refine iff_of_false List.not_mem_nil ?_
      rintro ⟨rfl, _, h, _⟩
      rw [hNode] at h
      cases h
    | some n =>
      by_cases hHuman : n.owner = "human"
      · simp only [hHuman, if_true, List.mem_map, Act.markPortStatusUnchecked.injEq]
        constructor
        · rintro ⟨output, hOutput, _, rfl, rfl, _⟩
          exact ⟨rfl, n, hNode, hHuman, output, hOutput, rfl⟩
        · rintro ⟨rfl, n', h, _, output, hOutput, rfl⟩
          obtain rfl := Option.some.inj (hNode.symm.trans h)
          exact ⟨output, hOutput, by simp⟩
      · simp only [hHuman, if_false, List.mem_singleton, reduceCtorEq, false_iff]
        rintro ⟨rfl, n', h, hHuman', _⟩
        obtain rfl := Option.some.inj (hNode.symm.trans h)
        exact hHuman hHuman'
  simp only [List.mem_flatMap, hOne]
  constructor
  · rintro ⟨other, hMem, rfl, h⟩
    exact ⟨hMem, h⟩
  · rintro ⟨hMem, h⟩
    exact ⟨nodeId, hMem, rfl, h⟩

theorem readyNodes_congr {s s' : FlowRunState}
    (h : ∀ node port, s.portStatus node port = s'.portStatus node port) :
    readyNodes flow node port s = readyNodes flow node port s' :=
  List.filter_congr fun _ _ => gateOpen_congr h

theorem mem_events {tr : List (Act × FlowRuntime)} {a : Act} (ha : a.isEvent = true) :
    (∃ e ∈ tr, e.1 = a) ↔ a ∈ events tr := by
  simp [events, ha]

theorem fireAndJoinFor_run (node port : String) (flow : FlowDefinition) (hw : w.Good runId)
    (hRun : w.getRun runId = some s) :
    ∃ ctxs, ((fireAndJoinFor node port runId flow).run w).1 = .ok ctxs ∧
      ctxs.map (·.key) = (readyNodes flow node port s).flatMap
        (activationKeys flow (andJoinTrigger node port)) ∧
      ∀ a, (∀ runId', a ≠ .snapshot runId') →
        (a ∈ events ((fireAndJoinFor node port runId flow).trace w) ↔
          a ∈ (readyNodes flow node port s).flatMap
            (activationEvents runId flow (andJoinTrigger node port))) := by
  obtain ⟨ctxs, hOk, hJoins⟩ := (fireAndJoinFor_achieves node port flow).run Good.apply hw
  refine ⟨ctxs, hOk, ?_⟩
  rcases hJoins with ⟨hEmpty, hTrace, rfl⟩ | ⟨w', s', tr, hTrace, hRun', hEvents, hKeys⟩
  · simp [hTrace, readyNodes, hEmpty]
  · have hChain := Prog.trace_chained (fireAndJoinFor node port runId flow) w
    rw [hTrace] at hChain
    obtain ⟨rfl, _⟩ := hChain
    obtain rfl : s' = s := by simpa [hRun] using hRun'.symm
    refine ⟨hKeys, fun a ha => ?_⟩
    rw [hTrace, events_cons, if_pos (by rfl), List.mem_cons, hEvents]
    exact or_iff_right (ha runId)

theorem onDocumentApproved_run (node port : String) (flow : FlowDefinition) (hw : w.Good runId)
    (hRun : w.getRun runId = some s) (hNot : w.portStatus runId node port ≠ .approved) :
    ∃ ctxs reinvoked, ((onDocumentApproved runId node port flow).run w).1 = .ok ctxs ∧
      (reinvoked = [] ∨ reinvoked = [(node, implicitReinvokeTrigger port)]) ∧
      ctxs.map (·.key) =
        (readyNodes flow node port (s.setPort node port .approved)).flatMap
          (activationKeys flow (andJoinTrigger node port)) ++
        ((flow.graph.nodesRetriggeredBy node port).flatMap
          (activationKeys flow (cycleRetriggerTrigger node port)) ++ reinvoked) ∧
      ∀ nodeId port', (∃ e ∈ (onDocumentApproved runId node port flow).trace w,
          e.1 = .markPortStatusUnchecked runId nodeId port' .awaitingOwner) ↔
        HumanOwned flow nodeId port' ∧
          (nodeId ∈ readyNodes flow node port (s.setPort node port .approved) ∨
            nodeId ∈ flow.graph.nodesRetriggeredBy node port) := by
  obtain ⟨hSame, hTraceSame⟩ := onDocumentApproved_of_not_approved flow hNot
  obtain ⟨joined, rest, follow, hOk, hJoin, hTrace, again, hAgain, hFollow, hRest⟩ :=
    cascadeApproval_run node port flow hw
  have hApproved := (approvePort_run node port flow hw).2
  obtain ⟨_, _, hApprove⟩ := (approvePort_achieves node port flow).run Good.apply hw
  have hw1 := hw.run_snd (approvePort runId node port flow)
  obtain ⟨s1, hRun1⟩ := hw1.run
  have hReady : readyNodes flow node port s1 =
      readyNodes flow node port (s.setPort node port .approved) := by
    refine readyNodes_congr fun node' port' => ?_
    rw [FlowRunState.portStatus_setPort, ← FlowRuntime.portStatus_of_getRun hRun,
      ← FlowRuntime.portStatus_of_getRun hRun1, hApproved]
  obtain ⟨joined', hJoin', hKeys, hEvents⟩ := fireAndJoinFor_run node port flow hw1 hRun1
  obtain rfl : joined' = joined := by simpa [hJoin] using hJoin'.symm
  rw [hReady] at hKeys hEvents
  refine ⟨joined' ++ rest, again, by rw [hSame, hOk], hAgain, by rw [List.map_append, hKeys, hRest],
    fun nodeId port' => ?_⟩
  have hAgainMark : Act.markPortStatusUnchecked runId nodeId port' .awaitingOwner ∉
      again.map fun key => Act.recordInvocation runId key.1 key.2 := by simp
  rw [mem_events rfl, hTraceSame, hTrace, events_cons, if_neg (by simp [Act.isEvent]),
    events_append, events_append, hApprove, List.mem_append, List.mem_append, hEvents _ (by simp),
    hFollow, List.mem_append, mem_flatMap_activationEvents, mem_flatMap_activationEvents]
  simp only [List.mem_singleton, reduceCtorEq, false_or, hAgainMark, or_false]
  tauto

/-- The approval of the port leads to this activation of the node. -/
def Due (flow : FlowDefinition) (node port : String) (s : FlowRunState) (nodeId : String)
    (trigger : InvocationTrigger) : Prop :=
  ((node, port) ∈ flow.graph.requiredInputsFor nodeId ∧
      isNodeReady nodeId (s.setPort node port .approved) flow.graph = true ∧
      trigger = andJoinTrigger node port) ∨
    nodeId ∈ flow.graph.nodesRetriggeredBy node port ∧ trigger = cycleRetriggerTrigger node port

/-- The call activates the node, with a context for it. -/
def Served (flow : FlowDefinition) (runId : String) (w : FlowRuntime) (c : Call) (nodeId : String)
    (n : FlowNode) (trigger : InvocationTrigger) : Prop :=
  if n.owner = "human" then
    ∀ output ∈ n.outputs, ∃ e ∈ c.trace flow runId w,
      e.1 = .markPortStatusUnchecked runId nodeId output.port .awaitingOwner
  else (nodeId, trigger) ∈ (c.contexts flow runId w).map (·.key)

/-- When a node that is due is served: it is a human's without outputs, or the port was not approved
before and the node is unseeded or retriggered. -/
def Reached (flow : FlowDefinition) (runId node port : String) (w : FlowRuntime) (s : FlowRunState)
    (nodeId : String) (n : FlowNode) (trigger : InvocationTrigger) : Prop :=
  n.owner = "human" ∧ n.outputs = [] ∨
    w.portStatus runId node port ≠ .approved ∧
      (Unseeded flow nodeId (s.setPort node port .approved) ∨
        nodeId ∈ flow.graph.nodesRetriggeredBy node port ∧
          (n.owner = "human" ∨ trigger = cycleRetriggerTrigger node port))

theorem submitted_leads (hRun : w.getRun runId = some s) {output : FlowNodeOutput}
    (hOutput : flow.output node port = some output) (hAuto : output.reviewers = [])
    (hLimit : overLimit flow runId node port w = false) (sha : String) (revision : UInt32) :
    ∃ w', w'.getRun runId = some (counted flow node port s) ∧
      ((∃ e, ¬w.Healthy ∧
          Leads w (onDocumentSubmitted runId node port flow sha revision) w' (.fail e)) ∨
        Leads w (onDocumentSubmitted runId node port flow sha revision) w'
          (onDocumentApproved runId node port flow)) := by
  have hWithin : exhausted flow node port s = false := by simpa [overLimit, hRun] using hLimit
  have hReceive : receiveDocument runId node port flow = onDocumentApproved runId node port flow := by
    simp [receiveDocument, hOutput, hAuto]
  obtain ⟨w', hRun', ⟨e, hHealthy, hLeads⟩ | ⟨_, hLeads⟩⟩ :=
    onDocumentSubmitted_leads flow node port sha revision hRun
  · refine ⟨w', hRun', .inl ⟨e, fun h => ?_, hLeads⟩⟩
    rw [hHealthy h] at hWithin
    cases hWithin
  · exact ⟨w', hRun', .inr (hReceive ▸ hLeads)⟩

theorem andJoinTrigger_ne_cycleRetriggerTrigger :
    andJoinTrigger node port ≠ cycleRetriggerTrigger node port :=
  fun h => nomatch congrArg InvocationTrigger.kind h

theorem Due.gate {nodeId : String} {trigger : InvocationTrigger}
    (h : Due flow node port s nodeId trigger) :
    (nodeId ∈ readyNodes flow node port (s.setPort node port .approved) ∨
        nodeId ∈ flow.graph.nodesRetriggeredBy node port) ↔
      Unseeded flow nodeId (s.setPort node port .approved) ∨
        nodeId ∈ flow.graph.nodesRetriggeredBy node port := by
  rcases h with ⟨hAwaits, hReady, _⟩ | ⟨hRetriggered, _⟩
  · rw [readyNodes, List.mem_filter, ← gateOpen_iff_unseeded hReady,
      flow.graph.mem_nodesAwaiting, and_iff_right hAwaits]
  · exact iff_of_true (.inr hRetriggered) (.inr hRetriggered)

theorem Due.mem_keys {nodeId : String} {n : FlowNode} {trigger : InvocationTrigger}
    (h : Due flow node port s nodeId trigger) (hNode : flow.node nodeId = some n)
    (hAgent : n.owner ≠ "human") {reinvoked : List (String × InvocationTrigger)}
    (hReinvoked : reinvoked = [] ∨ reinvoked = [(node, implicitReinvokeTrigger port)]) :
    (nodeId, trigger) ∈
        (readyNodes flow node port (s.setPort node port .approved)).flatMap
          (activationKeys flow (andJoinTrigger node port)) ++
        ((flow.graph.nodesRetriggeredBy node port).flatMap
          (activationKeys flow (cycleRetriggerTrigger node port)) ++ reinvoked) ↔
      Unseeded flow nodeId (s.setPort node port .approved) ∨
        nodeId ∈ flow.graph.nodesRetriggeredBy node port ∧
          trigger = cycleRetriggerTrigger node port := by
  have hNotReinvoked : (nodeId, trigger) ∉ reinvoked := by
    rcases hReinvoked with rfl | rfl
    · exact List.not_mem_nil
    · intro hMem
      have hKind := congrArg (fun key => key.2.kind) (List.mem_singleton.mp hMem)
      rcases h with ⟨_, _, rfl⟩ | ⟨_, rfl⟩ <;> cases hKind
  have hDeclared : ∃ n, flow.node nodeId = some n ∧ n.owner ≠ "human" := ⟨n, hNode, hAgent⟩
  rw [List.mem_append, List.mem_append, mem_flatMap_activationKeys, mem_flatMap_activationKeys]
  simp only [hNotReinvoked, hDeclared, and_true, or_false]
  rcases h with ⟨hAwaits, hReady, rfl⟩ | ⟨hRetriggered, rfl⟩
  · rw [readyNodes, List.mem_filter, ← gateOpen_iff_unseeded hReady,
      flow.graph.mem_nodesAwaiting, and_iff_right hAwaits]
    simp [andJoinTrigger_ne_cycleRetriggerTrigger]
  · simp [hRetriggered]

theorem outputs_await_iff {nodeId : String} {n : FlowNode} (hNode : flow.node nodeId = some n)
    (hHuman : n.owner = "human") {activated : Prop} :
    (∀ output ∈ n.outputs, HumanOwned flow nodeId output.port ∧ activated) ↔
      n.outputs = [] ∨ activated := by
  constructor
  · intro hAll
    rcases List.eq_nil_or_concat n.outputs with hNone | ⟨_, output, hSome⟩
    · exact .inl hNone
    · exact .inr (hAll output (by simp [hSome])).2
  · rintro (hNone | hActivated) output hOutput
    · simp [hNone] at hOutput
    · exact ⟨⟨n, hNode, hHuman, List.mem_map_of_mem hOutput⟩, hActivated⟩

theorem served_iff_reached (hw : w.Good runId) (hRun : w.getRun runId = some s)
    {output : FlowNodeOutput} (hOutput : flow.output node port = some output)
    (hAuto : output.reviewers = []) (hLimit : overLimit flow runId node port w = false)
    (sha : String) (revision : UInt32) {nodeId : String} {n : FlowNode}
    {trigger : InvocationTrigger} (hNode : flow.node nodeId = some n)
    (hDue : Due flow node port s nodeId trigger) :
    Served flow runId w (.submitted node port sha revision) nodeId n trigger ↔
      Reached flow runId node port w s nodeId n trigger := by
  obtain ⟨w', hRun', ⟨_, hUnhealthy, _⟩ | hLeads⟩ :=
    submitted_leads hRun hOutput hAuto hLimit sha revision
  · exact absurd hw.1 hUnhealthy
  have hw' : w'.Good runId := ⟨hLeads.healthy hw.1, by rw [hRun']; rfl⟩
  have hSame := portStatus_of_counted hRun hRun' node port
  have hMarks (port' : String) : (∃ e ∈ (Call.submitted node port sha revision).trace flow runId w,
      e.1 = .markPortStatusUnchecked runId nodeId port' .awaitingOwner) ↔
        ∃ e ∈ (onDocumentApproved runId node port flow).trace w',
          e.1 = .markPortStatusUnchecked runId nodeId port' .awaitingOwner :=
    hLeads.exists_deed fun e hAct => by rw [hAct]; rfl
  unfold Served Reached
  simp only [hMarks, Call.contexts, Call.op, hLeads.run]
  by_cases hApproved : w.portStatus runId node port = .approved
  · -- the idempotency guard
    obtain ⟨hGuard, hGuardTrace⟩ := onDocumentApproved_of_approved flow (hSame.trans hApproved)
    rw [hGuard, hGuardTrace]
    by_cases hHuman : n.owner = "human"
    · simp [hHuman, hApproved, List.eq_nil_iff_forall_not_mem]
    · simp [hHuman, hApproved]
  · obtain ⟨ctxs, reinvoked, hOk, hReinvoked, hKeys, hAwaiting⟩ :=
      onDocumentApproved_run node port flow hw' hRun' (hSame ▸ hApproved)
    have hReady : readyNodes flow node port ((counted flow node port s).setPort node port .approved) =
        readyNodes flow node port (s.setPort node port .approved) :=
      readyNodes_congr fun node' port' => by simp [FlowRunState.portStatus_setPort]
    rw [hReady] at hKeys hAwaiting
    simp only [hOk, hAwaiting, hDue.gate]
    by_cases hHuman : n.owner = "human"
    · rw [if_pos hHuman, outputs_await_iff hNode hHuman]
      simp [hHuman, hApproved]
    · rw [if_neg hHuman, hKeys, hDue.mem_keys hNode hHuman hReinvoked]
      simp [hHuman, hApproved]

theorem startRun_good (runId : String) (flow : FlowDefinition) (initialInput : String)
    (hw : w.Healthy) (node port : String) :
    ∃ s, ((startRun runId flow initialInput).run w).2.getRun runId = some s ∧
      ((startRun runId flow initialInput).run w).2.Good runId ∧ s.portCycles node port = 0 := by
  rcases startRun_cases runId flow initialInput w with ⟨hUnhealthy, _⟩ | ⟨now, w', hw', hRun', hSame⟩
  · exact absurd hw hUnhealthy
  · have hPlain : (fireAndJoinFor "__chat__" "initial-brief" runId flow).Only (·.isPlain = true) :=
      (fireAndJoinFor_only _ _ _ _).mono fun a ha => ha.elim Act.Quiet.plain fun ⟨_, _, h⟩ => h.plain
    obtain ⟨s, hRun, hCycles⟩ := view_run_of_only (·.portCycles node port) hPlain
      (fun a ha now s => a.portCycles_onRun (a.isPlain_iff.mp ha).2.1 runId now s node port) hRun'
    have hStart : (startState runId flow initialInput now).portCycles node port = 0 := by
      rw [startState, FlowRunState.setPort, FlowRunState.portCycles_modifyNode _ (by intro _; rfl)]
      rfl
    rw [hSame]
    exact ⟨s, hRun, ⟨healthy_run _ (hw' hw), isSome_run _ (by rw [hRun']; rfl)⟩,
      hCycles.trans hStart⟩

theorem afterCalls_good (runId : String) (flow : FlowDefinition) (initialInput : String)
    (hw : w.Healthy) (calls : List Call) :
    (afterCalls flow runId initialInput w calls).Good runId := by
  obtain ⟨_, _, hStart, _⟩ := startRun_good runId flow initialInput hw "" ""
  exact History.preserves (fun t c ht _ => ht.step c) (History.each_true calls) hStart

theorem overLimit_afterCalls (runId : String) (flow : FlowDefinition) (initialInput : String)
    (hw : w.Healthy) (calls : List Call) {node port : String}
    (hLimit : ∀ limit, cycleLimit flow node port = some limit →
      calls.countP (·.submits node port) + 1 ≤ limit.toNat) :
    overLimit flow runId node port (afterCalls flow runId initialInput w calls) = false := by
  obtain ⟨s, hRun, _, hZero⟩ := startRun_good runId flow initialInput hw node port
  cases hCycle : cycleLimit flow node port with
  | none =>
    rw [overLimit]
    cases (afterCalls flow runId initialInput w calls).getRun runId <;> simp [exhausted, hCycle]
  | some limit =>
    obtain ⟨s', hRun', hCycles⟩ := portCycles_play flow node port calls hRun (by rw [hCycle]; rfl)
    have hRun'' : (afterCalls flow runId initialInput w calls).getRun runId = some s' := hRun'
    have hCount := hLimit limit hCycle
    rw [overLimit, hRun'', Option.any_some, exhausted, hCycle, Option.any_some, hCycles, hZero,
      decide_eq_false_iff_not, gt_iff_lt, UInt32.lt_iff_toNat_lt, UInt32.toNat_add, UInt32.toNat_add,
      UInt32.toNat_ofNat']
    simp only [UInt32.toNat_zero, Nat.zero_add, UInt32.toNat_one]
    have h1 := Nat.mod_le (calls.countP (·.submits node port)) (2 ^ 32)
    omega

/-- Every turn of a cycle that keeps within the limit of its auto-approving port is accepted, and
serves the nodes that are due exactly when it reaches each of them. -/
theorem turn_serves_iff (flow : FlowDefinition) (runId initialInput node port sha : String)
    (revision : UInt32) (w : FlowRuntime) (calls : List Call) (output : FlowNodeOutput)
    (hw : w.Healthy) (hOutput : flow.output node port = some output)
    (hAuto : output.reviewers = [])
    (hLimit : ∀ limit, cycleLimit flow node port = some limit →
      calls.countP (·.submits node port) + 1 ≤ limit.toNat) :
    ∃ s, (afterCalls flow runId initialInput w calls).getRun runId = some s ∧
      overLimit flow runId node port (afterCalls flow runId initialInput w calls) = false ∧
      ((∀ nodeId n trigger, flow.node nodeId = some n → Due flow node port s nodeId trigger →
          Served flow runId (afterCalls flow runId initialInput w calls)
            (.submitted node port sha revision) nodeId n trigger) ↔
        ∀ nodeId n trigger, flow.node nodeId = some n → Due flow node port s nodeId trigger →
          Reached flow runId node port (afterCalls flow runId initialInput w calls) s nodeId n
            trigger) := by
  have hGood := afterCalls_good runId flow initialInput hw calls
  have hWithin := overLimit_afterCalls runId flow initialInput hw calls hLimit
  obtain ⟨s, hRun⟩ := hGood.run
  refine ⟨s, hRun, hWithin, ?_⟩
  exact forall_congr' fun nodeId => forall_congr' fun n => forall_congr' fun trigger =>
    forall_congr' fun hNode => forall_congr' fun hDue =>
      served_iff_reached hGood hRun hOutput hAuto hWithin sha revision hNode hDue

def loopNodes : List FlowNode :=
  [{ id := "writer", owner := "writer", outputs := [{ port := "draft", routesTo := some "critic" }] },
   { id := "critic", owner := "critic", outputs := [{ port := "notes", routesTo := some "writer" }] }]

def loopFlow : FlowDefinition := .ofNodes "loop" [] loopNodes "flow.yaml" (by decide)

/-- The first submission in a flow that goes back and forth. -/
theorem draft_served : Served loopFlow "run" (afterCalls loopFlow "run" "brief" emptyRuntime [])
    (.submitted "writer" "draft" "" 1) "critic" loopNodes[1] (andJoinTrigger "writer" "draft") := by
  have hUnlimited : cycleLimit loopFlow "writer" "draft" = none := by decide
  obtain ⟨s, hRun, _, hServes⟩ := turn_serves_iff loopFlow "run" "brief" "writer" "draft" "" 1
    emptyRuntime [] { port := "draft", routesTo := some "critic" } (by decide) (by decide) rfl
    (by simp [hUnlimited])
  obtain rfl : ((afterCalls loopFlow "run" "brief" emptyRuntime []).getRun "run").get (by decide) =
      s := Option.get_of_eq_some _ hRun
  have hUnseeded : ∀ n ∈ loopNodes, Unseeded loopFlow n.id
      ((((afterCalls loopFlow "run" "brief" emptyRuntime []).getRun "run").get (by decide)).setPort
        "writer" "draft" .approved) := by
    unfold Unseeded
    decide
  refine hServes.mpr (fun nodeId n trigger hNode _ => .inr ⟨by decide, .inl ?_⟩) "critic"
    loopNodes[1] (andJoinTrigger "writer" "draft") (by decide) (.inl ⟨by decide, by decide, rfl⟩)
  exact loopFlow.node_id hNode ▸ hUnseeded n (List.mem_of_find?_eq_some hNode)

def secondTurn : FlowRuntime :=
  afterCalls loopFlow "run" "brief" emptyRuntime
    [.submitted "writer" "draft" "" 1, .submitted "critic" "notes" "" 1]

/-- The draft of the second turn is taken for approved already, and the critic is not invoked. -/
theorem draft_not_served_again :
    ¬∀ s, secondTurn.getRun "run" = some s →
      Due loopFlow "writer" "draft" s "critic" (andJoinTrigger "writer" "draft") →
      Served loopFlow "run" secondTurn (.submitted "writer" "draft" "" 2) "critic" loopNodes[1]
        (andJoinTrigger "writer" "draft") := by
  intro h
  have hServed := h ((secondTurn.getRun "run").get (by decide)) (Option.some_get _).symm
    (.inl ⟨by decide, by decide, rfl⟩)
  rw [Served, if_neg (by decide)] at hServed
  exact absurd hServed (by decide)

end Cronymax.Flow
