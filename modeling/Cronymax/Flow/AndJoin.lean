import Cronymax.Flow.Operations

/-! When an AND-join fires.  `fire_and_join_for` looks at the gates once, in a snapshot of the run,
and then activates the nodes one after the other. -/

namespace Cronymax.Flow

open Atomic FlowRuntime

/-- The sections by which a join activates the node. -/
@[grind =] def JoinAct (runId nodeId : String) : Act → Prop
  | .recordInvocation runId' node trigger =>
    runId' = runId ∧ node = nodeId ∧ trigger.kind = .andJoin
  | .markPortStatusUnchecked runId' node _ status =>
    runId' = runId ∧ node = nodeId ∧ status = .awaitingOwner
  | _ => False

instance (runId nodeId : String) (a : Act) : Decidable (JoinAct runId nodeId a) := by
  cases a <;> unfold JoinAct <;> infer_instance

variable {flow : FlowDefinition} {runId : String}

theorem Activates.joinAct {nodeId nodeId' : String} {trigger : InvocationTrigger} {a : Act}
    (h : Activates runId flow nodeId trigger a) (hJoin : JoinAct runId nodeId' a) :
    nodeId' = nodeId := by
  obtain ⟨n, _, ⟨_, output, _, rfl⟩ | ⟨_, rfl⟩⟩ := h
  · exact hJoin.2.1.symm
  · exact hJoin.2.1.symm

theorem fireAndJoinFor_trace {producer port : String} {w : FlowRuntime} {e : Act × FlowRuntime}
    (he : e ∈ (fireAndJoinFor producer port runId flow).trace w) :
    e = (.snapshot runId, w) ∨ ∃ s, w.getRun runId = some s ∧
      (fireAndJoinFor producer port runId flow).trace w = (.snapshot runId, w) ::
        (activateNodes runId flow (andJoinTrigger producer port)
          ((flow.graph.nodesAwaiting producer port).filter (gateOpen · s flow.graph))).trace w := by
  rw [fireAndJoinFor_eq] at he ⊢
  split at he
  · simp [Prog.trace] at he
  · rw [if_neg ‹_›]
    simp only [Prog.perform_bind, Prog.trace] at he ⊢
    rcases List.mem_cons.mp he with he | he
    · exact .inl he
    · right
      cases hRun : w.getRun runId with
      | none =>
        simp only [hRun] at he
        simp [Prog.trace] at he
      | some s =>
        exact ⟨s, rfl, rfl⟩

theorem approved_or_awaiting {trigger : InvocationTrigger} {nodes : List String}
    (tr : List (Act × FlowRuntime)) {w : FlowRuntime} {node port : String}
    (hOnly : ∀ e ∈ tr, e.1.Quiet ∨ ∃ nodeId ∈ nodes, Activates runId flow nodeId trigger e.1)
    (hRun : (w.getRun runId).isSome = true)
    (hApproved : w.portStatus runId node port = .approved) :
    (Prog.after w tr).portStatus runId node port = .approved ∨ HumanOwned flow node port ∧
      ∃ e ∈ tr, e.1 = .markPortStatusUnchecked runId node port .awaitingOwner := by
  induction tr generalizing w with
  | nil => exact .inl hApproved
  | cons e tr ih =>
    have hStatus := e.1.portStatus_apply hRun node port
    rw [hApproved] at hStatus
    -- either the section keeps the status, and the rest decides, or it is the mark itself
    have hStep : e.1.newStatus runId node port .approved = .approved ∨ HumanOwned flow node port ∧
        e.1 = .markPortStatusUnchecked runId node port .awaitingOwner := by
      rcases hOnly e List.mem_cons_self with hQuiet | ⟨nodeId, _, hAct⟩
      · exact .inl (Act.newStatus_of_not_deed hQuiet.not_deed _ _ _ _)
      · exact hAct.newStatus node port .approved
    rcases hStep with hKeep | ⟨hHuman, hMark⟩
    · have hRest := ih (w := e.1.apply w) (fun e' he' => hOnly e' (List.mem_cons_of_mem _ he'))
        (e.1.isSome_apply hRun) (hStatus.trans hKeep)
      exact hRest.imp id fun ⟨h, e', he', h'⟩ => ⟨h, e', List.mem_cons_of_mem _ he', h'⟩
    · exact .inr ⟨hHuman, e, List.mem_cons_self, hMark⟩

theorem fireAndJoinFor_finds_approved {producer port nodeId : String} {w : FlowRuntime}
    {pre post : List (Act × FlowRuntime)} {e : Act × FlowRuntime}
    (hTrace : (fireAndJoinFor producer port runId flow).trace w = pre ++ e :: post)
    (hJoin : JoinAct runId nodeId e.1) :
    (producer, port) ∈ flow.graph.requiredInputsFor nodeId ∧
      ∀ input ∈ flow.graph.requiredInputsFor nodeId,
        w.portStatus runId input.1 input.2 = .approved ∧
          (e.2.portStatus runId input.1 input.2 = .approved ∨
            HumanOwned flow input.1 input.2 ∧ ∃ earlier ∈ pre, earlier.1 =
              .markPortStatusUnchecked runId input.1 input.2 .awaitingOwner) := by
  have he : e ∈ (fireAndJoinFor producer port runId flow).trace w := by simp [hTrace]
  rcases fireAndJoinFor_trace he with rfl | ⟨s, hRun, hEq⟩
  · exact absurd hJoin (by simp [JoinAct])
  -- the activation comes after the snapshot
  rw [hEq] at hTrace
  obtain ⟨pre, rfl⟩ : ∃ pre', pre = (.snapshot runId, w) :: pre' := by
    cases pre with
    | nil =>
      obtain ⟨rfl, _⟩ := List.cons.inj hTrace
      exact absurd hJoin (by simp [JoinAct])
    | cons first pre' => exact ⟨pre', by rw [(List.cons.inj hTrace).1]⟩
  have hTrace := (List.cons.inj hTrace).2
  have hOnly := (activateNodes_only runId flow (andJoinTrigger producer port)
    ((flow.graph.nodesAwaiting producer port).filter (gateOpen · s flow.graph))).trace w
  have hChain := Prog.trace_chained (activateNodes runId flow (andJoinTrigger producer port)
    ((flow.graph.nodesAwaiting producer port).filter (gateOpen · s flow.graph))) w
  rw [hTrace] at hOnly hChain
  rcases hOnly e (by simp) with hQuiet | ⟨nodeId', hMem, hAct⟩
  · exact absurd hJoin (by
      cases h : e.1 <;> simp [JoinAct, h, Act.Quiet, Act.target] at hQuiet ⊢)
  obtain rfl := hAct.joinAct hJoin
  have hAwaits := List.mem_of_mem_filter hMem
  have hGate := (List.mem_filter.mp hMem).2
  refine ⟨flow.graph.mem_nodesAwaiting.mp hAwaits, fun input hInput => ?_⟩
  have hApproved : w.portStatus runId input.1 input.2 = .approved := by
    rw [FlowRuntime.portStatus, hRun]
    simpa using List.all_eq_true.mp hGate input hInput
  rw [hChain.state]
  refine ⟨hApproved, ?_⟩
  rcases approved_or_awaiting pre (fun e' he' => hOnly e' (by simp [he'])) (by simp [hRun])
    hApproved with h | ⟨hHuman, e', he', h'⟩
  · exact .inl h
  · exact .inr ⟨hHuman, e', List.mem_cons_of_mem _ he', h'⟩

theorem fireAndJoinFor_recorded {producer port : String} {w : FlowRuntime}
    {ctxs : List InvocationContext}
    (hRun : ((fireAndJoinFor producer port runId flow).run w).1 = .ok ctxs) :
    Recorded runId (flow.graph.nodesAwaiting producer port) (andJoinTrigger producer port)
      ((fireAndJoinFor producer port runId flow).trace w) ctxs := by
  have hEnsures : (fireAndJoinFor producer port runId flow).Ensures (Recorded runId
      (flow.graph.nodesAwaiting producer port) (andJoinTrigger producer port)) := by
    rw [fireAndJoinFor_eq]
    split
    · exact .done (by simp [Recorded])
    · refine .perform fun w => ?_
      split
      · exact .done (by simp [Recorded])
      · refine (activateNodes_ensures _ _ _ _).mono fun tr ctxs h ctx hctx => ?_
        obtain ⟨h1, h2, e, he, h3⟩ := h ctx hctx
        exact ⟨List.mem_of_mem_filter h1, h2, e, List.mem_cons_of_mem _ he, h3⟩
  exact hEnsures _ _ (hRun ▸ Prog.trace_yields _ w)

/-- An AND-join fires on its snapshot.  When `fire_and_join_for` activates a node, in whatever
state of the runtime, the node awaits the port, all its required inputs are approved in the
snapshot, and each still is at that moment, unless the same pass has put it in `AwaitingOwner`.
The contexts that it returns are those of the activations. -/
theorem andJoin_fires_on_snapshot (flow : FlowDefinition) (runId producer port nodeId : String)
    (w : FlowRuntime) :
    (∀ pre e post, (fireAndJoinFor producer port runId flow).trace w = pre ++ e :: post →
      JoinAct runId nodeId e.1 →
        (producer, port) ∈ flow.graph.requiredInputsFor nodeId ∧
          ∀ input ∈ flow.graph.requiredInputsFor nodeId,
            w.portStatus runId input.1 input.2 = .approved ∧
              (e.2.portStatus runId input.1 input.2 = .approved ∨
                HumanOwned flow input.1 input.2 ∧ ∃ earlier ∈ pre, earlier.1 =
                  .markPortStatusUnchecked runId input.1 input.2 .awaitingOwner)) ∧
    ∀ ctxs, ((fireAndJoinFor producer port runId flow).run w).1 = .ok ctxs →
      ∀ ctx ∈ ctxs, ctx.nodeId = nodeId → ctx.trigger = andJoinTrigger producer port ∧
        ∃ e ∈ (fireAndJoinFor producer port runId flow).trace w, JoinAct runId nodeId e.1 := by
  refine ⟨fun pre e post => fireAndJoinFor_finds_approved, fun ctxs hRun ctx hctx hNode => ?_⟩
  subst nodeId
  obtain ⟨_, hTrigger, e, he, hAct⟩ := fireAndJoinFor_recorded hRun ctx hctx
  exact ⟨hTrigger, e, he, by simp [hAct, JoinAct, andJoinTrigger]⟩

def signOffNodes : List FlowNode :=
  [{ id := "pm", owner := "pm", outputs := [{ port := "prd", blackboardKey := some "prd" }] },
   { id := "dev", owner := "dev", outputs := [{ port := "code" }], reads := ["prd", "sign-off"] },
   { id := "lead", owner := "human", reads := ["prd"],
     outputs := [{ port := "sign-off", blackboardKey := some "sign-off" }] }]

def signOffFlow : FlowDefinition := .ofNodes "sign-off" [] signOffNodes "flow.yaml" (by decide)

def sentBack : FlowRuntime :=
  afterCalls signOffFlow "run" "brief" emptyRuntime
    [.submitted "pm" "prd" "" 1, .submitted "lead" "sign-off" "" 1, .rejected "pm" "prd"]

def approvedAgain : FlowRuntime := ((approvePort "run" "pm" "prd" signOffFlow).run sentBack).2

/-- A document is approved anew after it was sent back. -/
theorem dev_fires_on_snapshot : ∃ e ∈ (fireAndJoinFor "pm" "prd" "run" signOffFlow).trace
    approvedAgain, JoinAct "run" "dev" e.1 ∧
      ("pm", "prd") ∈ signOffFlow.graph.requiredInputsFor "dev" := by
  obtain ⟨e, he, hJoin⟩ : ∃ e ∈ (fireAndJoinFor "pm" "prd" "run" signOffFlow).trace approvedAgain,
      JoinAct "run" "dev" e.1 := by decide
  obtain ⟨pre, post, hTrace⟩ := List.append_of_mem he
  exact ⟨e, he, hJoin,
    ((andJoin_fires_on_snapshot signOffFlow "run" "pm" "prd" "dev" approvedAgain).1
      pre e post hTrace hJoin).1⟩

/-- When the specification is submitted again, the pass puts the sign-off back in `AwaitingOwner`
and then activates `dev`, which requires it. -/
theorem dev_fires_without_signOff :
    ¬∀ e ∈ (onDocumentSubmitted "run" "pm" "prd" signOffFlow "" 2).trace sentBack,
      JoinAct "run" "dev" e.1 → ∀ input ∈ signOffFlow.graph.requiredInputsFor "dev",
        (e.2.getRun "run").any (·.satisfied input) = true := by
  decide

end Cronymax.Flow
