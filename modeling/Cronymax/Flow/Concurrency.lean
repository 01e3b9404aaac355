import Cronymax.Atomic.Interleaving
import Cronymax.Flow.Readiness
import Mathlib.Data.Fintype.Basic

/-! Concurrent approvals of the inputs of one node.  The mark of an approval and the snapshot of its
checks are separate sections, so that the order of the sections decides how often the node is
activated. -/

namespace Cronymax.Flow

open Atomic FlowRuntime

variable {flow : FlowDefinition} {runId nodeId : String}

/-- The section takes a snapshot that finds the gate of the node open. -/
def isOpenSnapshot (flow : FlowDefinition) (runId nodeId : String) : Act × FlowRuntime → Bool
  | (.snapshot runId', w) =>
    runId' = runId && (w.getRun runId).any (gateOpen nodeId · flow.graph)
  | _ => false

theorem Act.joinAct_of_invokes (a : Act) (h : a.invokes runId nodeId .andJoin = true) :
    JoinAct runId nodeId a := by
  cases a <;> simp_all [Act.invokes, JoinAct]

theorem countP_isOpenSnapshot {tr : List (Act × FlowRuntime)}
    (h : ∀ runId', .snapshot runId' ∉ events tr) :
    tr.countP (isOpenSnapshot flow runId nodeId) = 0 := by
  rw [List.countP_eq_zero]
  rintro ⟨a, w⟩ he hOpen
  cases a with
  | snapshot runId' =>
    exact h runId' (List.mem_filter.mpr ⟨List.mem_map_of_mem (f := Prod.fst) he, rfl⟩)
  | _ => cases hOpen

theorem snapshot_not_mem_activationEvents (trigger : InvocationTrigger) (node runId' : String) :
    .snapshot runId' ∉ activationEvents runId flow trigger node := by
  unfold activationEvents
  split
  · simp
  · split <;> simp

theorem invokes_activationEvents {trigger : InvocationTrigger} (hKind : trigger.kind ≠ .andJoin)
    (node : String) : ∀ a ∈ activationEvents runId flow trigger node,
      ¬a.invokes runId nodeId .andJoin = true := by
  unfold activationEvents
  split
  · simp
  · split
    · simp [Act.invokes]
    · simp [Act.invokes, hKind]

variable {node port : String} {n : FlowNode}

theorem Joins.snapshot_not_mem {e : Act × FlowRuntime} {tr : List (Act × FlowRuntime)}
    {ctxs : List InvocationContext} (h : Joins runId flow node port (e :: tr) ctxs)
    (runId' : String) : .snapshot runId' ∉ events tr := by
  rcases h with ⟨_, hNil, _⟩ | ⟨_, _, _, hTrace, _, hEvents, _⟩
  · cases hNil
  · obtain ⟨_, rfl⟩ := List.cons.inj hTrace
    rw [hEvents, List.mem_flatMap]
    rintro ⟨nodeId, _, hMem⟩
    exact snapshot_not_mem_activationEvents _ nodeId runId' hMem

theorem Joins.count {tr : List (Act × FlowRuntime)} {ctxs : List InvocationContext}
    (h : Joins runId flow node port tr ctxs) (hNode : flow.node nodeId = some n)
    (hAwaits : (node, port) ∈ flow.graph.requiredInputsFor nodeId) :
    tr.countP (fun e => e.1.invokes runId nodeId .andJoin) =
      if n.owner = "human" then 0 else tr.countP (isOpenSnapshot flow runId nodeId) := by
  obtain ⟨w, s, tr', rfl, hRun, hEvents, _⟩ := h.share hAwaits
  have hTail : tr'.countP (isOpenSnapshot flow runId nodeId) = 0 :=
    countP_isOpenSnapshot h.snapshot_not_mem
  have hJoin : (((.snapshot runId, w) :: tr').countP fun e => e.1.invokes runId nodeId .andJoin) =
      ((events ((.snapshot runId, w) :: tr')).filter (JoinAct runId nodeId ·)).countP
        (·.invokes runId nodeId .andJoin) := by
    rw [countP_events Act.isEvent_of_invokes, List.countP_filter]
    refine List.countP_congr fun a _ => ?_
    have hJoinAct : a.invokes runId nodeId .andJoin = true → JoinAct runId nodeId a = true :=
      fun h => by simpa using a.joinAct_of_invokes h
    simp only [Bool.and_eq_true, decide_eq_true_eq]
    tauto
  rw [hJoin, hEvents, List.countP_cons, hTail]
  simp only [isOpenSnapshot, hRun, decide_true, Bool.true_and, Option.any_some, Nat.zero_add]
  by_cases hOpen : gateOpen nodeId s flow.graph = true
  · by_cases hHuman : n.owner = "human"
    · simp [hOpen, activationEvents, hNode, hHuman, Act.invokes, List.countP_map,
        Function.comp_def]
    · simp [hOpen, activationEvents, hNode, hHuman, Act.invokes, andJoinTrigger]
  · simp [hOpen]

theorem countP_eq_zero_of_events (flow : FlowDefinition) {tr : List (Act × FlowRuntime)}
    (h : ∀ a ∈ events tr, ¬a.invokes runId nodeId .andJoin = true ∧ ∀ runId', a ≠ .snapshot runId') :
    tr.countP (fun e => e.1.invokes runId nodeId .andJoin) = 0 ∧
      tr.countP (isOpenSnapshot flow runId nodeId) = 0 := by
  refine ⟨?_, countP_isOpenSnapshot fun runId' hMem => (h _ hMem).2 runId' rfl⟩
  rw [countP_events Act.isEvent_of_invokes, List.countP_eq_zero]
  exact fun a ha => (h a ha).1

theorem Follows.count (nodeId : String) {tr : List (Act × FlowRuntime)} {ctxs : List InvocationContext}
    (h : Follows runId flow node port tr ctxs) :
    tr.countP (fun e => e.1.invokes runId nodeId .andJoin) = 0 ∧
      tr.countP (isOpenSnapshot flow runId nodeId) = 0 := by
  obtain ⟨again, hAgain, hEvents, _⟩ := h
  refine countP_eq_zero_of_events flow fun a ha => ?_
  rw [hEvents, List.mem_append, List.mem_flatMap] at ha
  rcases ha with ⟨retriggered, _, ha⟩ | ha
  · refine ⟨invokes_activationEvents (by simp [cycleRetriggerTrigger]) retriggered a ha, ?_⟩
    rintro runId' rfl
    exact snapshot_not_mem_activationEvents _ retriggered runId' ha
  · rcases hAgain with rfl | rfl
    · cases ha
    · obtain rfl := List.mem_singleton.mp ha
      exact ⟨by simp [Act.invokes, implicitReinvokeTrigger], fun _ => by simp⟩

theorem onDocumentApproved_count (hNode : flow.node nodeId = some n)
    (hAwaits : (node, port) ∈ flow.graph.requiredInputsFor nodeId) :
    (onDocumentApproved runId node port flow).Achieves (Good runId) fun tr _ =>
      tr.countP (fun e => e.1.invokes runId nodeId .andJoin) =
        if n.owner = "human" then 0 else tr.countP (isOpenSnapshot flow runId nodeId) := by
  refine (onDocumentApproved_achieves node port flow).mono fun tr ctxs h => ?_
  obtain ⟨w, tr', rfl, ⟨_, rfl, _⟩ | ⟨_, mark, join, follow, _, _, rfl, _, hMark, hJoin, hFollow⟩⟩ :=
    h
  · simp [Act.invokes, isOpenSnapshot]
  · have hMark : mark.countP (fun e => e.1.invokes runId nodeId .andJoin) = 0 ∧
        mark.countP (isOpenSnapshot flow runId nodeId) = 0 :=
      countP_eq_zero_of_events flow (by simp [hMark, Act.invokes])
    have hFollow := hFollow.count nodeId
    rw [List.countP_cons_of_neg (by simp [Act.invokes]),
      List.countP_cons_of_neg (by simp [isOpenSnapshot])]
    simp only [List.countP_append, hMark, hFollow, hJoin.count hNode hAwaits, Nat.zero_add,
      Nat.add_zero]

/-- Approvals of one run whose sections interleave. -/
def approvals {ι : Type} (flow : FlowDefinition) (runId : String) (calls : ι → PortRef)
    (w : FlowRuntime) : Pool ι Act FlowRuntime FlowError (List InvocationContext) where
  state := w
  prog i := onDocumentApproved runId (calls i).1 (calls i).2 flow

theorem approvals_not_register {ι : Type} [DecidableEq ι] {calls : ι → PortRef} {w : FlowRuntime}
    {turns : List ι} (hFinished : ((approvals flow runId calls w).play turns).Finished) :
    ∀ e ∈ ((approvals flow runId calls w).events turns).map (·.2), ∀ state,
      e.1 ≠ .register state := by
  intro e he state
  obtain ⟨⟨i, e⟩, hMem, rfl⟩ := List.mem_map.mp he
  obtain ⟨_, hYields⟩ := Pool.finished_yields hFinished i
  have hShare : e ∈ share i ((approvals flow runId calls w).events turns) :=
    List.mem_map.mpr ⟨(i, e), List.mem_filter.mpr ⟨hMem, by simp⟩, rfl⟩
  exact ((onDocumentApproved_only runId _ _ flow).yields hYields e hShare).not_register state

theorem approvals_joinCount {ι : Type} [DecidableEq ι] {calls : ι → PortRef} {w : FlowRuntime}
    {turns : List ι} (hw : w.Good runId) (hNode : flow.node nodeId = some n)
    (hCalls : ∀ i, calls i ∈ flow.graph.requiredInputsFor nodeId)
    (hFinished : ((approvals flow runId calls w).play turns).Finished) :
    invocationCount runId nodeId .andJoin ((approvals flow runId calls w).play turns).state =
      invocationCount runId nodeId .andJoin w + if n.owner = "human" then 0 else
        ((approvals flow runId calls w).events turns).countP
          fun e => isOpenSnapshot flow runId nodeId e.2 := by
  have hShare : ∀ i, (share i ((approvals flow runId calls w).events turns)).countP
      (fun e => e.1.invokes runId nodeId .andJoin) =
      (share i ((approvals flow runId calls w).events turns)).countP fun e =>
        n.owner ≠ "human" && isOpenSnapshot flow runId nodeId e := by
    intro i
    obtain ⟨r, hYields⟩ := Pool.finished_yields hFinished i
    have hGood : ∀ e ∈ share i ((approvals flow runId calls w).events turns), e.2.Good runId := by
      intro e he
      obtain ⟨e', he', rfl⟩ := List.mem_map.mp he
      exact (Pool.events_chained turns (approvals flow runId calls w)).forall Good.apply hw _
        (List.mem_map_of_mem (List.mem_of_mem_filter he'))
    obtain ⟨_, _, hCount⟩ := onDocumentApproved_count hNode (hCalls i) _ _ hYields hGood
    rw [hCount]
    by_cases hHuman : n.owner = "human" <;> simp [hHuman]
  have hTotal := countP_eq_of_share _ hShare
  rw [Pool.play_state]
  refine (invocationCount_after (w := w) hw.2 (approvals_not_register hFinished)).trans ?_
  rw [List.countP_map]
  refine congrArg _ (hTotal.trans ?_)
  by_cases hHuman : n.owner = "human" <;> simp [hHuman]

/-- Concurrent approvals of required inputs of a node record one AND-join invocation if and only if
the node has an agent and one of them takes its snapshot when all required inputs are approved. -/
theorem joins_once_iff {ι : Type} [DecidableEq ι] (flow : FlowDefinition) (runId nodeId : String)
    (n : FlowNode) (calls : ι → PortRef) (w : FlowRuntime) (turns : List ι) (hw : w.Good runId)
    (hNode : flow.node nodeId = some n)
    (hCalls : ∀ i, calls i ∈ flow.graph.requiredInputsFor nodeId)
    (hFinished : ((approvals flow runId calls w).play turns).Finished) :
    invocationCount runId nodeId .andJoin ((approvals flow runId calls w).play turns).state =
        invocationCount runId nodeId .andJoin w + 1 ↔
      n.owner ≠ "human" ∧ ((approvals flow runId calls w).events turns).countP
        (fun e => isOpenSnapshot flow runId nodeId e.2) = 1 := by
  rw [approvals_joinCount hw hNode hCalls hFinished, Nat.add_left_cancel_iff]
  by_cases hHuman : n.owner = "human" <;> simp [hHuman]

def noneApproved : FlowRuntime := afterCalls twoSpecsFlow "run" "brief" emptyRuntime []

def twoApprovals : Pool Bool Act FlowRuntime FlowError (List InvocationContext) :=
  approvals twoSpecsFlow "run" (fun first => (if first then "ui" else "api", "spec")) noneApproved

instance {ι : Type} [Fintype ι] (c : Pool ι Act FlowRuntime FlowError (List InvocationContext)) :
    Decidable c.Finished := by
  unfold Pool.Finished
  infer_instance

def serialTurns : List Bool := List.replicate 20 true ++ List.replicate 20 false

/-- The second approval begins after the first has ended. -/
theorem dev_joins_once : invocationCount "run" "dev" .andJoin (twoApprovals.play serialTurns).state = 0 + 1 :=
  (joins_once_iff twoSpecsFlow "run" "dev" twoSpecsDev _ noneApproved serialTurns (by decide)
    (by decide) (by decide) (by decide)).mpr (by decide)

/-- The approvals take turns, so that both marks come before both snapshots. -/
def alternateTurns : List Bool := (List.replicate 20 [true, false]).flatten

/-- Each approval sees the mark of the other, and `dev` is invoked twice. -/
theorem dev_joins_twice :
    ¬((twoApprovals.play alternateTurns).Finished →
      invocationCount "run" "dev" .andJoin (twoApprovals.play alternateTurns).state = 1) := by
  decide

end Cronymax.Flow
