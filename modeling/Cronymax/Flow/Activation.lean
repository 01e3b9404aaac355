import Cronymax.Cronygraph.Orchestrator
import Cronymax.Flow.State

/-! The activation pass of `fire_and_join_for`: an orchestrator whose entry step fans out to one
step for each candidate node.  A candidate's step checks the AND-join precondition on the snapshot
of the run and, when it holds, adds the node to the list of nodes to activate, which all branches
share. -/

namespace Cronymax.Flow

open Cronygraph

/-- `is_node_ready`. -/
def isNodeReady (node : String) (s : FlowRunState) (graph : FlowGraph) : Bool :=
  (graph.requiredInputsFor node).all s.satisfied

/-- All required inputs are approved: what `FlowStep` asks of the snapshot. -/
def gateOpen (node : String) (s : FlowRunState) (graph : FlowGraph) : Bool :=
  (graph.requiredInputsFor node).all fun input => s.portStatus input.1 input.2 = .approved

/-- `FlowState`, which the steps of the orchestrator read. -/
structure FlowState where
  runState : FlowRunState
  graph : FlowGraph

/-- An orchestrator's run with the activations that it has asked for so far. -/
abbrev Activations := StateM (List (String × InvocationTrigger))

/-- `FlowStep` with its `execute`. -/
def flowStep (nodeId : String) (trigger : InvocationTrigger) :
    Cronygraph.Step Activations FlowState String where
  label := nodeId
  execute state := do
    if !gateOpen nodeId state.runState state.graph then
      pure (.ok (.terminal state (.custom "awaiting-inputs")))
    else
      modify (· ++ [(nodeId, trigger)])
      pure (.ok (.terminal state .completed))

/-- `AndJoinDispatch`, from which every awaiting node is an edge away. -/
def andJoinDispatch (next : List NodeId) : Cronygraph.Step Activations FlowState String where
  label := "__dispatch__"
  execute state :=
    pure (.ok (if next.isEmpty then .terminal state .completed else .branch state next))

/-- One `FlowStep` and one edge for each of the awaiting nodes. -/
def addFlowSteps (trigger : InvocationTrigger) :
    NodeId → List String → Orchestrator Activations FlowState String →
      Orchestrator Activations FlowState String
  | _, [], o => o
  | id, candidate :: rest, o =>
    addFlowSteps trigger (id + 1) rest (o.addStep id (flowStep candidate trigger))

/-- Allows the transitions from `entry` to each of the targets. -/
def allowTransitions (entry : NodeId) :
    List NodeId → Orchestrator Activations FlowState String →
      Except GraphError (Orchestrator Activations FlowState String)
  | [], o => .ok o
  | target :: rest, o => do
    let o ← o.allowTransition entry target
    allowTransitions entry rest o

def activationOrchestrator (awaiting : List String) (trigger : InvocationTrigger) :
    Except GraphError (Orchestrator Activations FlowState String) :=
  let candidates := List.range awaiting.length
  let entry := awaiting.length
  let o := (addFlowSteps trigger 0 awaiting .new).addStep entry (andJoinDispatch candidates)
  allowTransitions entry candidates (o.setEntry entry)

inductive PassError where
  | edge (e : GraphError)
  | run (e : RunError String)
  | diverged

/-- The nodes that one pass of the orchestrator activates, with their triggers. -/
def activationPass (state : FlowState) (awaiting : List String) (trigger : InvocationTrigger) :
    Except PassError (List (String × InvocationTrigger)) :=
  match activationOrchestrator awaiting trigger with
  | .error e => .error (.edge e)
  | .ok o =>
    match (o.run (awaiting.length + 1) state ⟨none⟩).run [] with
    | (some (.ok _), toActivate) => .ok toActivate
    | (some (.error e), _) => .error (.run e)
    | (none, _) => .error .diverged

variable {o : Orchestrator Activations FlowState String} (trigger : InvocationTrigger)

theorem node_addFlowSteps_other (awaiting : List String) (id n : Nat)
    (hn : n < id ∨ id + awaiting.length ≤ n) :
    (addFlowSteps trigger id awaiting o).graph.node n = o.graph.node n := by
  induction awaiting generalizing id o with
  | nil => rfl
  | cons candidate rest ih =>
    simp only [List.length_cons] at hn
    have hNe : n ≠ id := by omega
    rw [addFlowSteps, ih (id + 1) (by omega)]
    simp only [Orchestrator.addStep, Graph.node_addNode]
    rw [if_neg hNe]

theorem node_addFlowSteps (awaiting : List String) (id k : Nat) (hk : k < awaiting.length) :
    (addFlowSteps trigger id awaiting o).graph.node (id + k) =
      some (flowStep awaiting[k] trigger) := by
  induction awaiting generalizing id k o with
  | nil => simp at hk
  | cons candidate rest ih =>
    rw [addFlowSteps]
    cases k with
    | zero =>
      rw [node_addFlowSteps_other trigger rest (id + 1) (id + 0) (by omega)]
      simp [Orchestrator.addStep, Graph.node_addNode]
    | succ k =>
      rw [show id + (k + 1) = id + 1 + k by omega]
      exact ih (id + 1) k (by simpa using hk)

omit trigger in
theorem allowTransitions_ok (entry : NodeId) (targets : List NodeId)
    (hEntry : o.graph.contains entry = true)
    (hTargets : ∀ n ∈ targets, o.graph.contains n = true) :
    ∃ o', allowTransitions entry targets o = .ok o' ∧ o'.entry = o.entry ∧
      o'.graph.nodes = o.graph.nodes ∧
      ∀ n, n ∈ targets ∨ n ∈ o.graph.successors entry → n ∈ o'.graph.successors entry := by
  induction targets generalizing o with
  | nil => exact ⟨o, rfl, rfl, rfl, by simp⟩
  | cons target rest ih =>
    obtain ⟨g, hAdd, hNodes, hSucc⟩ := Graph.addEdge_ok () hEntry (hTargets target (by simp))
    have hContains : ∀ n, g.contains n = o.graph.contains n := fun n => by
      simp [Graph.contains, Graph.node, hNodes]
    obtain ⟨o', hRest, hEntry', hNodes', hSucc'⟩ := ih (o := { o with graph := g })
      (by rw [hContains]; exact hEntry)
      fun n hn => by rw [hContains]; exact hTargets n (List.mem_cons_of_mem _ hn)
    refine ⟨o', ?_, hEntry', hNodes'.trans hNodes, fun n hn => hSucc' n ?_⟩
    · simp only [allowTransitions, Orchestrator.allowTransition, hAdd]
      exact hRest
    · simp only [hSucc, if_pos, List.mem_append, List.mem_singleton]
      rcases hn with hn | hn
      · rcases List.mem_cons.mp hn with rfl | hn
        · exact .inr (.inr rfl)
        · exact .inl hn
      · exact .inr (.inl hn)

def candidateAct (state : FlowState) (trigger : InvocationTrigger) (node : String) :
    Activations PUnit :=
  modify (· ++ if gateOpen node state.runState state.graph then [(node, trigger)] else [])

theorem flowStep_leaf (state : FlowState) (node : String) :
    Orchestrator.Leaf (flowStep node trigger) state (candidateAct state trigger node) := by
  by_cases h : gateOpen node state.runState state.graph = true
  · refine ⟨.completed, ?_⟩
    simp only [flowStep, candidateAct, h, Bool.not_true, Bool.false_eq_true, if_false, if_true]
  · refine ⟨.custom "awaiting-inputs", ?_⟩
    simp only [flowStep, candidateAct, h, Bool.not_false, if_true, Bool.false_eq_true, if_false,
      List.append_nil]
    rfl

theorem forM_candidates (state : FlowState) (awaiting : List String) (f : NodeId → String)
    (ids : List NodeId) (hIds : ids.map f = awaiting) (acc : List (String × InvocationTrigger)) :
    (forM ids fun n => candidateAct state trigger (f n)).run acc = ((),
      acc ++ (awaiting.filter fun node => gateOpen node state.runState state.graph).map
        fun node => (node, trigger)) := by
  induction ids generalizing awaiting acc with
  | nil =>
    subst hIds
    simp
    rfl
  | cons n rest ih =>
    subst hIds
    rw [List.forM_cons]
    show (forM rest fun n => candidateAct state trigger (f n)).run (acc ++ _) = _
    rw [ih _ rfl]
    by_cases h : gateOpen (f n) state.runState state.graph = true <;> simp [h]

theorem activationPass_eq (state : FlowState) (awaiting : List String) (hSome : awaiting ≠ []) :
    activationPass state awaiting trigger =
      .ok ((awaiting.filter fun node => gateOpen node state.runState state.graph).map
        fun node => (node, trigger)) := by
  let candidates := List.range awaiting.length
  let steps := (addFlowSteps trigger 0 awaiting (.new : Orchestrator Activations FlowState String))
  let o := (steps.addStep awaiting.length (andJoinDispatch candidates)).setEntry awaiting.length
  have hEntry : o.graph.node awaiting.length = some (andJoinDispatch candidates) := by
    simp [o, Orchestrator.setEntry, Orchestrator.addStep, Graph.node_addNode]
  have hNode : ∀ k (hk : k < awaiting.length),
      o.graph.node k = some (flowStep awaiting[k] trigger) := fun k hk => by
    have := node_addFlowSteps (o := .new) trigger awaiting 0 k hk
    rw [Nat.zero_add] at this
    simp only [o, Orchestrator.setEntry, Orchestrator.addStep, Graph.node_addNode]
    rw [if_neg (Nat.ne_of_lt hk)]
    exact this
  obtain ⟨o', hAllow, hEntry', hNodes, hSucc⟩ := allowTransitions_ok awaiting.length candidates
    (o := o) (by simp [Graph.contains, hEntry]) fun n hn => by
      simp [Graph.contains, hNode n (List.mem_range.mp hn)]
  have hSame : ∀ n, o'.graph.node n = o.graph.node n := fun n => by
    simp [Graph.node, hNodes]
  have hOrchestrator : activationOrchestrator awaiting trigger = .ok o' := hAllow
  have hExec : (andJoinDispatch candidates).execute state =
      pure (.ok (.branch state candidates)) := by
    have : candidates.isEmpty = false := by simpa [candidates] using hSome
    simp [andJoinDispatch, this]
  have hLeaf : ∀ n ∈ candidates, ∃ step, o'.graph.node n = some step ∧
      Orchestrator.Leaf step state (candidateAct state trigger (awaiting.getD n "")) := fun n hn => by
    have hn := List.mem_range.mp hn
    refine ⟨_, (hSame n).trans (hNode n hn), ?_⟩
    have hGet : awaiting.getD n "" = awaiting[n] := by simp [List.getD, hn]
    rw [hGet]
    exact flowStep_leaf trigger state _
  obtain ⟨outcome, hRun⟩ := Orchestrator.run_fanOut candidates
    (fun n => candidateAct state trigger (awaiting.getD n "")) hEntry' ((hSame _).trans hEntry) hExec
    (fun n hn => hSucc n (.inl hn)) hLeaf
    (show candidates.length < awaiting.length + 1 by simp [candidates])
  have hIds : candidates.map (fun n => awaiting.getD n "") = awaiting := by
    apply List.ext_getElem
    · simp [candidates]
    · intro n h1 h2
      simp [candidates, h2]
  have hActs := forM_candidates trigger state awaiting _ candidates hIds []
  have hPass : (o'.run (awaiting.length + 1) state ⟨none⟩).run [] = (some (.ok outcome),
      (awaiting.filter fun node => gateOpen node state.runState state.graph).map
        fun node => (node, trigger)) := by
    rw [hRun, StateT.run_bind, hActs]
    rfl
  simp only [activationPass, hOrchestrator, hPass]

end Cronymax.Flow
