import Cronymax.Flow.Footprint
import Cronymax.Flow.Topology

/-! Flows that cannot deadlock.  Nodes are activated stage by stage: all outputs of the nodes whose
gate is open are approved, which may open further gates.  Every node is activated at some stage
unless nodes wait for one another, and edges of `routes_to` alone never make them do so: a node
with a `reads` list is part of every such circle. -/

namespace Cronymax.Flow

open Precedence Relation

/-- Every output of the node is approved. -/
def approveOutputs (n : FlowNode) (s : FlowRunState) : FlowRunState :=
  n.outputs.foldl (fun t output => t.setPort n.id output.port .approved) s

/-- Every node whose gate is open is activated, and its outputs are approved. -/
def approveActivated (flow : FlowDefinition) (s : FlowRunState) : FlowRunState :=
  (flow.nodes.filter fun n => gateOpen n.id s flow.graph).foldl (fun t n => approveOutputs n t) s

theorem approved_setPort {s : FlowRunState} {node port : String}
    (h : s.portStatus node port = .approved) (node' port' : String) :
    (s.setPort node' port' .approved).portStatus node port = .approved := by
  rw [s.portStatus_setPort]
  split
  · rfl
  · exact h

theorem approved_approveOutputs {s : FlowRunState} {node port : String} {n : FlowNode}
    (h : s.portStatus node port = .approved ∨ node = n.id ∧ ∃ output ∈ n.outputs, output.port = port) :
    (approveOutputs n s).portStatus node port = .approved := by
  unfold approveOutputs
  generalize n.outputs = outputs at h
  induction outputs generalizing s with
  | nil => simpa using h
  | cons output rest ih =>
    refine ih ?_
    rcases h with h | ⟨hNode, o, ho, rfl⟩
    · exact .inl (approved_setPort h _ _)
    · rcases List.mem_cons.mp ho with rfl | ho
      · exact .inl (by simp [s.portStatus_setPort, hNode])
      · exact .inr ⟨hNode, o, ho, rfl⟩

theorem approved_foldl_approveOutputs {node port : String} (ns : List FlowNode) {s : FlowRunState}
    (h : s.portStatus node port = .approved ∨
      ∃ n ∈ ns, node = n.id ∧ ∃ output ∈ n.outputs, output.port = port) :
    (ns.foldl (fun t n => approveOutputs n t) s).portStatus node port = .approved := by
  induction ns generalizing s with
  | nil => simpa using h
  | cons n rest ih =>
    refine ih ?_
    rcases h with h | ⟨m, hm, hPort⟩
    · exact .inl (approved_approveOutputs (.inl h))
    · rcases List.mem_cons.mp hm with rfl | hm
      · exact .inl (approved_approveOutputs (.inr hPort))
      · exact .inr ⟨m, hm, hPort⟩

theorem approved_approveActivated {flow : FlowDefinition} {s : FlowRunState} {node port : String}
    (h : s.portStatus node port = .approved ∨ ∃ n ∈ flow.nodes,
      gateOpen n.id s flow.graph = true ∧ node = n.id ∧ ∃ output ∈ n.outputs, output.port = port) :
    (approveActivated flow s).portStatus node port = .approved := by
  refine approved_foldl_approveOutputs _ (h.imp id ?_)
  rintro ⟨n, hn, hOpen, hPort⟩
  exact ⟨n, List.mem_filter.mpr ⟨hn, hOpen⟩, hPort⟩

theorem approved_iterate {flow : FlowDefinition} {s : FlowRunState} {node port : String}
    (h : s.portStatus node port = .approved) (k : Nat) :
    ((approveActivated flow)^[k] s).portStatus node port = .approved := by
  induction k with
  | zero => exact h
  | succ k ih =>
    rw [Function.iterate_succ_apply']
    exact approved_approveActivated (.inl ih)

theorem gateOpen_iff {node : String} {s : FlowRunState} {graph : FlowGraph} :
    gateOpen node s graph = true ↔
      ∀ input ∈ graph.requiredInputsFor node, s.portStatus input.1 input.2 = .approved := by
  simp [gateOpen, List.all_eq_true]

theorem gateOpen_of_eventually {flow : FlowDefinition} {s : FlowRunState} {node : String}
    (h : ∀ input ∈ flow.graph.requiredInputsFor node,
      ∃ k, ((approveActivated flow)^[k] s).portStatus input.1 input.2 = .approved) :
    ∃ k, gateOpen node ((approveActivated flow)^[k] s) flow.graph = true := by
  suffices hAll : ∀ inputs : List PortRef,
      (∀ input ∈ inputs, ∃ k, ((approveActivated flow)^[k] s).portStatus input.1 input.2 = .approved) →
      ∃ k, ∀ input ∈ inputs,
        ((approveActivated flow)^[k] s).portStatus input.1 input.2 = .approved by
    obtain ⟨k, hk⟩ := hAll _ h
    exact ⟨k, gateOpen_iff.mpr hk⟩
  intro inputs
  induction inputs with
  | nil => exact fun _ => ⟨0, nofun⟩
  | cons input rest ih =>
    intro hInputs
    obtain ⟨k, hk⟩ := hInputs input List.mem_cons_self
    obtain ⟨k', hk'⟩ := ih fun i hi => hInputs i (List.mem_cons_of_mem _ hi)
    refine ⟨k + k', fun i hi => ?_⟩
    rcases List.mem_cons.mp hi with rfl | hi
    · rw [Nat.add_comm, Function.iterate_add_apply]
      exact approved_iterate hk k'
    · rw [Function.iterate_add_apply]
      exact approved_iterate (hk' i hi) k

/-- The node requires an output of the other, and is no entry node. -/
def Requires (flow : FlowDefinition) (n m : FlowNode) : Prop :=
  n ∈ flow.nodes ∧ m ∈ flow.nodes ∧ n.id ∉ flow.graph.entryNodes ∧
    ∃ port, (m.id, port) ∈ flow.graph.requiredInputsFor n.id

/-- The node waits for an output of the other: one routed to it, or one whose key it reads. -/
def WaitsFor (nodes : List FlowNode) (n m : FlowNode) : Prop :=
  n ∈ nodes ∧ m ∈ nodes ∧
    ((n.reads = [] ∧ ForwardEdge nodes (detectBackEdges nodes) m.id n.id) ∨
      ∃ key ∈ n.reads, ∃ port, (FlowGraph.keyToProducer nodes).lookup key = some (m.id, port))

variable {flow : FlowDefinition} {n m : FlowNode}

theorem mem_baseInputs {nodes : List FlowNode} {input : PortRef} :
    input ∈ FlowGraph.baseInputs nodes n ↔
      (n.reads = [] ∧ input ∈ FlowGraph.incoming nodes n.id ∧
        (input.1, n.id) ∉ detectBackEdges nodes) ∨
      ∃ key ∈ n.reads, (FlowGraph.keyToProducer nodes).lookup key = some input := by
  unfold FlowGraph.baseInputs
  by_cases hReads : n.reads = []
  · simp [hReads]
  · simp [hReads]

theorem baseInputs_declared {nodes : List FlowNode} {input : PortRef}
    (h : input ∈ FlowGraph.baseInputs nodes n) :
    ∃ m ∈ nodes, ∃ output ∈ m.outputs, input = (m.id, output.port) := by
  rcases mem_baseInputs.mp h with ⟨_, hIncoming, _⟩ | ⟨key, _, hKey⟩
  · obtain ⟨m, hm, output, hOutput, _, rfl⟩ := mem_incoming.mp hIncoming
    exact ⟨m, hm, output, hOutput, rfl⟩
  · obtain ⟨m, hm, output, hOutput, _, rfl⟩ := keyToProducer_declared hKey
    exact ⟨m, hm, output, hOutput, rfl⟩

theorem mem_entryNodes (hn : n ∈ flow.nodes) :
    n.id ∈ flow.graph.entryNodes ↔ FlowGraph.baseInputs flow.nodes n = [] := by
  rw [flow.graph_built.entry]
  simp only [List.mem_map, List.mem_filter, List.isEmpty_iff]
  constructor
  · rintro ⟨m, ⟨hm, hEmpty⟩, hId⟩
    rwa [List.inj_on_of_nodup_map flow.graph_built.nodup hm hn hId] at hEmpty
  · exact fun hEmpty => ⟨n, ⟨hn, hEmpty⟩, rfl⟩

theorem requires_iff_baseInputs (hn : n ∈ flow.nodes) (hm : m ∈ flow.nodes) :
    Requires flow n m ↔ ∃ port, (m.id, port) ∈ FlowGraph.baseInputs flow.nodes n := by
  have hRequired := flow.graph_built.required n hn
  constructor
  · rintro ⟨_, _, hEntry, port, hPort⟩
    rw [mem_entryNodes hn] at hEntry
    rw [hRequired, if_neg (by simpa using hEntry), List.append_nil] at hPort
    exact ⟨port, hPort⟩
  · rintro ⟨port, hPort⟩
    refine ⟨hn, hm, fun hEntry => ?_, port, ?_⟩
    · rw [(mem_entryNodes hn).mp hEntry] at hPort
      cases hPort
    · rw [hRequired]
      exact List.mem_append_left _ hPort

theorem requires_iff_waitsFor : Requires flow n m ↔ WaitsFor flow.nodes n m := by
  suffices h : ∀ (hn : n ∈ flow.nodes) (hm : m ∈ flow.nodes),
      Requires flow n m ↔ WaitsFor flow.nodes n m from
    ⟨fun hReq => (h hReq.1 hReq.2.1).mp hReq, fun hWait => (h hWait.1 hWait.2.1).mpr hWait⟩
  intro hn hm
  rw [requires_iff_baseInputs hn hm]
  constructor
  · rintro ⟨port, hPort⟩
    refine ⟨hn, hm, ?_⟩
    rcases mem_baseInputs.mp hPort with ⟨hReads, hIncoming, hForward⟩ | ⟨key, hKey, hLookup⟩
    · obtain ⟨m', hm', output, hOutput, hRoute, hEq⟩ := mem_incoming.mp hIncoming
      refine .inl ⟨hReads, ?_, hForward⟩
      have hId : m.id = m'.id := (Prod.ext_iff.mp hEq).1
      rw [hId, FlowDefinition.outgoing_of_mem hm']
      exact List.mem_filterMap.mpr ⟨output, hOutput, hRoute⟩
    · exact .inr ⟨key, hKey, port, hLookup⟩
  · rintro ⟨_, _, ⟨hReads, hEdge, hForward⟩ | ⟨key, hKey, port, hLookup⟩⟩
    · rw [FlowDefinition.outgoing_of_mem hm] at hEdge
      obtain ⟨output, hOutput, hRoute⟩ := List.mem_filterMap.mp hEdge
      exact ⟨output.port, mem_baseInputs.mpr
        (.inl ⟨hReads, mem_incoming.mpr ⟨m, hm, output, hOutput, hRoute, rfl⟩, hForward⟩)⟩
    · exact ⟨port, mem_baseInputs.mpr (.inr ⟨key, hKey, hLookup⟩)⟩

theorem requires_acyclic_iff : Acyclic (Requires flow) ↔
    ∀ n ∈ flow.nodes, n.reads ≠ [] → ¬ TransGen (WaitsFor flow.nodes) n n := by
  have hSame : Requires flow = WaitsFor flow.nodes := by
    funext n m
    exact propext requires_iff_waitsFor
  have hPlain : Acyclic fun n m : FlowNode => WaitsFor flow.nodes n m ∧ ¬ n.reads ≠ [] := by
    intro n hCycle
    refine (forwardEdges_acyclic flow.outgoing_declared).swap n.id
      (hCycle.lift (·.id) fun a b ⟨hWait, hReads⟩ => ?_)
    obtain ⟨_, _, ⟨_, hEdge⟩ | ⟨key, hKey, _⟩⟩ := hWait
    · exact hEdge
    · rw [not_not.mp hReads] at hKey
      cases hKey
  rw [hSame, acyclic_iff_marked hPlain]
  constructor
  · exact fun h n _ => h n
  · intro h n hReads hCycle
    obtain ⟨_, hWait, _⟩ := TransGen.head'_iff.mp hCycle
    exact h n hWait.1 hReads hCycle

/-- No node requires its own outputs through a chain of nodes, some node starts the flow, and every
node is activated at some stage of every run. -/
structure DeadlockFree (flow : FlowDefinition) : Prop where
  acyclic : Acyclic (Requires flow)
  entry : flow.nodes ≠ [] → flow.graph.entryNodes ≠ []
  activated : ∀ n ∈ flow.nodes, ∀ runId initialInput now, ∃ k, gateOpen n.id
    ((approveActivated flow)^[k] (startState runId flow initialInput now)) flow.graph = true

theorem entryNodes_ne_nil (h : Acyclic (Requires flow)) (hNodes : flow.nodes ≠ []) :
    flow.graph.entryNodes ≠ [] := by
  obtain ⟨n, hn, hLast⟩ := h.exists_last hNodes
  refine List.ne_nil_of_mem (a := n.id) ((mem_entryNodes hn).mpr ?_)
  refine List.eq_nil_iff_forall_not_mem.mpr fun input hInput => ?_
  obtain ⟨m, hm, output, _, rfl⟩ := baseInputs_declared hInput
  exact hLast m hm ((requires_iff_baseInputs hn hm).mpr ⟨output.port, hInput⟩)

theorem eventually_activated (h : Acyclic (Requires flow)) (runId initialInput now : String) :
    ∀ n ∈ flow.nodes, ∃ k, gateOpen n.id
      ((approveActivated flow)^[k] (startState runId flow initialInput now)) flow.graph = true := by
  refine h.list_induction fun n hn ih => gateOpen_of_eventually fun input hInput => ?_
  rw [flow.graph_built.required n hn] at hInput
  rcases List.mem_append.mp hInput with hInput | hInput
  · -- the stage after the one that activates the producer approves the input
    obtain ⟨m, hm, output, hOutput, rfl⟩ := baseInputs_declared hInput
    obtain ⟨k, hOpen⟩ := ih m hm ((requires_iff_baseInputs hn hm).mpr ⟨output.port, hInput⟩)
    refine ⟨k + 1, ?_⟩
    rw [Function.iterate_succ_apply']
    exact approved_approveActivated (.inr ⟨m, hm, hOpen, rfl, output, hOutput, rfl⟩)
  · split at hInput
    · rw [List.mem_singleton.mp hInput]
      exact ⟨0, by simp [startState, FlowRunState.portStatus_setPort]⟩
    · cases hInput

theorem deadlockFree_of_acyclic (h : Acyclic (Requires flow)) : DeadlockFree flow where
  acyclic := h
  entry := entryNodes_ne_nil h
  activated := fun n hn runId initialInput now => eventually_activated h runId initialInput now n hn

/-- A flow cannot deadlock if and only if no node with a `reads` list waits for itself. -/
theorem deadlockFree_iff (flow : FlowDefinition) : DeadlockFree flow ↔
    ∀ n ∈ flow.nodes, n.reads ≠ [] → ¬ TransGen (WaitsFor flow.nodes) n n := by
  rw [← requires_acyclic_iff]
  exact ⟨fun h => h.acyclic, deadlockFree_of_acyclic⟩

def backAndForth : FlowDefinition := .ofNodes "back-and-forth" []
  [{ id := "pm", owner := "pm", outputs := [{ port := "prd", routesTo := some "rd" }] },
   { id := "rd", owner := "rd", outputs := [{ port := "questions", routesTo := some "pm" }] }]
  "flow.yaml" (by decide)

example : DeadlockFree backAndForth := by
  have hReads : ∀ n ∈ backAndForth.nodes, n.reads = [] := by decide
  exact deadlockFree_of_acyclic (requires_acyclic_iff.mpr fun n hn h => absurd (hReads n hn) h)

def mutualReads : FlowDefinition := .ofNodes "mutual-reads" []
  [{ id := "pm", owner := "pm", reads := ["answers"],
     outputs := [{ port := "prd", blackboardKey := some "prd" }] },
   { id := "rd", owner := "rd", reads := ["prd"],
     outputs := [{ port := "answers", blackboardKey := some "answers" }] }]
  "flow.yaml" (by decide)

/-- The flow is accepted, and no node of it can start. -/
theorem mutualReads_deadlocks : ¬ DeadlockFree mutualReads :=
  fun h => h.entry (by decide) (by decide)

end Cronymax.Flow
