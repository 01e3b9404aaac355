import Mathlib.Data.List.AList

/-! Flow definitions: the nodes of a flow, and the graph that `FlowGraph.build` derives from them.
A hash map is an association list with distinct keys.  Its order stands for the order in which the
map is iterated, which the source leaves open: a `FlowDefinition` may hold the derived maps in any
order. -/

namespace Cronymax.Flow

/-- A node and one of its ports. -/
abbrev PortRef := String × String

/-- `FlowNodeOutput`: a port with its route, its reviewers and its limit. -/
structure FlowNodeOutput where
  port : String
  routesTo : Option String := none
  reviewers : List String := []
  maxCycles : Option UInt32 := none
  onCycleExhausted : Option String := none
  blackboardKey : Option String := none
deriving DecidableEq

/-- `FlowNode`. -/
structure FlowNode where
  id : String
  owner : String
  outputs : List FlowNodeOutput := []
  reads : List String := []
deriving DecidableEq

inductive FlowLoadError where
  | validation (path message : String)
  | duplicateNodeId (path id : String)
  | unknownRouteTarget (path node port target : String)
  | unknownReviewer (path node port reviewer : String)
  | unresolvedBlackboardKey (node key : String)
deriving DecidableEq

def FlowLoadError.message : FlowLoadError → String
  | .validation path message => s!"validation error in {path}: {message}"
  | .duplicateNodeId path id => s!"duplicate node id '{id}' in {path}"
  | .unknownRouteTarget path node port target =>
    s!"node '{node}' port '{port}' routes_to unknown target '{target}' in {path}"
  | .unknownReviewer path node port reviewer =>
    s!"node '{node}' port '{port}' references unknown reviewer '{reviewer}' in {path}"
  | .unresolvedBlackboardKey node key =>
    s!"node '{node}' reads key '{key}' has no producer "
      ++ s!"(no output declares blackboard_key: \"{key}\")"

/-- The topology derived from a list of nodes. -/
structure FlowGraph where
  entryNodes : List String
  requiredInputs : AList fun _ : String => List PortRef
  cycleInputs : AList fun _ : String => List PortRef

/-- The keys whose values pass the test, in the order of the map. -/
def keysWhere {β : Type} (m : AList fun _ : String => β) (test : β → Bool) : List String :=
  m.entries.filterMap fun e => if test e.2 then some e.1 else none

theorem mem_keysWhere {β : Type} {m : AList fun _ : String => β} {test : β → Bool}
    {key : String} : key ∈ keysWhere m test ↔ ∃ v, m.lookup key = some v ∧ test v = true := by
  simp only [keysWhere, List.mem_filterMap, Option.ite_none_right_eq_some, Option.some.injEq]
  constructor
  · rintro ⟨⟨k, v⟩, hmem, hv, rfl⟩
    exact ⟨v, AList.mem_lookup_iff.mpr hmem, hv⟩
  · rintro ⟨v, hl, hv⟩
    exact ⟨⟨key, v⟩, AList.mem_lookup_iff.mp hl, hv, rfl⟩

theorem nodup_keysWhere {β : Type} (m : AList fun _ : String => β) (test : β → Bool) :
    (keysWhere m test).Nodup := by
  have hKeys : (keysWhere m test).Sublist (m.entries.map Sigma.fst) := by
    unfold keysWhere
    induction m.entries with
    | nil => simp
    | cons e es ih =>
      by_cases h : test e.2 = true
      · simpa [h] using ih
      · simpa [h] using ih.cons _
  exact hKeys.nodup m.nodupKeys

/-- The state of `detect_back_edges`. -/
structure Dfs where
  visited : List String
  inStack : List String
  backEdges : List (String × String)

/-- The nodes that the outputs of the node are routed to. -/
def outgoing (nodes : List FlowNode) (id : String) : List String :=
  match nodes.find? (·.id == id) with
  | some node => node.outputs.filterMap (·.routesTo)
  | none => []

/-- `dfs_back_edges`: an edge to a node on the stack is a back edge. -/
def dfsBackEdges (nodes : List FlowNode) : Nat → String → Dfs → Dfs
  | 0, _, d => d
  | fuel + 1, cur, d =>
    let entered := { d with visited := cur :: d.visited, inStack := cur :: d.inStack }
    let left := (outgoing nodes cur).foldl (fun d target =>
      if target ∉ d.visited then dfsBackEdges nodes fuel target d
      else if target ∈ d.inStack then { d with backEdges := (cur, target) :: d.backEdges }
      else d) entered
    { left with inStack := left.inStack.filter (· ≠ cur) }

/-- `detect_back_edges`. -/
def detectBackEdges (nodes : List FlowNode) : List (String × String) :=
  (nodes.foldl (fun d node =>
    if node.id ∉ d.visited then dfsBackEdges nodes (nodes.length + 1) node.id d else d)
    ⟨[], [], []⟩).backEdges

namespace FlowGraph

/-- `FlowGraph::build`: no two nodes have one id. -/
def checkDuplicateIds (path : String) : List String → List FlowNode → Except FlowLoadError Unit
  | _, [] => pure ()
  | seen, node :: rest =>
    if node.id ∈ seen then throw (.duplicateNodeId path node.id)
    else checkDuplicateIds path (node.id :: seen) rest

/-- `routes_to` names a node. -/
def checkRoute (path : String) (nodes : List FlowNode) (node : FlowNode)
    (output : FlowNodeOutput) : Except FlowLoadError Unit :=
  match output.routesTo with
  | some target =>
    if target ∈ nodes.map (·.id) then pure ()
    else throw (.unknownRouteTarget path node.id output.port target)
  | none => pure ()

/-- Every reviewer is `human` or an agent of the flow. -/
def checkReviewers (path : String) (agentIds : List String) (node : FlowNode)
    (output : FlowNodeOutput) : Except FlowLoadError Unit :=
  output.reviewers.forM fun reviewer =>
    if reviewer ≠ "human" ∧ reviewer ∉ agentIds then
      throw (.unknownReviewer path node.id output.port reviewer)
    else pure ()

/-- `on_cycle_exhausted` is one of the known actions. -/
def checkCycleAction (path : String) (node : FlowNode) (output : FlowNodeOutput) :
    Except FlowLoadError Unit :=
  match output.maxCycles, output.onCycleExhausted with
  | some _, some action =>
    if action ≠ "escalate_to_human" ∧ action ≠ "halt" then
      throw (.validation path (s!"node '{node.id}' port '{output.port}': on_cycle_exhausted must be "
        ++ s!"'escalate_to_human' or 'halt', got '{action}'"))
    else pure ()
  | _, _ => pure ()

/-- The checks that `FlowGraph::build` makes of every output. -/
def checkOutputs (path : String) (nodes : List FlowNode) (agentIds : List String) :
    Except FlowLoadError Unit :=
  nodes.forM fun node => node.outputs.forM fun output => do
    checkRoute path nodes node output
    checkReviewers path agentIds node output
    checkCycleAction path node output

/-- Which port publishes a blackboard key: the last one declared. -/
def keyToProducer (nodes : List FlowNode) : AList fun _ : String => PortRef :=
  nodes.foldl (fun keys node => node.outputs.foldl (fun keys output =>
    match output.blackboardKey with
    | some key => keys.insert key (node.id, output.port)
    | none => keys) keys) ∅

/-- Every key that is read has a producer. -/
def checkReads (keys : AList fun _ : String => PortRef) (nodes : List FlowNode) :
    Except FlowLoadError Unit :=
  nodes.forM fun node => node.reads.forM fun key =>
    if (keys.lookup key).isNone then throw (.unresolvedBlackboardKey node.id key) else pure ()

/-- The ports that are routed to the node. -/
def incoming (nodes : List FlowNode) (target : String) : List PortRef :=
  nodes.flatMap fun node =>
    (node.outputs.filter (·.routesTo == some target)).map fun output => (node.id, output.port)

/-- The incoming ports of every node, those of back edges apart. -/
def classify (nodes : List FlowNode) (backEdges : List (String × String)) :
    (AList fun _ : String => List PortRef) × (AList fun _ : String => List PortRef) :=
  nodes.foldl (fun (required, cycle) node =>
    let edges := incoming nodes node.id
    (required.insert node.id (edges.filter fun edge => (edge.1, node.id) ∉ backEdges),
      cycle.insert node.id (edges.filter fun edge => (edge.1, node.id) ∈ backEdges)))
    (∅, ∅)

/-- A node with `reads` requires the producers of its keys instead. -/
def overrideReads (nodes : List FlowNode) (keys : AList fun _ : String => PortRef)
    (maps : (AList fun _ : String => List PortRef) × (AList fun _ : String => List PortRef)) :
    (AList fun _ : String => List PortRef) × (AList fun _ : String => List PortRef) :=
  nodes.foldl (fun (required, cycle) node =>
    if node.reads.isEmpty then (required, cycle)
    else (required.insert node.id (node.reads.filterMap keys.lookup), cycle.insert node.id []))
    maps

/-- An entry node requires the brief of the chat. -/
def injectChat (entryNodes : List String) (required : AList fun _ : String => List PortRef) :
    AList fun _ : String => List PortRef :=
  entryNodes.foldl (fun required entry =>
    required.insert entry ((required.lookup entry).getD [] ++ [("__chat__", "initial-brief")]))
    required

/-- `FlowGraph::build`. -/
def build (nodes : List FlowNode) (agentIds : List String) (path : String) :
    Except FlowLoadError FlowGraph := do
  checkDuplicateIds path [] nodes
  checkOutputs path nodes agentIds
  let keys := keyToProducer nodes
  checkReads keys nodes
  let (required, cycle) := overrideReads nodes keys (classify nodes (detectBackEdges nodes))
  let entryNodes := (nodes.filter fun node =>
    ((required.lookup node.id).getD []).isEmpty).map (·.id)
  pure ⟨entryNodes, injectChat entryNodes required, cycle⟩

def baseInputs (nodes : List FlowNode) (node : FlowNode) : List PortRef :=
  if node.reads.isEmpty then
    (incoming nodes node.id).filter fun edge => (edge.1, node.id) ∉ detectBackEdges nodes
  else node.reads.filterMap (keyToProducer nodes).lookup

variable (g : FlowGraph)

/-- `required_inputs_for`. -/
def requiredInputsFor (node : String) : List PortRef := (g.requiredInputs.lookup node).getD []

/-- `cycle_inputs_for`. -/
def cycleInputsFor (node : String) : List PortRef := (g.cycleInputs.lookup node).getD []

/-- `nodes_awaiting`: the nodes that require the port. -/
def nodesAwaiting (producer port : String) : List String :=
  keysWhere g.requiredInputs fun inputs => inputs.any (· == (producer, port))

/-- `nodes_retriggered_by`: the nodes with the port among their cycle inputs. -/
def nodesRetriggeredBy (producer port : String) : List String :=
  keysWhere g.cycleInputs fun inputs => inputs.any (· == (producer, port))

/-- Two graphs with the same maps, iterated in any order. -/
structure SameMaps (g g' : FlowGraph) : Prop where
  entry : g.entryNodes = g'.entryNodes
  required : g.requiredInputs.entries.Perm g'.requiredInputs.entries
  cycle : g.cycleInputs.entries.Perm g'.cycleInputs.entries

end FlowGraph

namespace FlowGraph

variable (g : FlowGraph)

theorem mem_nodesAwaiting {producer port node : String} :
    node ∈ g.nodesAwaiting producer port ↔ (producer, port) ∈ g.requiredInputsFor node := by
  unfold nodesAwaiting requiredInputsFor
  rw [mem_keysWhere]
  cases g.requiredInputs.lookup node <;> simp

theorem nodup_nodesAwaiting (producer port : String) : (g.nodesAwaiting producer port).Nodup :=
  nodup_keysWhere _ _

end FlowGraph

/-- A flow whose graph `FlowGraph::build` has accepted. -/
structure FlowDefinition where
  name : String
  agents : List String
  nodes : List FlowNode
  graph : FlowGraph
  built : ∃ path g, FlowGraph.build nodes agents path = .ok g ∧ g.SameMaps graph

namespace FlowDefinition

def ofNodes (name : String) (agents : List String) (nodes : List FlowNode) (path : String)
    (accepted : (FlowGraph.build nodes agents path).isOk = true) : FlowDefinition :=
  match hBuild : FlowGraph.build nodes agents path with
  | .ok graph =>
    { name, agents, nodes, graph, built := ⟨path, graph, hBuild, rfl, .rfl, .rfl⟩ }
  | .error _ => absurd accepted (by rw [hBuild]; nofun)

variable (flow : FlowDefinition)

def node (id : String) : Option FlowNode := flow.nodes.find? (·.id == id)

def output (node port : String) : Option FlowNodeOutput := do
  (← flow.node node).outputs.find? (·.port == port)

/-- `find_output_by_blackboard_key`: the first declaration. -/
def findOutputByBlackboardKey (key : String) : Option PortRef :=
  flow.nodes.findSome? fun node => node.outputs.findSome? fun output =>
    if output.blackboardKey == some key then some (node.id, output.port) else none

/-- `pending_ports_for`. -/
def pendingPortsFor (node : String) (approvedPorts : List String) : List String :=
  match flow.node node with
  | some n => (n.outputs.map (·.port)).filter (· ∉ approvedPorts)
  | none => []

theorem node_id {id : String} {n : FlowNode} (h : flow.node id = some n) : n.id = id := by
  simpa using List.find?_some h

end FlowDefinition

end Cronymax.Flow
