import Cronymax.Workbench.BlockIds
import Mathlib.Data.List.Sort

/-! The store of the flow editor.  A flow that is opened is brought to the current schema, is given the lead node
if it has none, and loses the edges without two nodes; the edges are then addressed by their index. -/

namespace Cronymax.FlowEditor

open Workbench (isSpace)

structure ProducesEntry where
  docType : String
  reviewers : List Char
deriving DecidableEq

structure GraphNode where
  id : Int
  type : String
  name : String
  x : Rat
  y : Rat
  /-- `none` if it is no array. -/
  produces : Option (List ProducesEntry)
  config : String → Option String

/-- `GraphEdge`. -/
structure GraphEdge where
  fromId : Int
  toId : Int
  port : Option String := none
  requiresHumanApproval : Option Bool := none
  label : Option String := none
  reviewers : Option (List Char) := none
deriving DecidableEq

structure FlowSpec where
  nodes : List GraphNode
  edges : List GraphEdge

/-- The editor's state. -/
structure State where
  nodes : List GraphNode
  edges : List GraphEdge
  selectedId : Option Int
  selectedEdgeIndex : Option Nat
  nextId : Int

/-- `config.agent_name ?? name`. -/
@[grind =] def agentOf (n : GraphNode) : String := (n.config "agent_name").getD n.name

def leadNodeId (nodes : List GraphNode) : Option Int := (nodes.map (·.id)).min?

def trim (text : List Char) : List Char := (text.dropWhile isSpace).rdropWhile isSpace

/-- The names in a list of reviewers. -/
def splitReviewers (text : List Char) : List (List Char) := ((text.splitOn ',').map trim).filter (· ≠ [])

local instance lawfulNames : LawfulBEq (List Char) := inferInstance

def collect (names : List (List Char)) : List (List Char) :=
  names.foldl (fun found r => if r ∈ found then found else found ++ [r]) []

/-- A port gets reviewers. -/
def addReviewers (port : String) (revs : List Char) : List ProducesEntry → List ProducesEntry
  | [] => [{ docType := port, reviewers := revs }]
  | entry :: rest =>
    if entry.docType = port then
      { entry with reviewers :=
          [','].intercalate (collect (splitReviewers entry.reviewers ++ splitReviewers revs)) } :: rest
    else entry :: addReviewers port revs rest

/-- A node of an older form gets its list of ports. -/
def liftProduces (n : GraphNode) : GraphNode :=
  let produces := n.produces.getD []
  let old := (n.config "produces").getD ""
  { n with
    config := fun key => if key = "produces" ∨ key = "reviewers" then none else n.config key
    produces := some (if produces = [] ∧ old ≠ "" then [{ docType := old, reviewers := [] }] else produces) }

/-- The lead node is called Crony. -/
@[grind =] def renameNode (lead : Option Int) (n : GraphNode) : GraphNode :=
  if lead = some n.id ∧ agentOf n = "Chat" then
    { n with name := "Crony", config := Function.update n.config "agent_name" (some "Crony") }
  else n

/-- The lead node is no longer called Chat. -/
def renameChat (nodes : List GraphNode) : List GraphNode := nodes.map (renameNode (leadNodeId nodes))

/-- The reviewers of an edge of an older form. -/
def legacy (e : GraphEdge) : Option (String × List Char) :=
  match e.reviewers, e.port with
  | some revs, some port => if revs = [] ∨ port = "" then none else some (port, revs)
  | _, _ => none

/-- The reviewers of an edge go to the port of its source. -/
def drainEdge (nodes : List GraphNode) (e : GraphEdge) : List GraphNode × GraphEdge :=
  match legacy e with
  | none => (nodes, e)
  | some (port, revs) =>
    if nodes.any (·.id = e.fromId) then
      (nodes.map fun n => if n.id = e.fromId then { n with produces := n.produces.map (addReviewers port revs) } else n,
        { e with reviewers := none })
    else (nodes, e)

def drainEdges (nodes : List GraphNode) : List GraphEdge → List GraphNode × List GraphEdge
  | [] => (nodes, [])
  | e :: es =>
    let first := drainEdge nodes e
    let rest := drainEdges first.1 es
    (rest.1, first.2 :: rest.2)

def isAgent (n : GraphNode) : Bool := n.type = "agent"

/-- `migrateFlowSpec`. -/
def migrateFlowSpec (raw : FlowSpec) : FlowSpec :=
  let drained := drainEdges (renameChat ((raw.nodes.filter isAgent).map liftProduces)) raw.edges
  { nodes := drained.1, edges := drained.2 }

def nodeXStep : Rat := 300

def cronyAt (x : Rat) : GraphNode where
  id := 1
  type := "agent"
  name := "Crony"
  x := x
  y := 120
  produces := some []
  config := fun key => if key = "agent_name" then some "Crony" else none

def sortById (nodes : List GraphNode) : List GraphNode := nodes.insertionSort fun a b => a.id ≤ b.id

def shiftNode (shift : Int) (n : GraphNode) : GraphNode :=
  { n with id := n.id + shift, x := if shift ≠ 0 then n.x + nodeXStep else n.x }

def shiftEdge (shift : Int) (e : GraphEdge) : GraphEdge :=
  { e with fromId := e.fromId + shift, toId := e.toId + shift }

/-- `ensureCronyLeadNode`: a lead node is put before the others. -/
@[grind =] def ensureCronyLeadNode (spec : FlowSpec) : FlowSpec :=
  match sortById spec.nodes with
  | [] => { nodes := [cronyAt 80], edges := spec.edges }
  | lead :: rest =>
    if agentOf lead = "Crony" then
      match rest with
      | [] => spec
      | firstWorkflow :: _ =>
        if spec.edges.any fun e => e.fromId = lead.id ∧ e.toId = firstWorkflow.id then spec
        else { spec with edges := { fromId := lead.id, toId := firstWorkflow.id } :: spec.edges }
    else
      let idShift := if lead.id = 1 then 1 else 0
      { nodes := cronyAt (if lead.x = 80 then 80 else lead.x - nodeXStep) :: spec.nodes.map (shiftNode idShift)
        edges := { fromId := 1, toId := lead.id + idShift } :: spec.edges.map (shiftEdge idShift) }

/-- `sanitizeNodes`. -/
def sanitizeNodes (nodes : List GraphNode) : List GraphNode :=
  (nodes.filter isAgent).map fun n => { n with produces := some (n.produces.getD []) }

/-- `sanitizeEdges`. -/
def sanitizeEdges (edges : List GraphEdge) (ids : List Int) : List GraphEdge :=
  edges.filter fun e => e.fromId ∈ ids ∧ e.toId ∈ ids

/-- What `updateEdge` can change. -/
structure EdgePatch where
  port : Option (Option String)
  requiresHumanApproval : Option (Option Bool)
  label : Option (Option String)

inductive Action where
  | setFlow (spec : FlowSpec)
  | addNode (node : GraphNode) (nextId : Int) (edge : Option GraphEdge)
  | deleteNode (id : Int)
  | select (id : Option Int)
  | selectEdge (index : Option Nat)
  | updateNodeName (id : Int) (name : String)
  | updateNodeConfig (id : Int) (key value : String)
  | updateNodePosition (id : Int) (x y : Rat)
  | updateNodeProduces (id : Int) (produces : List ProducesEntry)
  | updateEdge (index : Nat) (patch : EdgePatch)
  | deleteEdge (index : Nat)
  | addEdge (edge : GraphEdge)
  | clear

def updateNode (id : Int) (change : GraphNode → GraphNode) (nodes : List GraphNode) : List GraphNode :=
  nodes.map fun n => if n.id = id then change n else n

/-- What opening a flow makes of it. -/
def setFlow (spec : FlowSpec) : State :=
  let migrated := ensureCronyLeadNode (migrateFlowSpec spec)
  let ns := sanitizeNodes migrated.nodes
  { nodes := ns
    edges := sanitizeEdges migrated.edges (ns.map (·.id))
    selectedId := none
    selectedEdgeIndex := none
    nextId := ns.foldl (fun m n => max m n.id) 0 + 1 }

/-- `reducer`. -/
def reducer (state : State) : Action → State
  | .setFlow spec => setFlow spec
  | .addNode node nextId edge =>
    { nodes := state.nodes ++ [node]
      edges := state.edges ++ edge.toList
      selectedId := some node.id
      selectedEdgeIndex := none
      nextId }
  | .deleteNode id =>
    if leadNodeId state.nodes = some id then state
    else
      { state with
        nodes := state.nodes.filter (·.id ≠ id)
        edges := state.edges.filter fun e => e.fromId ≠ id ∧ e.toId ≠ id
        selectedId := if state.selectedId = some id then none else state.selectedId }
  | .select id => { state with selectedId := id, selectedEdgeIndex := none }
  | .selectEdge index => { state with selectedEdgeIndex := index, selectedId := none }
  | .updateNodeName id name => { state with nodes := updateNode id (fun n => { n with name }) state.nodes }
  | .updateNodeConfig id key value =>
    { state with nodes :=
        updateNode id (fun n => { n with config := Function.update n.config key (some value) }) state.nodes }
  | .updateNodePosition id x y => { state with nodes := updateNode id (fun n => { n with x, y }) state.nodes }
  | .updateNodeProduces id produces =>
    { state with nodes := updateNode id (fun n => { n with produces := some produces }) state.nodes }
  | .updateEdge index patch =>
    { state with edges := state.edges.modify index fun e =>
        { e with
          port := patch.port.getD e.port
          requiresHumanApproval := patch.requiresHumanApproval.getD e.requiresHumanApproval
          label := patch.label.getD e.label } }
  | .deleteEdge index =>
    { state with
      edges := state.edges.eraseIdx index
      selectedEdgeIndex := if state.selectedEdgeIndex = some index then none else state.selectedEdgeIndex }
  | .addEdge edge => { state with edges := state.edges ++ [edge] }
  | .clear => { nodes := [], edges := [], selectedId := none, selectedEdgeIndex := none, nextId := 1 }

end Cronymax.FlowEditor
