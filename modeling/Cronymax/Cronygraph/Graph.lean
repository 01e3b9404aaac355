import Mathlib.Data.List.AList

/-! The directed graph of the orchestration engine: nodes with payloads under stable identifiers,
and for each node its outgoing edges in insertion order.  The source draws identifiers at random;
here the caller passes the identifier that was drawn. -/

namespace Cronygraph

abbrev NodeId := Nat

inductive GraphError where
  | unknownNode (id : NodeId)
  | cycle
deriving DecidableEq

structure Edge (E : Type) where
  target : NodeId
  payload : E

/-- `Graph`: the payloads of the nodes and their outgoing edges. -/
structure Graph (N E : Type) where
  nodes : AList fun _ : NodeId => N
  adjacency : AList fun _ : NodeId => List (Edge E)

namespace Graph

variable {N E : Type}

def new : Graph N E := ⟨∅, ∅⟩

/-- `add_node`: an id that is there loses its edges. -/
def addNode (g : Graph N E) (id : NodeId) (payload : N) : Graph N E :=
  ⟨g.nodes.insert id payload, g.adjacency.insert id []⟩

/-- `insert_node_with_id`: an id that is there keeps its edges. -/
def insertNodeWithId (g : Graph N E) (id : NodeId) (payload : N) : Option N × Graph N E :=
  (g.nodes.lookup id,
    ⟨g.nodes.insert id payload, g.adjacency.insert id ((g.adjacency.lookup id).getD [])⟩)

@[grind =] def node (g : Graph N E) (id : NodeId) : Option N := g.nodes.lookup id

@[grind =] def contains (g : Graph N E) (id : NodeId) : Bool := (g.node id).isSome

def edgesFrom (g : Graph N E) (id : NodeId) : List (Edge E) := (g.adjacency.lookup id).getD []

def successors (g : Graph N E) (id : NodeId) : List NodeId := (g.edgesFrom id).map (·.target)

/-- `add_edge`: both ends have to be there. -/
def addEdge (g : Graph N E) (source target : NodeId) (payload : E) :
    Except GraphError (Graph N E) :=
  if !g.contains source then .error (.unknownNode source)
  else if !g.contains target then .error (.unknownNode target)
  else
    let edges := g.edgesFrom source ++ [⟨target, payload⟩]
    .ok { g with adjacency := g.adjacency.insert source edges }

theorem node_addNode (g : Graph N E) (id id' : NodeId) (payload : N) :
    (g.addNode id payload).node id' = if id' = id then some payload else g.node id' := by
  split
  · subst id'
    exact AList.lookup_insert _
  · exact AList.lookup_insert_ne ‹_›

theorem addEdge_ok {g : Graph N E} {source target : NodeId} (payload : E)
    (hs : g.contains source = true) (ht : g.contains target = true) :
    ∃ g', g.addEdge source target payload = .ok g' ∧ g'.nodes = g.nodes ∧
      ∀ id, g'.successors id =
        if id = source then g.successors source ++ [target] else g.successors id := by
  refine ⟨⟨g.nodes, g.adjacency.insert source (g.edgesFrom source ++ [⟨target, payload⟩])⟩,
    by simp [addEdge, hs, ht], rfl, fun id => ?_⟩
  simp only [successors, edgesFrom]
  split
  · subst id
    simp [AList.lookup_insert]
  · rw [AList.lookup_insert_ne ‹_›]

end Graph

end Cronygraph
