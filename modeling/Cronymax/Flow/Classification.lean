import Cronymax.Flow.Deadlock

/-! The classes of the edges of a flow without `reads`.  An edge is a cycle input of its target when
the target reaches its source and was entered before it; all edges into a node are cycle inputs when
the search starts there and the node reaches all sources.  Such a node is an entry node and gets the
initial brief, which a declared node named `__chat__` may also produce: the same port is then a
required input and a cycle input. -/

namespace Cronymax.Flow

open Precedence Relation

theorem not_pair_and_swap {α : Type} {l : List α} (hNodup : l.Nodup) {a b : α}
    (hab : [a, b].Sublist l) : a ≠ b ∧ ¬ [b, a].Sublist l := by
  have hNe : a ≠ b := fun h => by
    subst h
    simpa using hab.nodup hNodup
  refine ⟨hNe, fun hba => ?_⟩
  induction l with
  | nil => cases hab
  | cons c rest ih =>
    have hRest := (List.nodup_cons.mp hNodup).2
    rcases List.cons_sublist_cons'.mp hab with hab' | ⟨rfl, hb⟩
    · rcases List.cons_sublist_cons'.mp hba with hba' | ⟨rfl, ha⟩
      · exact ih hRest hab' hba'
      · exact (List.nodup_cons.mp hNodup).1 (hab'.subset (by simp))
    · rcases List.cons_sublist_cons'.mp hba with hba' | ⟨rfl, _⟩
      · exact (List.nodup_cons.mp hNodup).1 (hba'.subset (by simp))
      · exact hNe rfl

theorem pair_of_ordered {α : Type} {r : α → α → Prop} {l : List α} (hOrdered : Ordered r l) {a b : α}
    (ha : a ∈ l) (hab : r a b) : [a, b].Sublist l := by
  induction l with
  | nil => cases ha
  | cons c rest ih =>
    rcases List.mem_cons.mp ha with rfl | ha
    · exact (List.singleton_sublist.mpr (hOrdered.1 b hab)).cons_cons a
    · exact (ih hOrdered.2 ha).cons c

variable {nodes : List FlowNode} {d : Dfs} {order roots : List String}

theorem Dfs.Traced.not_back (hT : d.Traced nodes roots order) (hEmpty : d.inStack = [])
    {source target : String} (hBefore : [source, target].Sublist order) :
    (source, target) ∉ d.backEdges := by
  obtain ⟨hNe, hSwap⟩ := not_pair_and_swap hT.nodup hBefore
  intro hBack
  obtain ⟨_, _, hPlace⟩ := hT.closing _ hBack
  rw [show d.line order = order by simp [Dfs.line, hEmpty]] at hPlace
  exact hPlace.elim (fun hSelf => hNe hSelf.symm) hSwap

theorem Dfs.Traced.back (hT : d.Traced nodes roots order) {source target : String}
    (hRoute : Routes nodes source target) (hSource : source ∈ order)
    (hAfter : source = target ∨ [target, source].Sublist order) : (source, target) ∈ d.backEdges := by
  by_contra hForward
  obtain ⟨hNe, hSwap⟩ := not_pair_and_swap hT.nodup
    (pair_of_ordered hT.ordered hSource ⟨hRoute, hForward⟩)
  exact hAfter.elim hNe hSwap

theorem allBack_iff (hRoutes : ∀ id, ∀ t ∈ outgoing nodes id, t ∈ nodes.map (·.id))
    (hNodup : (nodes.map (·.id)).Nodup) {pre post : List FlowNode} {node : FlowNode}
    (hSplit : nodes = pre ++ node :: post) :
    (∀ source, Routes nodes source node.id → (source, node.id) ∈ detectBackEdges nodes) ↔
      (∀ source, Routes nodes source node.id → Reaches nodes node.id source) ∧
        ∀ earlier ∈ pre, ¬ Reaches nodes earlier.id node.id := by
  have hPre : ∀ n ∈ pre, n ∈ nodes := fun n hn => hSplit ▸ List.mem_append_left _ hn
  have hNode : node ∈ nodes := hSplit ▸ List.mem_append_right _ List.mem_cons_self
  have hPost : ∀ n ∈ post, n ∈ nodes ∧ n.id ∈ nodes.map (·.id) := fun n hn => by
    have hn' : n ∈ nodes := hSplit ▸ List.mem_append_right _ (List.mem_cons_of_mem _ hn)
    exact ⟨hn', List.mem_map_of_mem hn'⟩
  -- the search up to the node's turn
  obtain ⟨hEmpty, order, hFound, hAll, hT⟩ := visitRoots_traced hRoutes pre
    (fun n hn => ⟨hPre n hn, List.mem_map_of_mem hn⟩) (startTraced nodes (pre.map (·.id))) rfl
  rw [List.append_nil] at hAll hT
  set d := visitRoots nodes pre ⟨[], [], []⟩
  have hT' : d.Traced nodes (nodes.map (·.id)) order := hT.mono fun x hx => by
    obtain ⟨n, hn, rfl⟩ := List.mem_map.mp hx
    exact List.mem_map_of_mem (hPre n hn)
  have hFinal : detectBackEdges nodes = (visitRoots nodes (node :: post) d).backEdges := by
    have hFold : visitRoots nodes (pre ++ node :: post) ⟨[], [], []⟩ =
        visitRoots nodes (node :: post) d := List.foldl_append
    rw [detectBackEdges_eq, ← hFold, ← hSplit]
  rw [hFinal]
  by_cases hOld : node.id ∈ d.visited
  · -- the node was found from an earlier one, along an edge that is not a back edge
    have hMem : node.id ∈ order := (hT.left node.id).mpr ⟨hOld, by simp [hEmpty]⟩
    obtain ⟨hEmpty', found, _, _, hEnd⟩ := visitRoots_traced hRoutes (node :: post)
      (fun n hn => (List.mem_cons.mp hn).elim (fun h => h ▸ ⟨hNode, List.mem_map_of_mem hNode⟩)
        (hPost n)) hT' hEmpty
    have hFresh : node.id ∉ pre.map (·.id) := fun h => by
      rw [hSplit, List.map_append, List.map_cons, List.nodup_append] at hNodup
      exact hNodup.2.2 _ h _ List.mem_cons_self rfl
    refine iff_of_false (fun hBack => ?_) fun h => ?_
    · rcases hT.entered node.id (by simpa [Dfs.line, hEmpty] using hMem) with hRoot | hFrom
      · exact hFresh hRoot
      · obtain ⟨source, hRoute, hBefore⟩ := hFrom
        rw [show d.line order = order by simp [Dfs.line, hEmpty]] at hBefore
        exact hEnd.not_back hEmpty' (hBefore.trans (List.sublist_append_right _ _))
          (hBack source hRoute)
    · obtain ⟨earlier, hEarlier, hReach⟩ := hFound node.id hMem
      exact h.2 earlier hEarlier hReach
  · obtain ⟨hE, found, _, hRoot⟩ :=
      visitRoot_traced hRoutes hNode (List.mem_map_of_mem hNode) hT' hEmpty hOld
    have hEmpty1 := hE.inStack.trans hEmpty
    obtain ⟨hEmpty', found', _, _, hEnd⟩ := visitRoots_traced hRoutes post hPost hRoot hEmpty1
    have hStep : visitRoots nodes (node :: post) d =
        visitRoots nodes post (dfsBackEdges nodes (nodes.length + 1) node.id d) := by
      rw [visitRoots, List.foldl_cons, if_pos hOld]
      rfl
    rw [hStep]
    constructor
    · refine fun hBack => ⟨fun source hRoute => (hEnd.closing _ (hBack source hRoute)).2.1,
        fun earlier hEarlier hReach => hOld ?_⟩
      exact ((hT.left node.id).mp (hT.closed hEmpty (hAll earlier hEarlier) hReach)).1
    · intro hReach source hRoute
      have hSource : source ∈ node.id :: found ++ order :=
        hRoot.closed hEmpty1 List.mem_cons_self (hReach.1 source hRoute)
      refine hEnd.back hRoute (List.mem_append_right _ hSource) ?_
      refine (List.mem_cons.mp hSource).imp_right fun hAfter => ?_
      exact ((List.singleton_sublist.mpr hAfter).cons_cons node.id).trans
        (List.sublist_append_right _ _)

/-- The port is routed to the target. -/
def RouteEdge (nodes : List FlowNode) (edge : PortRef) (target : String) : Prop :=
  ∃ node ∈ nodes, ∃ output ∈ node.outputs,
    output.routesTo = some target ∧ edge = (node.id, output.port)

/-- Each edge has one class, the required edges form no cycle, each cycle input closes one, and the
entry nodes are those without a required edge, which get the initial brief instead. -/
structure Classified (flow : FlowDefinition) : Prop where
  one_class : ∀ edge target, RouteEdge flow.nodes edge target →
    (edge ∈ flow.graph.requiredInputsFor target ↔ edge ∉ flow.graph.cycleInputsFor target)
  acyclic : Acyclic fun source target => ∃ port, RouteEdge flow.nodes (source, port) target ∧
    (source, port) ∈ flow.graph.requiredInputsFor target
  closing : ∀ node ∈ flow.nodes, ∀ edge ∈ flow.graph.cycleInputsFor node.id,
    RouteEdge flow.nodes edge node.id ∧ Reaches flow.nodes node.id edge.1
  no_cycles : Acyclic (Routes flow.nodes) →
    ∀ node ∈ flow.nodes, flow.graph.cycleInputsFor node.id = []
  entry : ∀ id, id ∈ flow.graph.entryNodes ↔ (∃ node ∈ flow.nodes, node.id = id) ∧
    ∀ edge, RouteEdge flow.nodes edge id → edge ∉ flow.graph.requiredInputsFor id
  brief : ∀ id ∈ flow.graph.entryNodes,
    flow.graph.requiredInputsFor id = [("__chat__", "initial-brief")]

/-- A node with an edge that looks like the brief is no entry node. -/
def BriefApart (nodes : List FlowNode) : Prop :=
  ∀ pre node post, nodes = pre ++ node :: post →
    RouteEdge nodes ("__chat__", "initial-brief") node.id →
    (∃ source, Routes nodes source node.id ∧ ¬ Reaches nodes node.id source) ∨
      ∃ earlier ∈ pre, Reaches nodes earlier.id node.id

variable {flow : FlowDefinition} {n : FlowNode}

theorem routes_iff {source target : String} :
    Routes flow.nodes source target ↔ ∃ port, RouteEdge flow.nodes (source, port) target := by
  constructor
  · intro h
    obtain ⟨node, hNode, rfl⟩ := h.declared
    unfold Routes at h
    rw [FlowDefinition.outgoing_of_mem hNode] at h
    obtain ⟨output, hOutput, hRoute⟩ := List.mem_filterMap.mp h
    exact ⟨output.port, node, hNode, output, hOutput, hRoute, rfl⟩
  · rintro ⟨port, node, hNode, output, hOutput, hRoute, hEdge⟩
    obtain ⟨rfl, _⟩ := Prod.ext_iff.mp hEdge
    unfold Routes
    rw [FlowDefinition.outgoing_of_mem hNode]
    exact List.mem_filterMap.mpr ⟨output, hOutput, hRoute⟩

theorem RouteEdge.routes {edge : PortRef} {target : String} (h : RouteEdge flow.nodes edge target) :
    Routes flow.nodes edge.1 target :=
  routes_iff.mpr ⟨edge.2, h⟩

theorem RouteEdge.target_mem {edge : PortRef} {target : String}
    (h : RouteEdge flow.nodes edge target) : ∃ node ∈ flow.nodes, node.id = target := by
  simpa using FlowDefinition.outgoing_declared _ _ h.routes

theorem mem_requiredInputs (hReads : ∀ n ∈ flow.nodes, n.reads = []) (hn : n ∈ flow.nodes)
    {edge : PortRef} (hEdge : RouteEdge flow.nodes edge n.id) :
    edge ∈ flow.graph.requiredInputsFor n.id ↔ (edge.1, n.id) ∉ detectBackEdges flow.nodes ∨
      n.id ∈ flow.graph.entryNodes ∧ edge = ("__chat__", "initial-brief") := by
  rw [flow.graph_built.required n hn, List.mem_append, mem_baseInputs, mem_entryNodes hn,
    hReads n hn]
  have hIncoming : edge ∈ FlowGraph.incoming flow.nodes n.id := mem_incoming.mpr hEdge
  refine or_congr (by simp [hIncoming]) ?_
  by_cases hEmpty : FlowGraph.baseInputs flow.nodes n = []
  · simp [hEmpty]
  · simp [hEmpty]

theorem entry_iff_back (hReads : ∀ n ∈ flow.nodes, n.reads = []) (hn : n ∈ flow.nodes) :
    n.id ∈ flow.graph.entryNodes ↔ ∀ source, Routes flow.nodes source n.id →
      (source, n.id) ∈ detectBackEdges flow.nodes := by
  rw [mem_entryNodes hn, List.eq_nil_iff_forall_not_mem]
  simp only [mem_baseInputs, hReads n hn, mem_incoming, true_and, List.not_mem_nil, false_and,
    exists_false, or_false, not_and, not_not]
  constructor
  · intro h source hRoute
    obtain ⟨port, hEdge⟩ := routes_iff.mp hRoute
    exact h (source, port) hEdge
  · exact fun h edge hEdge => h edge.1 (RouteEdge.routes hEdge)

theorem briefApart_iff (hReads : ∀ n ∈ flow.nodes, n.reads = []) : BriefApart flow.nodes ↔
    ∀ n ∈ flow.nodes, RouteEdge flow.nodes ("__chat__", "initial-brief") n.id →
      n.id ∉ flow.graph.entryNodes := by
  have hTurn : ∀ pre node post, flow.nodes = pre ++ node :: post →
      (node.id ∈ flow.graph.entryNodes ↔
        (∀ source, Routes flow.nodes source node.id → Reaches flow.nodes node.id source) ∧
          ∀ earlier ∈ pre, ¬ Reaches flow.nodes earlier.id node.id) := by
    intro pre node post hSplit
    have hNode : node ∈ flow.nodes := hSplit ▸ List.mem_append_right _ List.mem_cons_self
    rw [entry_iff_back hReads hNode]
    exact allBack_iff FlowDefinition.outgoing_declared flow.graph_built.nodup hSplit
  constructor
  · intro h n hn hBrief hEntry
    obtain ⟨pre, post, hSplit⟩ := List.append_of_mem hn
    obtain ⟨hReach, hFirst⟩ := (hTurn pre n post hSplit).mp hEntry
    rcases h pre n post hSplit hBrief with ⟨source, hRoute, hFar⟩ | ⟨earlier, hEarlier, hFrom⟩
    · exact hFar (hReach source hRoute)
    · exact hFirst earlier hEarlier hFrom
  · intro h pre node post hSplit hBrief
    have hNode : node ∈ flow.nodes := hSplit ▸ List.mem_append_right _ List.mem_cons_self
    have hLater := h node hNode hBrief
    rw [hTurn pre node post hSplit, not_and_or] at hLater
    push Not at hLater
    exact hLater

theorem lookup_cycle {nodes : List FlowNode} (hNodup : (nodes.map (·.id)).Nodup)
    (keys : AList fun _ : String => PortRef) (back : List (String × String)) {node : FlowNode}
    (hNode : node ∈ nodes) (hReads : ∀ n ∈ nodes, n.reads = []) :
    (FlowGraph.overrideReads nodes keys (FlowGraph.classify nodes back)).2.lookup node.id =
      some ((FlowGraph.incoming nodes node.id).filter fun edge => (edge.1, node.id) ∈ back) := by
  have hOverride : FlowGraph.overrideReads nodes keys (FlowGraph.classify nodes back) =
      FlowGraph.classify nodes back := by
    unfold FlowGraph.overrideReads
    refine List.foldlRecOn (motive := fun maps => maps = FlowGraph.classify nodes back) _ _ rfl
      fun maps hMaps n hn => ?_
    have hEmpty : n.reads.isEmpty = true := by rw [hReads n hn]; rfl
    dsimp only
    rw [if_pos hEmpty, hMaps]
  have hClassify : (FlowGraph.classify nodes back).2 = nodes.foldl (fun m n =>
      m.insert n.id ((FlowGraph.incoming nodes n.id).filter fun edge => (edge.1, n.id) ∈ back)) ∅ :=
    (List.foldl_hom Prod.snd (fun _ _ => rfl)).symm
  have hStep : ∀ (m : AList fun _ : String => List PortRef) (n : FlowNode) (k : String), k ≠ n.id →
      (m.insert n.id ((FlowGraph.incoming nodes n.id).filter fun edge =>
        (edge.1, n.id) ∈ back)).lookup k = m.lookup k :=
    fun m n k hk => AList.lookup_insert_ne hk
  obtain ⟨_, _, hLookup⟩ := lookup_foldl_of_mem FlowNode.id hStep hNodup hNode ∅
  rw [hOverride, hClassify, hLookup, AList.lookup_insert]

theorem mem_cycleInputs (hReads : ∀ n ∈ flow.nodes, n.reads = []) (hn : n ∈ flow.nodes)
    {edge : PortRef} : edge ∈ flow.graph.cycleInputsFor n.id ↔
      RouteEdge flow.nodes edge n.id ∧ (edge.1, n.id) ∈ detectBackEdges flow.nodes := by
  obtain ⟨path, g, hBuild, hSame⟩ := flow.built
  have hMaps : g.cycleInputs = (FlowGraph.overrideReads flow.nodes
      (FlowGraph.keyToProducer flow.nodes)
      (FlowGraph.classify flow.nodes (detectBackEdges flow.nodes))).2 := by
    unfold FlowGraph.build at hBuild
    obtain ⟨_, _, hBuild⟩ := except_bind_ok.mp hBuild
    obtain ⟨_, _, hBuild⟩ := except_bind_ok.mp hBuild
    obtain ⟨_, _, hBuild⟩ := except_bind_ok.mp hBuild
    cases hBuild
    rfl
  unfold FlowGraph.cycleInputsFor
  rw [← AList.perm_lookup hSame.cycle, hMaps, lookup_cycle flow.graph_built.nodup _ _ hn hReads,
    Option.getD_some, List.mem_filter, mem_incoming, decide_eq_true_eq]
  rfl

/-- The edges are classified as documented if and only if no entry node takes the initial brief of a
declared node `__chat__`. -/
theorem classified_iff (flow : FlowDefinition) (hReads : ∀ n ∈ flow.nodes, n.reads = []) :
    Classified flow ↔ BriefApart flow.nodes := by
  rw [briefApart_iff hReads]
  constructor
  · intro h n hn hBrief hEntry
    -- the injected pair is a required edge of the entry node
    refine ((h.entry n.id).mp hEntry).2 _ hBrief ?_
    rw [h.brief n.id hEntry]
    exact List.mem_singleton_self _
  · intro h
    have hRequired : ∀ {edge : PortRef} {target : String}, RouteEdge flow.nodes edge target →
        (edge ∈ flow.graph.requiredInputsFor target ↔
          (edge.1, target) ∉ detectBackEdges flow.nodes) := by
      intro edge target hEdge
      obtain ⟨n, hn, rfl⟩ := hEdge.target_mem
      rw [mem_requiredInputs hReads hn hEdge, or_iff_left]
      rintro ⟨hEntry, rfl⟩
      exact h n hn hEdge hEntry
    refine ⟨fun edge target hEdge => ?_, ?_, fun n hn edge hEdge => ?_, fun hAcyclic n hn => ?_,
      fun id => ?_, fun id hEntry => ?_⟩
    · have hEdge' := hEdge
      obtain ⟨n, hn, rfl⟩ := hEdge.target_mem
      rw [hRequired hEdge', mem_cycleInputs hReads hn, and_iff_right hEdge']
    · refine (forwardEdges_acyclic FlowDefinition.outgoing_declared).mono
        fun source target ⟨port, hEdge, hMem⟩ => ⟨hEdge.routes, (hRequired hEdge).mp hMem⟩
    · obtain ⟨hRoute, hBack⟩ := (mem_cycleInputs hReads hn).mp hEdge
      exact ⟨hRoute, (backEdge_closes FlowDefinition.outgoing_declared hBack).2⟩
    · refine List.eq_nil_iff_forall_not_mem.mpr fun edge hEdge => ?_
      obtain ⟨hRoute, hBack⟩ := (mem_cycleInputs hReads hn).mp hEdge
      refine hAcyclic edge.1 (TransGen.head' hRoute.routes ?_)
      exact (backEdge_closes FlowDefinition.outgoing_declared hBack).2
    · constructor
      · intro hEntry
        have hEntry' := hEntry
        rw [flow.graph_built.entry] at hEntry'
        obtain ⟨n, hn, rfl⟩ := List.mem_map.mp hEntry'
        have hn := (List.mem_filter.mp hn).1
        refine ⟨⟨n, hn, rfl⟩, fun edge hEdge hMem => (hRequired hEdge).mp hMem ?_⟩
        exact (entry_iff_back hReads hn).mp hEntry edge.1 hEdge.routes
      · rintro ⟨⟨n, hn, rfl⟩, hNone⟩
        refine (entry_iff_back hReads hn).mpr fun source hRoute => ?_
        obtain ⟨port, hEdge⟩ := routes_iff.mp hRoute
        exact not_not.mp fun hForward => hNone _ hEdge ((hRequired hEdge).mpr hForward)
    · have hEntry' := hEntry
      rw [flow.graph_built.entry] at hEntry'
      obtain ⟨n, hn, rfl⟩ := List.mem_map.mp hEntry'
      have hn := (List.mem_filter.mp hn).1
      rw [flow.graph_built.required n hn, (mem_entryNodes hn).mp hEntry]
      rfl

/-- Two nodes that send documents to each other. -/
theorem backAndForth_classified : Classified backAndForth ↔ BriefApart backAndForth.nodes :=
  classified_iff backAndForth (by decide)

def chatLoop : FlowDefinition := .ofNodes "chat-loop" []
  [{ id := "__chat__", owner := "pm",
     outputs := [{ port := "initial-brief", routesTo := some "__chat__" }] }]
  "flow.yaml" (by decide)

/-- The edge is a required input and a cycle input of the node. -/
theorem chatLoop_required_and_cycle : ¬ Classified chatLoop := by
  intro h
  have hEdge : RouteEdge chatLoop.nodes ("__chat__", "initial-brief") "__chat__" :=
    mem_incoming.mp (by decide)
  exact (h.one_class _ _ hEdge).mp (by decide) (by decide)

end Cronymax.Flow
