import Cronymax.Flow.BackEdges

/-! What `FlowGraph.build` checks, and the required inputs of each node in the graph that it
builds. -/

namespace Cronymax.Flow

open Precedence

section Fold

variable {β γ : Type} (key : β → String)
  {step : (AList fun _ : String => γ) → β → AList fun _ : String => γ}

theorem lookup_foldl_of_ne (hStep : ∀ m b k, k ≠ key b → (step m b).lookup k = m.lookup k)
    (bs : List β) (m : AList fun _ : String => γ) {k : String} (hk : k ∉ bs.map key) :
    (bs.foldl step m).lookup k = m.lookup k := by
  induction bs generalizing m with
  | nil => rfl
  | cons b rest ih =>
    rw [List.map_cons, List.mem_cons, not_or] at hk
    rw [List.foldl_cons, ih _ hk.2, hStep m b k hk.1]

theorem lookup_foldl_of_mem (hStep : ∀ m b k, k ≠ key b → (step m b).lookup k = m.lookup k)
    {bs : List β} (hNodup : (bs.map key).Nodup) {b : β} (hb : b ∈ bs)
    (m : AList fun _ : String => γ) :
    ∃ m', m'.lookup (key b) = m.lookup (key b) ∧
      (bs.foldl step m).lookup (key b) = (step m' b).lookup (key b) := by
  obtain ⟨pre, post, rfl⟩ := List.append_of_mem hb
  rw [List.map_append, List.map_cons] at hNodup
  obtain ⟨hPre, hPost⟩ : key b ∉ pre.map key ∧ key b ∉ post.map key := by
    rw [List.nodup_append] at hNodup
    exact ⟨fun h => hNodup.2.2 _ h _ List.mem_cons_self rfl, (List.nodup_cons.mp hNodup.2.1).1⟩
  refine ⟨pre.foldl step m, lookup_foldl_of_ne key hStep pre m hPre, ?_⟩
  rw [List.foldl_append, List.foldl_cons, lookup_foldl_of_ne key hStep post _ hPost]

end Fold

theorem except_bind_ok {ε α β : Type} {x : Except ε α} {f : α → Except ε β} {b : β} :
    x >>= f = .ok b ↔ ∃ a, x = .ok a ∧ f a = .ok b := by
  cases x with
  | error e => exact ⟨nofun, nofun⟩
  | ok a => exact ⟨fun h => ⟨a, rfl, h⟩, fun ⟨_, h, h'⟩ => by cases h; exact h'⟩

theorem forM_ok {ε α : Type} {f : α → Except ε Unit} {l : List α} :
    l.forM f = .ok () ↔ ∀ a ∈ l, f a = .ok () := by
  induction l with
  | nil => exact ⟨fun _ => nofun, fun _ => rfl⟩
  | cons a rest ih =>
    show (f a >>= fun _ => rest.forM f) = .ok () ↔ _
    rw [except_bind_ok, List.forall_mem_cons, ← ih]
    exact ⟨fun ⟨_, h, h'⟩ => ⟨h, h'⟩, fun ⟨h, h'⟩ => ⟨(), h, h'⟩⟩

namespace FlowGraph

variable {path : String} {nodes : List FlowNode} {agentIds : List String}

theorem checkDuplicateIds_ok {seen : List String} (h : checkDuplicateIds path seen nodes = .ok ()) :
    (nodes.map (·.id)).Nodup ∧ ∀ node ∈ nodes, node.id ∉ seen := by
  induction nodes generalizing seen with
  | nil => exact ⟨.nil, nofun⟩
  | cons node rest ih =>
    rw [checkDuplicateIds] at h
    split at h
    · cases h
    · rename_i hNew
      obtain ⟨hNodup, hSeen⟩ := ih h
      refine ⟨List.nodup_cons.mpr ⟨fun hMem => ?_, hNodup⟩, fun n hn => ?_⟩
      · obtain ⟨n, hn, hId⟩ := List.mem_map.mp hMem
        exact hSeen n hn (hId ▸ List.mem_cons_self)
      · rcases List.mem_cons.mp hn with rfl | hn
        · exact hNew
        · exact fun hMem => hSeen n hn (List.mem_cons_of_mem _ hMem)

theorem checkOutputs_ok (h : checkOutputs path nodes agentIds = .ok ()) :
    ∀ node ∈ nodes, ∀ output ∈ node.outputs, ∀ target, output.routesTo = some target →
      target ∈ nodes.map (·.id) := by
  intro node hNode output hOutput target hTarget
  have hOutputs := forM_ok.mp (forM_ok.mp h node hNode) output hOutput
  obtain ⟨_, hRoute, _⟩ := except_bind_ok.mp hOutputs
  rw [checkRoute, hTarget] at hRoute
  by_contra hUnknown
  simp [hUnknown, throw, throwThe, MonadExceptOf.throw] at hRoute

theorem checkReads_ok {keys : AList fun _ : String => PortRef} (h : checkReads keys nodes = .ok ()) :
    ∀ node ∈ nodes, ∀ key ∈ node.reads, ∃ producer, keys.lookup key = some producer := by
  intro node hNode key hKey
  have hRead := forM_ok.mp (forM_ok.mp h node hNode) key hKey
  cases hLookup : keys.lookup key with
  | some producer => exact ⟨producer, rfl⟩
  | none => simp [hLookup, throw, throwThe, MonadExceptOf.throw] at hRead

theorem lookup_required (hNodup : (nodes.map (·.id)).Nodup) {node : FlowNode} (hNode : node ∈ nodes) :
    (overrideReads nodes (keyToProducer nodes)
      (classify nodes (detectBackEdges nodes))).1.lookup node.id = some (baseInputs nodes node) := by
  have hClassify : (classify nodes (detectBackEdges nodes)).1 = nodes.foldl (fun m n =>
      m.insert n.id ((incoming nodes n.id).filter fun edge =>
        (edge.1, n.id) ∉ detectBackEdges nodes)) ∅ :=
    (List.foldl_hom Prod.fst (fun _ _ => rfl)).symm
  have hOverride : (overrideReads nodes (keyToProducer nodes)
      (classify nodes (detectBackEdges nodes))).1 = nodes.foldl (fun m n =>
        if n.reads.isEmpty then m
        else m.insert n.id (n.reads.filterMap (keyToProducer nodes).lookup))
        (classify nodes (detectBackEdges nodes)).1 :=
    (List.foldl_hom Prod.fst (fun m n => by cases m; dsimp only; split <;> rfl)).symm
  have hClassifyStep : ∀ (m : AList fun _ : String => List PortRef) (n : FlowNode) (k : String),
      k ≠ n.id → (m.insert n.id ((incoming nodes n.id).filter fun edge =>
        (edge.1, n.id) ∉ detectBackEdges nodes)).lookup k = m.lookup k :=
    fun m n k hk => AList.lookup_insert_ne hk
  have hOverrideStep : ∀ (m : AList fun _ : String => List PortRef) (n : FlowNode) (k : String),
      k ≠ n.id → (if n.reads.isEmpty then m
        else m.insert n.id (n.reads.filterMap (keyToProducer nodes).lookup)).lookup k =
          m.lookup k := by
    intro m n k hk
    split
    · rfl
    · exact AList.lookup_insert_ne hk
  obtain ⟨_, _, hClassified⟩ := lookup_foldl_of_mem FlowNode.id hClassifyStep hNodup hNode ∅
  rw [AList.lookup_insert, ← hClassify] at hClassified
  obtain ⟨m, hm, hOverridden⟩ := lookup_foldl_of_mem FlowNode.id hOverrideStep hNodup hNode
    (classify nodes (detectBackEdges nodes)).1
  rw [hOverride, hOverridden, baseInputs]
  split
  · rw [hm, hClassified]
  · exact AList.lookup_insert _

theorem lookup_injectChat {entries : List String} (hNodup : entries.Nodup)
    (required : AList fun _ : String => List PortRef) (id : String) :
    ((injectChat entries required).lookup id).getD [] =
      (required.lookup id).getD [] ++ if id ∈ entries then [("__chat__", "initial-brief")] else [] := by
  have hStep : ∀ (m : AList fun _ : String => List PortRef) (entry k : String), k ≠ entry →
      (m.insert entry ((m.lookup entry).getD [] ++ [("__chat__", "initial-brief")])).lookup k =
        m.lookup k := fun m entry k hk => AList.lookup_insert_ne hk
  unfold injectChat
  by_cases hMem : id ∈ entries
  · obtain ⟨m, hm, hLookup⟩ := lookup_foldl_of_mem (fun e : String => e) hStep
      (by simpa using hNodup) hMem required
    rw [hLookup, AList.lookup_insert, hm]
    simp [hMem]
  · rw [lookup_foldl_of_ne (fun e : String => e) hStep entries required (by simpa using hMem)]
    simp [hMem]

/-- What a graph that was built says of its nodes. -/
structure Built (nodes : List FlowNode) (g : FlowGraph) : Prop where
  nodup : (nodes.map (·.id)).Nodup
  routes : ∀ node ∈ nodes, ∀ output ∈ node.outputs, ∀ target, output.routesTo = some target →
    target ∈ nodes.map (·.id)
  reads : ∀ node ∈ nodes, ∀ key ∈ node.reads,
    ∃ producer, (keyToProducer nodes).lookup key = some producer
  entry : g.entryNodes = (nodes.filter fun node => (baseInputs nodes node).isEmpty).map (·.id)
  required : ∀ node ∈ nodes, g.requiredInputsFor node.id =
    baseInputs nodes node ++
      if (baseInputs nodes node).isEmpty then [("__chat__", "initial-brief")] else []

theorem build_ok {g : FlowGraph} (h : build nodes agentIds path = .ok g) : Built nodes g := by
  unfold build at h
  obtain ⟨_, hDuplicates, h⟩ := except_bind_ok.mp h
  obtain ⟨_, hOutputs, h⟩ := except_bind_ok.mp h
  obtain ⟨_, hReads, h⟩ := except_bind_ok.mp h
  have hNodup := (checkDuplicateIds_ok hDuplicates).1
  have hEntry : (nodes.filter fun node => (((overrideReads nodes (keyToProducer nodes)
      (classify nodes (detectBackEdges nodes))).1.lookup node.id).getD []).isEmpty).map (·.id) =
      (nodes.filter fun node => (baseInputs nodes node).isEmpty).map (·.id) := by
    congr 1
    refine List.filter_congr fun node hNode => ?_
    rw [lookup_required hNodup hNode, Option.getD_some]
  simp only [pure, Except.pure, Except.ok.injEq] at h
  subst h
  refine ⟨hNodup, checkOutputs_ok hOutputs, checkReads_ok hReads, hEntry, fun node hNode => ?_⟩
  have hSublist : ((nodes.filter fun n => (baseInputs nodes n).isEmpty).map (·.id)).Nodup :=
    (List.filter_sublist.map _).nodup hNodup
  simp only [requiredInputsFor, hEntry]
  rw [lookup_injectChat hSublist, lookup_required hNodup hNode, Option.getD_some]
  congr 2
  -- with distinct identifiers, the node itself is the entry node of that name
  simp only [List.mem_map, List.mem_filter, eq_iff_iff]
  constructor
  · rintro ⟨n, ⟨hn, hEmpty⟩, hId⟩
    rwa [List.inj_on_of_nodup_map hNodup hn hNode hId] at hEmpty
  · exact fun hEmpty => ⟨node, ⟨hNode, hEmpty⟩, rfl⟩

theorem Built.sameMaps {g g' : FlowGraph} (h : Built nodes g) (hSame : g.SameMaps g') :
    Built nodes g' where
  nodup := h.nodup
  routes := h.routes
  reads := h.reads
  entry := hSame.entry ▸ h.entry
  required := fun node hNode => by
    rw [← h.required node hNode]
    unfold requiredInputsFor
    rw [AList.perm_lookup hSame.required]

end FlowGraph

namespace FlowDefinition

variable (flow : FlowDefinition)

theorem graph_built : flow.graph.Built flow.nodes := by
  obtain ⟨_, g, hBuild, hSame⟩ := flow.built
  exact (FlowGraph.build_ok hBuild).sameMaps hSame

variable {flow}

theorem node_of_mem {n : FlowNode} (h : n ∈ flow.nodes) : flow.node n.id = some n := by
  unfold node
  cases hFind : flow.nodes.find? (·.id == n.id) with
  | none => exact absurd (List.find?_eq_none.mp hFind n h) (by simp)
  | some m =>
    have hId : m.id = n.id := by simpa using List.find?_some hFind
    rw [List.inj_on_of_nodup_map flow.graph_built.nodup (List.mem_of_find?_eq_some hFind) h hId]

theorem outgoing_of_mem {n : FlowNode} (h : n ∈ flow.nodes) :
    outgoing flow.nodes n.id = n.outputs.filterMap (·.routesTo) := by
  have hNode := node_of_mem h
  unfold node at hNode
  rw [outgoing, hNode]

theorem outgoing_declared (id target : String) (h : target ∈ outgoing flow.nodes id) :
    target ∈ flow.nodes.map (·.id) := by
  unfold outgoing at h
  split at h
  · rename_i n hFind
    obtain ⟨output, hOutput, hRoute⟩ := List.mem_filterMap.mp h
    exact flow.graph_built.routes n (List.mem_of_find?_eq_some hFind) output hOutput target hRoute
  · cases h

end FlowDefinition

theorem mem_incoming {nodes : List FlowNode} {target : String} {input : PortRef} :
    input ∈ FlowGraph.incoming nodes target ↔ ∃ node ∈ nodes, ∃ output ∈ node.outputs,
      output.routesTo = some target ∧ input = (node.id, output.port) := by
  simp only [FlowGraph.incoming, List.mem_flatMap, List.mem_map, List.mem_filter, beq_iff_eq]
  constructor
  · rintro ⟨node, hNode, output, ⟨hOutput, hRoute⟩, rfl⟩
    exact ⟨node, hNode, output, hOutput, hRoute, rfl⟩
  · rintro ⟨node, hNode, output, hOutput, hRoute, rfl⟩
    exact ⟨node, hNode, output, ⟨hOutput, hRoute⟩, rfl⟩

theorem keyToProducer_declared {nodes : List FlowNode} {key : String} {input : PortRef}
    (h : (FlowGraph.keyToProducer nodes).lookup key = some input) :
    ∃ node ∈ nodes, ∃ output ∈ node.outputs,
      output.blackboardKey = some key ∧ input = (node.id, output.port) := by
  -- each insertion of the two loops keeps the fact
  let Holds (m : AList fun _ : String => PortRef) : Prop := ∀ k i, m.lookup k = some i →
    ∃ node ∈ nodes, ∃ output ∈ node.outputs, output.blackboardKey = some k ∧
      i = (node.id, output.port)
  have hAll : Holds (FlowGraph.keyToProducer nodes) := by
    unfold FlowGraph.keyToProducer
    refine List.foldlRecOn (motive := Holds) _ _ (fun k i hi => by simp at hi)
      fun keys hKeys node hNode => ?_
    refine List.foldlRecOn (motive := Holds) _ _ hKeys fun keys hKeys output hOutput => ?_
    split
    · rename_i k hKey
      intro k' i hi
      by_cases hk : k' = k
      · subst k'
        rw [AList.lookup_insert, Option.some.injEq] at hi
        exact ⟨node, hNode, output, hOutput, hKey, hi.symm⟩
      · rw [AList.lookup_insert_ne hk] at hi
        exact hKeys k' i hi
    · exact hKeys
  exact hAll key input h

end Cronymax.Flow
