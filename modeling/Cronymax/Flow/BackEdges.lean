import Cronymax.Flow.Definition
import Cronymax.Precedence.Acyclic

/-! The search for back edges.  The nodes that the search has left, the last one first, are a list
whose edges lead to later members, save for those recorded as back edges: so the other edges of
`routes_to` form no cycle.  A back edge leads to an earlier member, from which its source is
reached. -/

namespace Cronymax.Flow

open Precedence Relation

variable {nodes : List FlowNode} {d d' : Dfs} {order : List String}

/-- An edge of `routes_to` that is not among the back edges. -/
def ForwardEdge (nodes : List FlowNode) (backEdges : List (String × String))
    (source target : String) : Prop :=
  target ∈ outgoing nodes source ∧ (source, target) ∉ backEdges

/-- The nodes that the search has still to visit. -/
def Dfs.unvisited (nodes : List FlowNode) (d : Dfs) : List String :=
  (nodes.map (·.id)).filter (· ∉ d.visited)

/-- The state of the search between two visits.  `order` lists the nodes that it has left. -/
structure Dfs.Searched (nodes : List FlowNode) (d : Dfs) (order : List String) : Prop where
  stack : ∀ x ∈ d.inStack, x ∈ d.visited
  left : ∀ x, x ∈ order ↔ x ∈ d.visited ∧ x ∉ d.inStack
  nodup : order.Nodup
  ordered : Ordered (ForwardEdge nodes d.backEdges) order

/-- What the search keeps while it visits: the stack, and all that it has found. -/
structure Dfs.Extends (d d' : Dfs) : Prop where
  inStack : d'.inStack = d.inStack
  visited : ∀ x ∈ d.visited, x ∈ d'.visited
  backEdges : ∀ e ∈ d.backEdges, e ∈ d'.backEdges

theorem Dfs.Extends.refl (d : Dfs) : d.Extends d := ⟨rfl, fun _ h => h, fun _ h => h⟩

theorem Dfs.Extends.trans {d'' : Dfs} (h : d.Extends d') (h' : d'.Extends d'') : d.Extends d'' :=
  ⟨h'.inStack.trans h.inStack, fun x hx => h'.visited x (h.visited x hx),
    fun e he => h'.backEdges e (h.backEdges e he)⟩

theorem Dfs.Extends.unvisited_le (h : d.Extends d') :
    (d'.unvisited nodes).length ≤ (d.unvisited nodes).length := by
  unfold Dfs.unvisited
  rw [← List.countP_eq_length_filter, ← List.countP_eq_length_filter]
  refine List.countP_mono_left fun x _ hx => ?_
  simp only [decide_eq_true_eq] at hx ⊢
  exact fun hx' => hx (h.visited x hx')

/-- An edge of `routes_to`. -/
def Routes (nodes : List FlowNode) (source target : String) : Prop := target ∈ outgoing nodes source

/-- There is a path of routes. -/
def Reaches (nodes : List FlowNode) : String → String → Prop := ReflTransGen (Routes nodes)

/-- The nodes on the stack, from the root on, and then those finished. -/
@[grind =] def Dfs.line (d : Dfs) (order : List String) : List String := d.inStack.reverse ++ order

/-- How the search came to its nodes and its back edges.  It entered each node, save for `roots`,
along an edge from a node before it. -/
structure Dfs.Traced (nodes : List FlowNode) (roots : List String) (d : Dfs) (order : List String) :
    Prop extends d.Searched nodes order where
  closing : ∀ e ∈ d.backEdges, Routes nodes e.1 e.2 ∧ Reaches nodes e.2 e.1 ∧
    (e.2 = e.1 ∨ [e.2, e.1].Sublist (d.line order))
  entered : ∀ x ∈ d.line order,
    x ∈ roots ∨ ∃ source, Routes nodes source x ∧ [source, x].Sublist (d.line order)

variable {roots : List String}

theorem pair_sublist_append {α : Type} {a b : α} {l m : List α} (ha : a ∈ l) (hb : b ∈ m) :
    [a, b].Sublist (l ++ m) :=
  (List.singleton_sublist.mpr ha).append (List.singleton_sublist.mpr hb)

theorem Dfs.Traced.mono {roots' : List String} (hT : d.Traced nodes roots order)
    (hSub : ∀ x ∈ roots, x ∈ roots') : d.Traced nodes roots' order :=
  ⟨hT.toSearched, hT.closing, fun x hx => (hT.entered x hx).imp_left (hSub x)⟩

theorem Dfs.Traced.record {cur target : String} {stack : List String}
    (hT : d.Traced nodes roots order) (hStack : d.inStack = cur :: stack)
    (hRoute : Routes nodes cur target) (hOn : target ∈ d.inStack) (hReach : Reaches nodes target cur) :
    ({ d with backEdges := (cur, target) :: d.backEdges } : Dfs).Traced nodes roots order where
  stack := hT.stack
  left := hT.left
  nodup := hT.nodup
  ordered := hT.ordered.mono fun _ _ h => ⟨h.1, fun hBack => h.2 (List.mem_cons_of_mem _ hBack)⟩
  entered := hT.entered
  closing := by
    intro e he
    rcases List.mem_cons.mp he with rfl | he
    · refine ⟨hRoute, hReach, ?_⟩
      rw [hStack] at hOn
      refine (List.mem_cons.mp hOn).imp_right fun hBelow => ?_
      have hLine : ({ d with backEdges := (cur, target) :: d.backEdges } : Dfs).line order =
          stack.reverse ++ (cur :: order) := by
        simp [Dfs.line, hStack]
      rw [hLine]
      exact pair_sublist_append (List.mem_reverse.mpr hBelow) List.mem_cons_self
    · exact hT.closing e he

theorem Dfs.Traced.enter {cur : String} (hT : d.Traced nodes roots order) (hNew : cur ∉ d.visited)
    (hFrom : cur ∈ roots ∨ ∃ source ∈ d.inStack, Routes nodes source cur) :
    (⟨cur :: d.visited, cur :: d.inStack, d.backEdges⟩ : Dfs).Traced nodes roots order := by
  have hLine : (⟨cur :: d.visited, cur :: d.inStack, d.backEdges⟩ : Dfs).line order =
      d.inStack.reverse ++ (cur :: order) := by
    simp [Dfs.line]
  have hGrows : (d.line order).Sublist (d.inStack.reverse ++ (cur :: order)) :=
    (List.sublist_cons_self cur order).append_left _
  refine ⟨⟨fun x hx => ?_, fun x => ?_, hT.nodup, hT.ordered⟩, fun e he => ?_, fun x hx => ?_⟩
  · exact (List.mem_cons.mp hx).elim (fun h => h ▸ List.mem_cons_self)
      fun h => List.mem_cons_of_mem _ (hT.stack x h)
  · rw [hT.left x]
    by_cases hx : x = cur
    · subst x
      simp [hNew]
    · simp [hx]
  · obtain ⟨hRoute, hReach, hPlace⟩ := hT.closing e he
    rw [hLine]
    exact ⟨hRoute, hReach, hPlace.imp_right fun h => h.trans hGrows⟩
  · rw [hLine] at hx ⊢
    by_cases hCur : x = cur
    · subst x
      refine hFrom.imp_right fun ⟨source, hOn, hRoute⟩ => ⟨source, hRoute, ?_⟩
      exact pair_sublist_append (List.mem_reverse.mpr hOn) List.mem_cons_self
    · have hOld : x ∈ d.line order := by
        simpa [Dfs.line, hCur] using hx
      exact (hT.entered x hOld).imp_right fun ⟨source, hRoute, h⟩ =>
        ⟨source, hRoute, h.trans hGrows⟩

theorem Dfs.Traced.leave {cur : String} {stack : List String} (hT : d.Traced nodes roots order)
    (hStack : d.inStack = cur :: stack) (hOff : cur ∉ stack)
    (hTargets : ∀ t, Routes nodes cur t → t ∈ order ∨ (cur, t) ∈ d.backEdges) :
    ({ d with inStack := stack } : Dfs).Traced nodes roots (cur :: order) := by
  have hLine : ({ d with inStack := stack } : Dfs).line (cur :: order) = d.line order := by
    simp [Dfs.line, hStack]
  have hCur : cur ∈ d.inStack := hStack ▸ List.mem_cons_self
  refine ⟨⟨fun x hx => ?_, fun x => ?_, ?_, fun t ht => ?_, hT.ordered⟩, ?_, ?_⟩
  · exact hT.stack x (hStack ▸ List.mem_cons_of_mem _ hx)
  · simp only [List.mem_cons, hT.left x, hStack]
    by_cases hx : x = cur
    · subst x
      simp [hT.stack cur hCur, hOff]
    · simp [hx]
  · exact List.nodup_cons.mpr ⟨fun h => ((hT.left cur).mp h).2 hCur, hT.nodup⟩
  · exact (hTargets t ht.1).resolve_right ht.2
  · rw [hLine]
    exact hT.closing
  · rw [hLine]
    exact hT.entered

/-- What a call of `visit` keeps and adds, whatever the stack. -/
def Visits (nodes : List FlowNode) (roots : List String) (visit : String → Dfs → Dfs) (fuel : Nat) :
    Prop :=
  ∀ cur d order, d.Traced nodes roots order → cur ∉ d.visited → cur ∈ nodes.map (·.id) →
    (cur ∈ roots ∨ ∃ source ∈ d.inStack, Routes nodes source cur) →
    (∀ x ∈ d.inStack, Reaches nodes x cur) → (d.unvisited nodes).length < fuel →
    d.Extends (visit cur d) ∧ ∃ found, (∀ x ∈ found, Reaches nodes cur x) ∧
      (visit cur d).Traced nodes roots (cur :: found ++ order)

def visitTarget (nodes : List FlowNode) (fuel : Nat) (cur : String) (d : Dfs) (target : String) :
    Dfs :=
  if target ∉ d.visited then dfsBackEdges nodes fuel target d
  else if target ∈ d.inStack then { d with backEdges := (cur, target) :: d.backEdges }
  else d

theorem visitTarget_traced {fuel : Nat} {cur target : String} {stack : List String}
    (hVisit : Visits nodes roots (dfsBackEdges nodes fuel) fuel) (hRoute : Routes nodes cur target)
    (hDeclared : target ∈ nodes.map (·.id)) (hT : d.Traced nodes roots order)
    (hStack : d.inStack = cur :: stack) (hPath : ∀ x ∈ d.inStack, Reaches nodes x cur)
    (hFuel : (d.unvisited nodes).length < fuel) :
    d.Extends (visitTarget nodes fuel cur d target) ∧ ∃ found, (∀ x ∈ found, Reaches nodes cur x) ∧
      (visitTarget nodes fuel cur d target).Traced nodes roots (found ++ order) ∧
      (target ∈ found ++ order ∨ (cur, target) ∈ (visitTarget nodes fuel cur d target).backEdges) := by
  unfold visitTarget
  split
  · rename_i hNew
    obtain ⟨hE, found, hFound, hT'⟩ := hVisit target d order hT hNew hDeclared
      (.inr ⟨cur, hStack ▸ List.mem_cons_self, hRoute⟩) (fun x hx => (hPath x hx).tail hRoute) hFuel
    refine ⟨hE, target :: found, fun x hx => ?_, hT', .inl List.mem_cons_self⟩
    rcases List.mem_cons.mp hx with rfl | hx
    · exact .single hRoute
    · exact (hFound x hx).head hRoute
  · rename_i hOld
    split
    · rename_i hOn
      exact ⟨⟨rfl, fun _ h => h, fun _ h => List.mem_cons_of_mem _ h⟩, [], nofun,
        hT.record hStack hRoute hOn (hPath target hOn), .inr List.mem_cons_self⟩
    · rename_i hOff
      exact ⟨.refl d, [], nofun, hT, .inl ((hT.left target).mpr ⟨not_not.mp hOld, hOff⟩)⟩

theorem visitTargets_traced {fuel : Nat} {cur : String} {stack : List String}
    (hVisit : Visits nodes roots (dfsBackEdges nodes fuel) fuel) (targets : List String)
    (hTargets : ∀ t ∈ targets, Routes nodes cur t ∧ t ∈ nodes.map (·.id)) (d : Dfs)
    (order : List String) (hT : d.Traced nodes roots order) (hStack : d.inStack = cur :: stack)
    (hPath : ∀ x ∈ d.inStack, Reaches nodes x cur) (hFuel : (d.unvisited nodes).length < fuel) :
    d.Extends (targets.foldl (visitTarget nodes fuel cur) d) ∧
      ∃ found, (∀ x ∈ found, Reaches nodes cur x) ∧
        (targets.foldl (visitTarget nodes fuel cur) d).Traced nodes roots (found ++ order) ∧
        ∀ t ∈ targets, t ∈ found ++ order ∨
          (cur, t) ∈ (targets.foldl (visitTarget nodes fuel cur) d).backEdges := by
  induction targets generalizing d order with
  | nil => exact ⟨.refl d, [], nofun, hT, nofun⟩
  | cons target rest ih =>
    obtain ⟨hRoute, hDeclared⟩ := hTargets target List.mem_cons_self
    obtain ⟨hE, found, hFound, hT1, hTarget⟩ :=
      visitTarget_traced hVisit hRoute hDeclared hT hStack hPath hFuel
    obtain ⟨hE', found', hFound', hT', hRest⟩ := ih (fun t ht => hTargets t (List.mem_cons_of_mem _ ht))
      (visitTarget nodes fuel cur d target) (found ++ order) hT1 (hE.inStack.trans hStack)
      (hE.inStack ▸ hPath) (hE.unvisited_le.trans_lt hFuel)
    refine ⟨hE.trans hE', found' ++ found, fun x hx => ?_, ?_, fun t ht => ?_⟩
    · exact (List.mem_append.mp hx).elim (hFound' x) (hFound x)
    · rw [List.append_assoc]
      exact hT'
    · rw [List.append_assoc]
      rcases List.mem_cons.mp ht with rfl | ht
      · exact hTarget.imp (List.mem_append_right found') (hE'.backEdges _)
      · exact hRest t ht

theorem Dfs.unvisited_enter {cur : String} (hNew : cur ∉ d.visited)
    (hDeclared : cur ∈ nodes.map (·.id)) (stack : List String) :
    ((⟨cur :: d.visited, stack, d.backEdges⟩ : Dfs).unvisited nodes).length <
      (d.unvisited nodes).length := by
  unfold Dfs.unvisited
  have hSplit : (nodes.map (·.id)).filter (· ∉ cur :: d.visited) =
      ((nodes.map (·.id)).filter (· ∉ d.visited)).filter (· ≠ cur) := by
    rw [List.filter_filter]
    refine List.filter_congr fun x _ => ?_
    simp [not_or]
  rw [hSplit]
  refine List.length_filter_lt_length_iff_exists.mpr ⟨cur, ?_, by simp⟩
  simpa [hNew] using hDeclared

theorem dfsBackEdges_visits (hRoutes : ∀ id, ∀ t ∈ outgoing nodes id, t ∈ nodes.map (·.id))
    (fuel : Nat) : Visits nodes roots (dfsBackEdges nodes fuel) fuel := by
  induction fuel with
  | zero =>
    intro cur d order _ _ _ _ _ hFuel
    exact absurd hFuel (Nat.not_lt_zero _)
  | succ fuel ih =>
    intro cur d order hT hNew hDeclared hFrom hPath hFuel
    have hOff : cur ∉ d.inStack := fun h => hNew (hT.stack cur h)
    let entered : Dfs := { d with visited := cur :: d.visited, inStack := cur :: d.inStack }
    have hLess : (entered.unvisited nodes).length < fuel :=
      (Dfs.unvisited_enter hNew hDeclared _).trans_le (Nat.le_of_lt_succ hFuel)
    have hPathCur : ∀ x ∈ entered.inStack, Reaches nodes x cur := fun x hx =>
      (List.mem_cons.mp hx).elim (fun h => h ▸ .refl) (hPath x)
    obtain ⟨hE, found, hFound, hT1, hTargets⟩ := visitTargets_traced ih (outgoing nodes cur)
      (fun t ht => ⟨ht, hRoutes cur t ht⟩) entered order (hT.enter hNew hFrom) rfl hPathCur hLess
    rw [show dfsBackEdges nodes (fuel + 1) cur d =
      let left := (outgoing nodes cur).foldl (visitTarget nodes fuel cur) entered
      { left with inStack := left.inStack.filter (· ≠ cur) } from rfl]
    set left := (outgoing nodes cur).foldl (visitTarget nodes fuel cur) entered
    have hStack : left.inStack.filter (· ≠ cur) = d.inStack := by
      rw [hE.inStack, List.filter_cons_of_neg (by simp)]
      exact List.filter_eq_self.mpr fun x hx => by
        simpa using fun h : x = cur => hOff (h ▸ hx)
    simp only [hStack]
    exact ⟨⟨rfl, fun x hx => hE.visited x (List.mem_cons_of_mem _ hx), hE.backEdges⟩, found, hFound,
      hT1.leave hE.inStack hOff hTargets⟩

def visitRoots (nodes rest : List FlowNode) (d : Dfs) : Dfs :=
  rest.foldl (fun d node =>
    if node.id ∉ d.visited then dfsBackEdges nodes (nodes.length + 1) node.id d else d) d

theorem detectBackEdges_eq : detectBackEdges nodes = (visitRoots nodes nodes ⟨[], [], []⟩).backEdges :=
  rfl

theorem Dfs.Traced.closed (hT : d.Traced nodes roots order) (hEmpty : d.inStack = []) {x y : String}
    (hx : x ∈ order) (hReach : Reaches nodes x y) : y ∈ order := by
  have hLine : d.line order = order := by simp [Dfs.line, hEmpty]
  induction hReach with
  | refl => exact hx
  | @tail y z _ hRoute ih =>
    by_cases hBack : (y, z) ∈ d.backEdges
    · obtain ⟨_, _, hPlace⟩ := hT.closing _ hBack
      rw [hLine] at hPlace
      exact hPlace.elim (fun hSelf : z = y => hSelf ▸ ih) fun hPlace => hPlace.subset List.mem_cons_self
    · exact hT.ordered.mem_of_mem ih ⟨hRoute, hBack⟩

theorem visitRoot_traced (hRoutes : ∀ id, ∀ t ∈ outgoing nodes id, t ∈ nodes.map (·.id))
    {node : FlowNode} (hNode : node ∈ nodes) (hRoot : node.id ∈ roots)
    (hT : d.Traced nodes roots order) (hEmpty : d.inStack = []) (hNew : node.id ∉ d.visited) :
    d.Extends (dfsBackEdges nodes (nodes.length + 1) node.id d) ∧
      ∃ found, (∀ x ∈ found, Reaches nodes node.id x) ∧
        (dfsBackEdges nodes (nodes.length + 1) node.id d).Traced nodes roots
          (node.id :: found ++ order) := by
  refine dfsBackEdges_visits hRoutes (nodes.length + 1) node.id d order hT hNew
    (List.mem_map_of_mem hNode) (.inl hRoot) (by simp [hEmpty]) ?_
  have hLength := List.length_filter_le (fun x => decide (x ∉ d.visited)) (nodes.map (·.id))
  rw [List.length_map] at hLength
  exact Nat.lt_succ_of_le hLength

theorem visitRoots_traced (hRoutes : ∀ id, ∀ t ∈ outgoing nodes id, t ∈ nodes.map (·.id))
    (rest : List FlowNode) (hRest : ∀ node ∈ rest, node ∈ nodes ∧ node.id ∈ roots)
    (hT : d.Traced nodes roots order) (hEmpty : d.inStack = []) :
    (visitRoots nodes rest d).inStack = [] ∧ ∃ found,
      (∀ x ∈ found, ∃ node ∈ rest, Reaches nodes node.id x) ∧
      (∀ node ∈ rest, node.id ∈ found ++ order) ∧
      (visitRoots nodes rest d).Traced nodes roots (found ++ order) := by
  induction rest generalizing d order with
  | nil => exact ⟨hEmpty, [], nofun, nofun, hT⟩
  | cons node rest ih =>
    obtain ⟨hNode, hRoot⟩ := hRest node List.mem_cons_self
    have hRest' : ∀ n ∈ rest, n ∈ nodes ∧ n.id ∈ roots := fun n hn =>
      hRest n (List.mem_cons_of_mem _ hn)
    unfold visitRoots
    rw [List.foldl_cons]
    by_cases hNew : node.id ∈ d.visited
    · rw [if_neg (not_not.mpr hNew)]
      have hMem : node.id ∈ order := (hT.left node.id).mpr ⟨hNew, by simp [hEmpty]⟩
      obtain ⟨hEmpty', found, hFound, hAll, hT'⟩ := ih hRest' hT hEmpty
      refine ⟨hEmpty', found, fun x hx => ?_, fun n hn => ?_, hT'⟩
      · obtain ⟨n, hn, hReach⟩ := hFound x hx
        exact ⟨n, List.mem_cons_of_mem _ hn, hReach⟩
      · exact (List.mem_cons.mp hn).elim (fun h => h ▸ List.mem_append_right _ hMem) (hAll n)
    · rw [if_pos hNew]
      obtain ⟨hE, found1, hFound1, hT1⟩ := visitRoot_traced hRoutes hNode hRoot hT hEmpty hNew
      obtain ⟨hEmpty', found, hFound, hAll, hT'⟩ := ih hRest' hT1 (hE.inStack.trans hEmpty)
      refine ⟨hEmpty', found ++ (node.id :: found1), fun x hx => ?_, fun n hn => ?_, ?_⟩
      · rcases List.mem_append.mp hx with hx | hx
        · obtain ⟨n, hn, hReach⟩ := hFound x hx
          exact ⟨n, List.mem_cons_of_mem _ hn, hReach⟩
        · refine ⟨node, List.mem_cons_self, ?_⟩
          exact (List.mem_cons.mp hx).elim (fun h => h ▸ .refl) (hFound1 x)
      · rw [List.append_assoc]
        exact (List.mem_cons.mp hn).elim (fun h => h ▸ by simp) (hAll n)
      · rw [List.append_assoc]
        exact hT'

theorem startTraced (nodes : List FlowNode) (roots : List String) :
    (⟨[], [], []⟩ : Dfs).Traced nodes roots [] :=
  ⟨⟨nofun, by simp, .nil, trivial⟩, nofun, by simp [Dfs.line]⟩

theorem detectBackEdges_traced
    (hRoutes : ∀ id, ∀ t ∈ outgoing nodes id, t ∈ nodes.map (·.id)) :
    ∃ order : List String, (∀ node ∈ nodes, node.id ∈ order) ∧
      (visitRoots nodes nodes ⟨[], [], []⟩).inStack = [] ∧
      (visitRoots nodes nodes ⟨[], [], []⟩).Traced nodes (nodes.map (·.id)) order := by
  obtain ⟨hEmpty, order, _, hAll, hT⟩ := visitRoots_traced hRoutes nodes
    (fun node h => ⟨h, List.mem_map_of_mem h⟩) (startTraced nodes (nodes.map (·.id))) rfl
  rw [List.append_nil] at hAll hT
  exact ⟨order, hAll, hEmpty, hT⟩

theorem detectBackEdges_ordered
    (hRoutes : ∀ id, ∀ t ∈ outgoing nodes id, t ∈ nodes.map (·.id)) :
    ∃ order : List String, order.Nodup ∧ (∀ node ∈ nodes, node.id ∈ order) ∧
      Ordered (ForwardEdge nodes (detectBackEdges nodes)) order := by
  obtain ⟨order, hAll, _, hT⟩ := detectBackEdges_traced hRoutes
  exact ⟨order, hT.nodup, hAll, hT.ordered⟩

theorem Routes.declared {source target : String} (h : Routes nodes source target) :
    ∃ node ∈ nodes, node.id = source := by
  unfold Routes outgoing at h
  split at h
  · rename_i node hFind
    exact ⟨node, List.mem_of_find?_eq_some hFind, by simpa using List.find?_some hFind⟩
  · cases h

theorem forwardEdges_acyclic (hRoutes : ∀ id, ∀ t ∈ outgoing nodes id, t ∈ nodes.map (·.id)) :
    Acyclic (ForwardEdge nodes (detectBackEdges nodes)) := by
  obtain ⟨order, hNodup, hAll, hOrdered⟩ := detectBackEdges_ordered hRoutes
  refine hOrdered.acyclic hNodup fun source target hEdge => ?_
  obtain ⟨node, hNode, rfl⟩ := Routes.declared hEdge.1
  exact hAll node hNode

theorem backEdge_closes (hRoutes : ∀ id, ∀ t ∈ outgoing nodes id, t ∈ nodes.map (·.id))
    {edge : String × String} (hEdge : edge ∈ detectBackEdges nodes) :
    Routes nodes edge.1 edge.2 ∧ Reaches nodes edge.2 edge.1 := by
  obtain ⟨order, _, _, hT⟩ := detectBackEdges_traced hRoutes
  obtain ⟨hRoute, hReach, _⟩ := hT.closing edge hEdge
  exact ⟨hRoute, hReach⟩

end Cronymax.Flow
