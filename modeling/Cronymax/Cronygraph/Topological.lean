import Cronymax.Cronygraph.Cycles

/-! `Graph::topological_order`: a queue of the nodes whose sources have all been listed.  The counter of
a node is the number of edges into it from nodes that are not listed yet, so no counter falls below
zero, and a node is queued once, by the last of these edges.  The sort succeeds where `has_cycle` finds
no cycle. -/

namespace Cronygraph.Graph

open Precedence

variable {N E : Type}

/-- The indegrees of the targets. -/
def countEdges (g : Graph N E) (sources : List NodeId) : Table Nat :=
  (sources.flatMap g.successors).foldl
    (fun indegree target => Function.update indegree target (some ((indegree target).getD 0 + 1)))
    fun id => if g.contains id then some 0 else none

/-- The variables of the loop. -/
structure Listing where
  indegree : Table Nat
  ready : List NodeId
  visited : List NodeId
  order : List NodeId

/-- The edges of a listed node: `none` where a counter would underflow. -/
def releaseEdges : List (Edge E) → Table Nat → List NodeId → Option (Table Nat × List NodeId)
  | [], indegree, ready => some (indegree, ready)
  | edge :: edges, indegree, ready =>
    match indegree edge.target with
    | none => none
    | some 0 => none
    | some (d + 1) =>
      releaseEdges edges (Function.update indegree edge.target (some d))
        (if d = 0 then ready ++ [edge.target] else ready)

/-- The loop over the nodes without a predecessor left. -/
def drain (g : Graph N E) : Nat → Listing → Option Listing
  | 0, _ => none
  | turns + 1, s =>
    match s.ready with
    | [] => some s
    | id :: ready =>
      if id ∈ s.visited then drain g turns { s with ready := ready }
      else
        match releaseEdges (g.edgesFrom id) s.indegree ready with
        | none => none
        | some (indegree, ready) => drain g turns ⟨indegree, ready, id :: s.visited, s.order ++ [id]⟩

/-- `topological_order`, by the orders in which its maps are gone through. -/
def topologicalOrder (g : Graph N E) (sources counted : List NodeId) (turns : Nat) :
    Option (Except GraphError (List NodeId)) :=
  let indegree := g.countEdges sources
  let ready := counted.filter fun id => indegree id == some 0
  match g.drain turns ⟨indegree, ready, [], []⟩ with
  | none => none
  | some s => some (if s.order.length ≠ g.nodes.keys.length then .error .cycle else .ok s.order)

variable (g : Graph N E)

/-- The edges to a node whose sources are still to be listed. -/
def pending (order : List NodeId) (t : NodeId) : Nat :=
  ((g.nodes.keys.filter (· ∉ order)).flatMap g.successors).count t

variable {g}

theorem pending_eq_zero {order : List NodeId} {t : NodeId} :
    g.pending order t = 0 ↔ ∀ a, g.contains a = true → a ∉ order → ¬ g.Leads a t := by
  simp only [pending, List.count_eq_zero, List.mem_flatMap, List.mem_filter, decide_eq_true_eq,
    contains_iff, not_exists, not_and, and_imp]
  exact Iff.rfl

theorem pending_append {order : List NodeId} {id : NodeId} (hMem : g.contains id = true)
    (hFresh : id ∉ order) (t : NodeId) :
    g.pending order t = (g.successors id).count t + g.pending (order ++ [id]) t := by
  have hPerm : (g.nodes.keys.filter (· ∉ order)).Perm
      (id :: g.nodes.keys.filter (· ∉ order ++ [id])) := by
    refine (List.perm_ext_iff_of_nodup ((AList.keys_nodup g.nodes).filter _) ?_).mpr fun a => ?_
    · exact List.nodup_cons.mpr ⟨by simp, (AList.keys_nodup g.nodes).filter _⟩
    · by_cases hSame : a = id
      · have hKey : id ∈ g.nodes.keys := contains_iff.mp hMem
        simp [hSame, hKey, hFresh]
      · simp [hSame]
  rw [pending, (hPerm.flatMap_right _).count_eq, List.flatMap_cons, List.count_append, pending]

theorem countEdges_foldl (targets : List NodeId) (indegree : Table Nat)
    (hKnown : ∀ t ∈ targets, (indegree t).isSome) (t : NodeId) :
    targets.foldl (fun indegree target =>
      Function.update indegree target (some ((indegree target).getD 0 + 1))) indegree t =
      (indegree t).map (· + targets.count t) := by
  induction targets generalizing indegree with
  | nil => simp
  | cons target targets ih =>
    obtain ⟨d, hd⟩ := Option.isSome_iff_exists.mp (hKnown target List.mem_cons_self)
    rw [List.foldl_cons, ih]
    · by_cases hSame : t = target
      · subst hSame
        simp [hd, Nat.add_comm, Nat.add_left_comm]
      · simp [Function.update_of_ne hSame, List.count_cons_of_ne (Ne.symm hSame)]
    · intro a ha
      by_cases hSame : a = target
      · simp [hSame]
      · rw [Function.update_of_ne hSame]
        exact hKnown a (List.mem_cons_of_mem _ ha)

theorem countEdges_spec (hClosed : g.Closed) {sources : List NodeId}
    (hSources : sources.Perm g.nodes.keys) (t : NodeId) :
    g.countEdges sources t = if g.contains t then some (g.pending [] t) else none := by
  have hCount : g.pending [] t = (sources.flatMap g.successors).count t := by
    rw [pending, (hSources.flatMap_right _).count_eq]
    simp
  rw [countEdges, countEdges_foldl, hCount]
  · split <;> simp
  · intro a ha
    obtain ⟨b, -, hLeads⟩ := List.mem_flatMap.mp ha
    rw [if_pos (hClosed.target hLeads), Option.isSome_some]

theorem releaseEdges_spec {edges : List (Edge E)} {indegree : Table Nat} {rest : NodeId → Nat}
    (hKnown : ∀ edge ∈ edges, g.contains edge.target = true)
    (hCount : ∀ t, indegree t =
      if g.contains t then some ((edges.map (·.target)).count t + rest t) else none)
    (ready : List NodeId) :
    ∃ indegree' released, releaseEdges edges indegree ready = some (indegree', ready ++ released) ∧
      (∀ t, indegree' t = if g.contains t then some (rest t) else none) ∧
      released.Nodup ∧ ∀ t, t ∈ released ↔ t ∈ edges.map (·.target) ∧ rest t = 0 := by
  induction edges generalizing indegree ready with
  | nil => exact ⟨indegree, [], by simp [releaseEdges], by simpa using hCount, by simp, by simp⟩
  | cons edge edges ih =>
    have hTarget := hKnown edge List.mem_cons_self
    have hRest (e : Edge E) (he : e ∈ edges) := hKnown e (List.mem_cons_of_mem _ he)
    have hHead : indegree edge.target =
        some ((edges.map (·.target)).count edge.target + rest edge.target + 1) := by
      rw [hCount, if_pos hTarget, List.map_cons, List.count_cons_self]
      congr 1
      omega
    have hTail (t : NodeId) : Function.update indegree edge.target
        (some ((edges.map (·.target)).count edge.target + rest edge.target)) t =
        if g.contains t then some ((edges.map (·.target)).count t + rest t) else none := by
      by_cases hSame : t = edge.target
      · simp [hSame, hTarget]
      · rw [Function.update_of_ne hSame, hCount, List.map_cons, List.count_cons_of_ne (Ne.symm hSame)]
    simp only [releaseEdges, hHead]
    by_cases hZero : (edges.map (·.target)).count edge.target + rest edge.target = 0
    · obtain ⟨indegree', released, hRun, hCount', hNodup, hMem⟩ :=
        ih hRest hTail (ready ++ [edge.target])
      have hLast : edge.target ∉ edges.map (·.target) := List.count_eq_zero.mp (Nat.add_eq_zero_iff.mp hZero).1
      refine ⟨indegree', edge.target :: released, ?_, hCount', ?_, fun t => ?_⟩
      · rw [if_pos hZero, hRun, List.append_assoc, List.singleton_append]
      · exact List.nodup_cons.mpr ⟨fun h => hLast ((hMem _).mp h).1, hNodup⟩
      · rw [List.mem_cons, hMem, List.map_cons, List.mem_cons]
        constructor
        · rintro (rfl | ⟨hIn, hNone⟩)
          · exact ⟨.inl rfl, (Nat.add_eq_zero_iff.mp hZero).2⟩
          · exact ⟨.inr hIn, hNone⟩
        · rintro ⟨rfl | hIn, hNone⟩
          · exact .inl rfl
          · exact .inr ⟨hIn, hNone⟩
    · obtain ⟨indegree', released, hRun, hCount', hNodup, hMem⟩ := ih hRest hTail ready
      refine ⟨indegree', released, by rw [if_neg hZero, hRun], hCount', hNodup, fun t => ?_⟩
      rw [hMem, List.map_cons, List.mem_cons]
      refine ⟨fun h => ⟨.inr h.1, h.2⟩, fun h => ⟨?_, h.2⟩⟩
      rcases h.1 with rfl | hIn
      · have hCounted : (edges.map (·.target)).count edge.target ≠ 0 := fun hNone =>
          hZero (by rw [hNone, h.2])
        exact List.count_pos_iff.mp (Nat.pos_of_ne_zero hCounted)
      · exact hIn

/-- The queue holds the nodes whose sources are listed, and each listed node comes after its sources. -/
structure Drained (g : Graph N E) (s : Listing) : Prop where
  indegree : ∀ t, s.indegree t = if g.contains t then some (g.pending s.order t) else none
  readyNodup : s.ready.Nodup
  ready : ∀ t, t ∈ s.ready ↔ g.contains t = true ∧ g.pending s.order t = 0 ∧ t ∉ s.order
  visited : ∀ t, t ∈ s.visited ↔ t ∈ s.order
  known : ∀ t ∈ s.order, g.contains t = true
  nodup : s.order.Nodup
  ordered : Ordered (Function.swap g.Leads) s.order.reverse

theorem Drained.pending_listed {s : Listing} (h : g.Drained s) {t : NodeId} (ht : t ∈ s.order) :
    g.pending s.order t = 0 := by
  refine pending_eq_zero.mpr fun a _ hFresh hLeads => hFresh ?_
  exact List.mem_reverse.mp (h.ordered.mem_of_mem (List.mem_reverse.mpr ht) hLeads)

theorem Drained.turn {s : Listing} (h : g.Drained s) (hClosed : g.Closed) {id : NodeId}
    {ready : List NodeId} (hReady : s.ready = id :: ready) :
    id ∉ s.visited ∧ ∃ indegree released,
      releaseEdges (g.edgesFrom id) s.indegree ready = some (indegree, ready ++ released) ∧
      g.Drained ⟨indegree, ready ++ released, id :: s.visited, s.order ++ [id]⟩ := by
  obtain ⟨hMem, hNone, hFresh⟩ := (h.ready id).mp (hReady ▸ List.mem_cons_self)
  have hReadyNodup := h.readyNodup
  rw [hReady] at hReadyNodup
  obtain ⟨hNotRest, hRestNodup⟩ := List.nodup_cons.mp hReadyNodup
  have hSplit := pending_append (g := g) hMem hFresh
  have hPending (t : NodeId) : s.indegree t = if g.contains t then
      some (((g.edgesFrom id).map (·.target)).count t + g.pending (s.order ++ [id]) t) else none := by
    rw [h.indegree, hSplit]
    rfl
  obtain ⟨indegree, released, hRun, hCount, hNodup, hReleased⟩ :=
    releaseEdges_spec (fun edge he => hClosed.target (List.mem_map_of_mem he)) hPending ready
  refine ⟨fun hVisited => hFresh ((h.visited id).mp hVisited), indegree, released, hRun, ?_⟩
  have hNew (t : NodeId) (ht : t ∈ g.successors id) : g.pending s.order t ≠ 0 := by
    have hPos : 0 < (g.successors id).count t := List.count_pos_iff.mpr ht
    rw [hSplit]
    omega
  have hSources : ∀ a, g.Leads a id → a ∈ s.order := fun a hLeads => by
    by_contra hOut
    exact pending_eq_zero.mp hNone a (hClosed.source hLeads) hOut hLeads
  constructor
  case indegree => exact hCount
  case readyNodup =>
    refine List.Nodup.append hRestNodup hNodup fun t hRest hNewly => ?_
    have hInReady : t ∈ s.ready := hReady ▸ List.mem_cons_of_mem id hRest
    exact hNew t ((hReleased t).mp hNewly).1 ((h.ready t).mp hInReady).2.1
  case ready =>
    intro t
    rw [List.mem_append, hReleased]
    constructor
    · rintro (hRest | ⟨hSucc, hZero⟩)
      · have hInReady : t ∈ s.ready := hReady ▸ List.mem_cons_of_mem id hRest
        obtain ⟨hIn, hPending, hOut⟩ := (h.ready t).mp hInReady
        rw [hSplit] at hPending
        have hOther : t ≠ id := fun hSame => hNotRest (hSame ▸ hRest)
        exact ⟨hIn, (Nat.add_eq_zero_iff.mp hPending).2, by simp [hOut, hOther]⟩
      · have hOut : t ∉ s.order := fun hIn => hNew t hSucc (h.pending_listed hIn)
        have hOther : t ≠ id := fun hSame => hNew id (hSame ▸ hSucc) hNone
        exact ⟨hClosed.target hSucc, hZero, by simp [hOut, hOther]⟩
    · rintro ⟨hIn, hPending, hOut⟩
      obtain ⟨hOut, hOther⟩ : t ∉ s.order ∧ t ≠ id := by simpa using hOut
      by_cases hSucc : t ∈ g.successors id
      · exact .inr ⟨hSucc, hPending⟩
      · have hOld : g.pending s.order t = 0 := by
          rw [hSplit, List.count_eq_zero.mpr hSucc, hPending]
        have hInReady : t ∈ id :: ready := hReady ▸ (h.ready t).mpr ⟨hIn, hOld, hOut⟩
        exact .inl ((List.mem_cons.mp hInReady).resolve_left hOther)
  case visited =>
    intro t
    simp [h.visited, or_comm]
  case known =>
    intro t ht
    rcases List.mem_append.mp ht with ht | ht
    · exact h.known t ht
    · rwa [List.mem_singleton.mp ht]
  case nodup =>
    refine List.nodup_append.mpr ⟨h.nodup, List.nodup_singleton id, fun a ha b hb hSame => ?_⟩
    rw [List.mem_singleton] at hb
    exact hFresh (hb ▸ hSame ▸ ha)
  case ordered =>
    rw [List.reverse_append, List.reverse_singleton, List.singleton_append]
    exact ⟨fun a hLeads => List.mem_reverse.mpr (hSources a hLeads), h.ordered⟩

theorem Drained.drain {s : Listing} (h : g.Drained s) (hClosed : g.Closed) {turns : Nat}
    (hTurns : g.nodes.keys.length < s.order.length + turns) :
    ∃ s', g.drain turns s = some s' ∧ g.Drained s' ∧ s'.ready = [] := by
  induction turns generalizing s with
  | zero =>
    have hSub : s.order ⊆ g.nodes.keys := fun t ht => contains_iff.mp (h.known t ht)
    have hLength := (h.nodup.subperm hSub).length_le
    omega
  | succ turns ih =>
    cases hReady : s.ready with
    | nil => exact ⟨s, by simp only [Graph.drain, hReady], h, hReady⟩
    | cons id ready =>
      obtain ⟨hFresh, indegree, released, hRun, hNext⟩ := h.turn hClosed hReady
      have hTurn : g.drain (turns + 1) s =
          g.drain turns ⟨indegree, ready ++ released, id :: s.visited, s.order ++ [id]⟩ := by
        simp only [Graph.drain, hReady, if_neg hFresh, hRun]
      rw [hTurn]
      exact ih hNext (by simp only [List.length_append, List.length_singleton]; omega)

theorem Drained.blocked {s : Listing} (h : g.Drained s) (hEmpty : s.ready = []) {t : NodeId}
    (hMem : g.contains t = true) (hOut : t ∉ s.order) :
    ∃ a, g.contains a = true ∧ a ∉ s.order ∧ g.Leads a t := by
  by_contra hNone
  push Not at hNone
  have hReady := (h.ready t).mpr ⟨hMem, pending_eq_zero.mpr hNone, hOut⟩
  rw [hEmpty] at hReady
  cases hReady

theorem Drained.complete {s : Listing} (h : g.Drained s) (hClosed : g.Closed) (hEmpty : s.ready = []) :
    Acyclic g.Leads ↔ s.order.length = g.nodes.keys.length := by
  have hSub : s.order ⊆ g.nodes.keys := fun t ht => contains_iff.mp (h.known t ht)
  have hSubperm := h.nodup.subperm hSub
  constructor
  · intro hAcyclic
    by_contra hShort
    let left := g.nodes.keys.filter (· ∉ s.order)
    have hLeft (t : NodeId) : t ∈ left ↔ g.contains t = true ∧ t ∉ s.order := by
      rw [List.mem_filter, decide_eq_true_eq, contains_iff]
      exact Iff.rfl
    have hSome : left ≠ [] := fun hNone => by
      have hAll : g.nodes.keys ⊆ s.order := fun t ht => by
        by_contra hOut
        have hIn : t ∈ left := (hLeft t).mpr ⟨contains_iff.mpr ht, hOut⟩
        rw [hNone] at hIn
        cases hIn
      have hLe := ((AList.keys_nodup g.nodes).subperm hAll).length_le
      have hGe := hSubperm.length_le
      omega
    obtain ⟨t, ht, hLast⟩ := hAcyclic.swap.exists_last hSome
    obtain ⟨hMem, hOut⟩ := (hLeft t).mp ht
    obtain ⟨a, hIn, hFresh, hLeads⟩ := h.blocked hEmpty hMem hOut
    exact hLast a ((hLeft a).mpr ⟨hIn, hFresh⟩) hLeads
  · intro hLength
    have hPerm := hSubperm.perm_of_length_le hLength.ge
    have hSwap : Acyclic (Function.swap g.Leads) :=
      h.ordered.acyclic (List.nodup_reverse.mpr h.nodup) fun a b hLeads =>
        List.mem_reverse.mpr (hPerm.mem_iff.mpr (contains_iff.mp (hClosed.target hLeads)))
    exact hSwap.swap

theorem drained_start (hClosed : g.Closed) {sources counted : List NodeId}
    (hSources : sources.Perm g.nodes.keys) (hNodup : counted.Nodup)
    (hCounted : ∀ id, id ∈ counted ↔ (g.countEdges sources id).isSome = true) :
    g.Drained ⟨g.countEdges sources, counted.filter fun id => g.countEdges sources id == some 0,
      [], []⟩ where
  indegree := countEdges_spec hClosed hSources
  readyNodup := hNodup.filter _
  ready t := by
    rw [List.mem_filter, hCounted, countEdges_spec hClosed hSources]
    cases g.contains t <;> simp
  visited t := Iff.rfl
  known := by simp
  nodup := List.nodup_nil
  ordered := trivial

/-- `topological_order` succeeds exactly where `has_cycle` finds none, whatever the orders in which the
maps are iterated.  The result has every node once, the source of each edge before its target.  Both
loops end, and no counter falls below zero. -/
theorem topologicalOrder_iff_hasCycle {g : Graph N E} (h : Built g)
    {keys sources counted : List NodeId} (hKeys : keys.Perm g.nodes.keys)
    (hSources : sources.Perm g.adjacency.keys) (hNodup : counted.Nodup)
    (hCounted : ∀ id, id ∈ counted ↔ (g.countEdges sources id).isSome = true)
    {turns turns' : Nat} (hTurns : g.searchTurns ≤ turns) (hTurns' : g.nodes.keys.length < turns') :
    (g.hasCycle keys turns = some true ∧
      g.topologicalOrder sources counted turns' = some (.error .cycle)) ∨
    (g.hasCycle keys turns = some false ∧ ∃ order,
      g.topologicalOrder sources counted turns' = some (.ok order) ∧ order.Perm g.nodes.keys ∧
      ∀ a b, b ∈ g.successors a → [a, b].Sublist order) := by
  have hClosed := h.closed
  have hSame : sources.Perm g.nodes.keys := hSources.trans <|
    (List.perm_ext_iff_of_nodup (AList.keys_nodup _) (AList.keys_nodup _)).mpr h.mem_adjacency
  have hStart := drained_start hClosed hSame hNodup hCounted
  obtain ⟨s, hDrain, hDrained, hEmpty⟩ :=
    hStart.drain hClosed (show g.nodes.keys.length < 0 + turns' by simpa using hTurns')
  have hComplete := hDrained.complete hClosed hEmpty
  rcases hasCycle_spec hClosed hKeys hTurns with ⟨hCheck, hCyclic⟩ | ⟨hCheck, hAcyclic⟩
  · refine .inl ⟨hCheck, ?_⟩
    simp only [topologicalOrder, hDrain, if_pos (mt hComplete.mpr hCyclic)]
  · have hLength := hComplete.mp hAcyclic
    have hPerm := (hDrained.nodup.subperm fun t ht =>
      contains_iff.mp (hDrained.known t ht)).perm_of_length_le hLength.ge
    refine .inr ⟨hCheck, s.order, ?_, hPerm, fun a b hLeads => ?_⟩
    · simp only [topologicalOrder, hDrain, if_neg (not_not.mpr hLength)]
    · have hListed : b ∈ s.order := hPerm.mem_iff.mpr (contains_iff.mp (hClosed.target hLeads))
      have hBefore := hDrained.ordered.sublist (List.mem_reverse.mpr hListed) hLeads
      simpa using hBefore.reverse

def parallel : Graph Unit Unit :=
  ⟨⟨[⟨2, ()⟩, ⟨1, ()⟩], by simp⟩, ⟨[⟨1, [⟨2, ()⟩, ⟨2, ()⟩]⟩, ⟨2, []⟩], by simp⟩⟩

theorem built_parallel : Built parallel :=
  .addEdge (.addEdge (.insertNodeWithId (.addNode .new 1 ()) 2 ()) 1 2 () rfl) 1 2 () rfl

/-- Two parallel edges are counted twice and released twice. -/
theorem parallel_sorted :
    parallel.topologicalOrder [2, 1] [1, 2] 3 = some (.ok [1, 2]) ∧
    ((parallel.hasCycle [2, 1] 5 = some true ∧
      parallel.topologicalOrder [2, 1] [1, 2] 3 = some (.error .cycle)) ∨
    (parallel.hasCycle [2, 1] 5 = some false ∧ ∃ order,
      parallel.topologicalOrder [2, 1] [1, 2] 3 = some (.ok order) ∧ order.Perm parallel.nodes.keys ∧
      ∀ a b, b ∈ parallel.successors a → [a, b].Sublist order)) :=
  ⟨by rfl, topologicalOrder_iff_hasCycle built_parallel (by decide) (by decide) (by decide)
    (fun id => by
      rw [countEdges_spec built_parallel.closed (by decide)]
      simp only [Option.isSome_ite]
      rw [contains_iff]
      exact (by decide : [1, 2].Perm parallel.nodes.keys).mem_iff) (by decide) (by decide)⟩

end Cronygraph.Graph
