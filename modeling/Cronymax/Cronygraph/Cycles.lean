import Mathlib.Algebra.GroupWithZero.Nat
import Mathlib.Algebra.Order.BigOperators.Group.List
import Mathlib.Algebra.Order.Group.Nat
import Cronymax.Cronygraph.Graph
import Cronymax.Precedence.Acyclic

/-! `Graph::has_cycle`: a search in three colors with an explicit stack.  The nodes that it has finished
are ordered, each leads only to nodes finished before it, and the nodes on the stack are a path, so that
a grey target closes a cycle.  The order in which a hash map is iterated is a parameter. -/

namespace Cronygraph.Graph

open Precedence Relation

variable {N E : Type}

/-- The graphs that the operations build. -/
inductive Built : Graph N E → Prop where
  | new : Built .new
  | addNode {g : Graph N E} (h : Built g) (id : NodeId) (payload : N) : Built (g.addNode id payload)
  | insertNodeWithId {g : Graph N E} (h : Built g) (id : NodeId) (payload : N) :
    Built (g.insertNodeWithId id payload).2
  | addEdge {g g' : Graph N E} (h : Built g) (source target : NodeId) (payload : E)
    (hEdge : g.addEdge source target payload = .ok g') : Built g'

/-- There is an edge from one node to the other. -/
def Leads (g : Graph N E) (source target : NodeId) : Prop := target ∈ g.successors source

/-- Edges lead from nodes to nodes. -/
structure Closed (g : Graph N E) : Prop where
  source : ∀ {a b}, g.Leads a b → g.contains a = true
  target : ∀ {a b}, g.Leads a b → g.contains b = true

theorem contains_iff {g : Graph N E} {id : NodeId} : g.contains id = true ↔ id ∈ g.nodes := by
  rw [contains, node, AList.lookup_isSome]

theorem successors_of_adjacency {g g' : Graph N E} {id id' : NodeId} {edges : List (Edge E)}
    (h : g'.adjacency = g.adjacency.insert id edges) :
    g'.successors id' = if id' = id then edges.map (·.target) else g.successors id' := by
  unfold successors edgesFrom
  rw [h]
  split
  · subst id'
    rw [AList.lookup_insert, Option.getD_some]
  · rw [AList.lookup_insert_ne ‹_›]

theorem Closed.grow {g g' : Graph N E} (h : g.Closed) {id : NodeId} {payload : N}
    (hNodes : g'.nodes = g.nodes.insert id payload)
    (hEdges : ∀ a, g'.successors a ⊆ g.successors a) : g'.Closed := by
  have hKept {a : NodeId} (ha : g.contains a = true) : g'.contains a = true := by
    rw [contains_iff] at ha ⊢
    rw [hNodes]
    exact (AList.mem_insert _).mpr (.inr ha)
  exact ⟨fun hLeads => hKept (h.source (hEdges _ hLeads)), fun hLeads => hKept (h.target (hEdges _ hLeads))⟩

theorem Built.closed {g : Graph N E} (h : Built g) : g.Closed := by
  induction h with
  | new => exact ⟨fun h => (by cases h), fun h => (by cases h)⟩
  | addNode h id payload ih =>
    refine ih.grow rfl fun a => ?_
    rw [successors_of_adjacency rfl]
    split
    · exact List.nil_subset _
    · exact List.Subset.refl _
  | @insertNodeWithId g h id payload ih =>
    refine ih.grow rfl fun a => ?_
    rw [successors_of_adjacency rfl]
    split
    · rename_i hSame
      subst hSame
      exact List.Subset.refl _
    · exact List.Subset.refl _
  | @addEdge g g' h source target payload hEdge ih =>
    have hSource : g.contains source = true := by
      by_contra hNone
      simp [Graph.addEdge, Bool.eq_false_iff.mpr hNone] at hEdge
    have hTarget : g.contains target = true := by
      by_contra hNone
      simp [Graph.addEdge, hSource, Bool.eq_false_iff.mpr hNone] at hEdge
    obtain ⟨g'', hOk, hNodes, hSuccessors⟩ := addEdge_ok payload hSource hTarget
    obtain rfl : g'' = g' := Except.ok.inj (hOk.symm.trans hEdge)
    have hContains (a : NodeId) : g''.contains a = g.contains a := by
      rw [contains, contains, node, node, hNodes]
    have hOld {a b : NodeId} (hLeads : g''.Leads a b) : g.Leads a b ∨ a = source ∧ b = target := by
      rw [Leads, hSuccessors] at hLeads
      split at hLeads
      · rename_i hSame
        subst hSame
        exact (List.mem_append.mp hLeads).imp_right fun hNew => ⟨rfl, List.mem_singleton.mp hNew⟩
      · exact .inl hLeads
    constructor
    · intro a b hLeads
      rw [hContains]
      rcases hOld hLeads with hLeads | ⟨rfl, -⟩
      · exact ih.source hLeads
      · exact hSource
    · intro a b hLeads
      rw [hContains]
      rcases hOld hLeads with hLeads | ⟨-, rfl⟩
      · exact ih.target hLeads
      · exact hTarget

theorem Built.mem_adjacency {g : Graph N E} (h : Built g) (id : NodeId) :
    id ∈ g.adjacency ↔ id ∈ g.nodes := by
  induction h with
  | new => simp [Graph.new]
  | addNode h id' payload ih => simp [Graph.addNode, ih]
  | insertNodeWithId h id' payload ih => simp [Graph.insertNodeWithId, ih]
  | @addEdge g g' h source target payload hEdge ih =>
    unfold Graph.addEdge at hEdge
    split at hEdge
    · cases hEdge
    · split at hEdge
      · cases hEdge
      · rename_i hSource _
        cases hEdge
        have hMem : source ∈ g.nodes := contains_iff.mp (by simpa using hSource)
        have hKept : id = source → id ∈ g.nodes := fun hSame => hSame ▸ hMem
        simp only [AList.mem_insert, ih]
        exact ⟨fun h => h.elim hKept fun hOld => hOld, .inr⟩

inductive Color where
  | white
  | grey
  | black
deriving DecidableEq

abbrev Table (V : Type) := NodeId → Option V

/-- The stack of the search and the colours. -/
structure Search where
  color : Table Color
  stack : List (NodeId × Nat)

inductive Turn where
  /-- A grey target: `return true`. -/
  | found
  | ended (color : Table Color)
  | next (s : Search)

variable (g : Graph N E)

/-- One turn of the loop of `has_cycle`. -/
def turn (s : Search) : Turn :=
  match s.stack with
  | [] => .ended s.color
  | (node, edgeIdx) :: rest =>
    match (g.edgesFrom node)[edgeIdx]? with
    | none => .next ⟨Function.update s.color node (some .black), rest⟩
    | some edge =>
      match (s.color edge.target).getD .white with
      | .grey => .found
      | .white => .next ⟨Function.update s.color edge.target (some .grey),
          (edge.target, 0) :: (node, edgeIdx + 1) :: rest⟩
      | .black => .next ⟨s.color, (node, edgeIdx + 1) :: rest⟩

/-- The loop of `has_cycle` from one node. -/
def search : Nat → Search → Option (Option (Table Color))
  | 0, _ => none
  | turns + 1, s =>
    match g.turn s with
    | .found => some none
    | .ended color => some (some color)
    | .next s => search turns s

def searchFrom (turns : Nat) : List NodeId → Table Color → Option Bool
  | [], _ => some false
  | start :: starts, color =>
    match color start with
    | none => none
    | some .white =>
      match g.search turns ⟨Function.update color start (some .grey), [(start, 0)]⟩ with
      | none => none
      | some none => some true
      | some (some color) => searchFrom turns starts color
    | some _ => searchFrom turns starts color

/-- `has_cycle`. -/
def hasCycle (keys : List NodeId) (turns : Nat) : Option Bool :=
  g.searchFrom turns keys fun id => if g.contains id then some .white else none

/-- The stack is a path, and what its nodes have left behind is black. -/
def Explored (done : List NodeId) : Option NodeId → List (NodeId × Nat) → Prop
  | _, [] => True
  | above, (node, edgeIdx) :: rest =>
    (∀ t ∈ (g.successors node).take edgeIdx, t ∈ done ∨ above = some t) ∧
      (∀ t ∈ above, g.Leads node t) ∧ Explored done (some node) rest

/-- The search after it has finished the nodes in `done`, the last one first. -/
structure Traced (s : Search) (done : List NodeId) : Prop where
  known : ∀ id, (s.color id).isSome = g.contains id
  black : ∀ id, s.color id = some .black ↔ id ∈ done
  grey : ∀ id, s.color id = some .grey ↔ id ∈ s.stack.map Prod.fst
  nodup : (s.stack.map Prod.fst).Nodup
  doneNodup : done.Nodup
  ordered : Ordered g.Leads done
  explored : g.Explored done none s.stack

variable {g} {s s' : Search} {done : List NodeId}

theorem Explored.mono {done' : List NodeId} (hSub : done ⊆ done') {above : Option NodeId}
    {stack : List (NodeId × Nat)} (h : g.Explored done above stack) : g.Explored done' above stack := by
  induction stack generalizing above with
  | nil => trivial
  | cons entry rest ih =>
    exact ⟨fun t ht => (h.1 t ht).imp_left (@hSub t), h.2.1, ih h.2.2⟩

theorem Explored.finished {node : NodeId} {stack : List (NodeId × Nat)}
    (h : g.Explored done (some node) stack) : g.Explored (node :: done) none stack := by
  cases stack with
  | nil => trivial
  | cons entry rest =>
    refine ⟨fun t ht => .inl ?_, (by simp), h.2.2.mono (List.subset_cons_self _ _)⟩
    rcases h.1 t ht with hDone | hAbove
    · exact List.mem_cons_of_mem _ hDone
    · exact List.mem_cons.mpr (.inl (Option.some.inj hAbove).symm)

theorem Explored.path {node : NodeId} {stack : List (NodeId × Nat)}
    (h : g.Explored done (some node) stack) {id : NodeId} (hMem : id ∈ stack.map Prod.fst) :
    TransGen g.Leads id node := by
  induction stack generalizing node with
  | nil => cases hMem
  | cons entry rest ih =>
    have hLeads : g.Leads entry.1 node := h.2.1 node rfl
    rcases List.mem_cons.mp hMem with rfl | hMem
    · exact .single hLeads
    · exact (ih h.2.2 hMem).tail hLeads

theorem successors_take (node : NodeId) (edgeIdx : Nat) {edge : Edge E}
    (h : (g.edgesFrom node)[edgeIdx]? = some edge) :
    (g.successors node).take (edgeIdx + 1) = (g.successors node).take edgeIdx ++ [edge.target] := by
  rw [successors, List.take_add_one, List.getElem?_map, h]
  rfl

theorem leads_of_edge {node : NodeId} {edgeIdx : Nat} {edge : Edge E}
    (h : (g.edgesFrom node)[edgeIdx]? = some edge) : g.Leads node edge.target :=
  List.mem_map_of_mem (List.mem_of_getElem? h)

theorem turn_cases (g : Graph N E) (color : Table Color) (node : NodeId) (edgeIdx : Nat)
    (rest : List (NodeId × Nat)) :
    ((g.edgesFrom node)[edgeIdx]? = none ∧ g.turn ⟨color, (node, edgeIdx) :: rest⟩ =
        .next ⟨Function.update color node (some .black), rest⟩) ∨
    ∃ edge, (g.edgesFrom node)[edgeIdx]? = some edge ∧
      ((color edge.target = some .grey ∧ g.turn ⟨color, (node, edgeIdx) :: rest⟩ = .found) ∨
        ((color edge.target = some .white ∨ color edge.target = none) ∧
          g.turn ⟨color, (node, edgeIdx) :: rest⟩ = .next ⟨Function.update color edge.target (some .grey),
            (edge.target, 0) :: (node, edgeIdx + 1) :: rest⟩) ∨
        (color edge.target = some .black ∧
          g.turn ⟨color, (node, edgeIdx) :: rest⟩ = .next ⟨color, (node, edgeIdx + 1) :: rest⟩)) := by
  cases hEdge : (g.edgesFrom node)[edgeIdx]? with
  | none => exact .inl ⟨rfl, by simp only [turn, hEdge]⟩
  | some edge =>
    refine .inr ⟨edge, rfl, ?_⟩
    cases hColor : color edge.target with
    | none => exact .inr (.inl ⟨.inr rfl, by simp only [turn, hEdge, hColor, Option.getD_none]⟩)
    | some c =>
      cases c with
      | grey => exact .inl ⟨rfl, by simp only [turn, hEdge, hColor, Option.getD_some]⟩
      | white => exact .inr (.inl ⟨.inl rfl, by simp only [turn, hEdge, hColor, Option.getD_some]⟩)
      | black => exact .inr (.inr ⟨rfl, by simp only [turn, hEdge, hColor, Option.getD_some]⟩)

variable {color : Table Color} {node : NodeId} {edgeIdx : Nat} {rest : List (NodeId × Nat)}
  {edge : Edge E}

theorem Traced.cycle (h : g.Traced ⟨color, (node, edgeIdx) :: rest⟩ done)
    (hEdge : (g.edgesFrom node)[edgeIdx]? = some edge) (hGrey : color edge.target = some .grey) :
    TransGen g.Leads node node := by
  have hLeads := leads_of_edge hEdge
  rcases List.mem_cons.mp ((h.grey edge.target).mp hGrey) with hSelf | hBelow
  · rw [hSelf] at hLeads
    exact .single hLeads
  · exact .head hLeads (h.explored.2.2.path hBelow)

theorem Traced.finish (h : g.Traced ⟨color, (node, edgeIdx) :: rest⟩ done)
    (hEnd : (g.edgesFrom node)[edgeIdx]? = none) :
    g.Traced ⟨Function.update color node (some .black), rest⟩ (node :: done) := by
  obtain ⟨hNotBelow, hNodup⟩ := List.nodup_cons.mp h.nodup
  have hNode : color node = some .grey := (h.grey node).mpr List.mem_cons_self
  have hFresh : node ∉ done := fun hDone => by
    have hBlack : color node = some .black := (h.black node).mpr hDone
    rw [hNode] at hBlack
    cases hBlack
  have hAll : (g.successors node).take edgeIdx = g.successors node :=
    List.take_of_length_le (by
      rw [successors, List.length_map]
      exact List.getElem?_eq_none_iff.mp hEnd)
  constructor
  case known =>
    intro id
    by_cases hSame : id = node
    · subst hSame
      rw [← h.known]
      simp [hNode]
    · rw [← h.known]
      simp [Function.update_of_ne hSame]
  case black =>
    intro id
    by_cases hSame : id = node
    · simp [hSame]
    · simp [hSame, ← h.black id]
  case grey =>
    intro id
    by_cases hSame : id = node
    · subst hSame
      simpa using hNotBelow
    · have hOld := h.grey id
      simp only [List.map_cons, List.mem_cons, hSame, false_or] at hOld
      simp only [Function.update_of_ne hSame, hOld]
  case nodup => exact hNodup
  case doneNodup => exact List.nodup_cons.mpr ⟨hFresh, h.doneNodup⟩
  case ordered =>
    refine ⟨fun t ht => ?_, h.ordered⟩
    rw [Leads, ← hAll] at ht
    exact (h.explored.1 t ht).resolve_right (by simp)
  case explored => exact h.explored.2.2.finished

theorem Traced.push (hClosed : g.Closed) (h : g.Traced ⟨color, (node, edgeIdx) :: rest⟩ done)
    (hEdge : (g.edgesFrom node)[edgeIdx]? = some edge)
    (hNew : color edge.target ≠ some .grey ∧ color edge.target ≠ some .black) :
    g.Traced ⟨Function.update color edge.target (some .grey),
      (edge.target, 0) :: (node, edgeIdx + 1) :: rest⟩ done := by
  have hLeads := leads_of_edge hEdge
  have hNotOn : edge.target ∉ (((node, edgeIdx) :: rest).map Prod.fst) := fun hOn =>
    hNew.1 ((h.grey _).mpr hOn)
  constructor
  case known =>
    intro id
    by_cases hSame : id = edge.target
    · subst hSame
      rw [hClosed.target hLeads]
      simp
    · rw [← h.known]
      simp [Function.update_of_ne hSame]
  case black =>
    intro id
    by_cases hSame : id = edge.target
    · subst hSame
      rw [← h.black]
      simp [hNew.2]
    · simp only [Function.update_of_ne hSame]
      exact h.black id
  case grey =>
    intro id
    by_cases hSame : id = edge.target
    · simp [hSame]
    · have hOld := h.grey id
      simp only [List.map_cons, List.mem_cons] at hOld
      simp only [Function.update_of_ne hSame, List.map_cons, List.mem_cons, hSame, false_or]
      exact hOld
  case nodup => exact List.nodup_cons.mpr ⟨hNotOn, h.nodup⟩
  case doneNodup => exact h.doneNodup
  case ordered => exact h.ordered
  case explored =>
    refine ⟨by simp, by simp, fun t ht => ?_, fun t ht => ?_, h.explored.2.2⟩
    · rw [successors_take node edgeIdx hEdge] at ht
      rcases List.mem_append.mp ht with ht | ht
      · exact .inl ((h.explored.1 t ht).resolve_right (by simp))
      · exact .inr (congrArg some (List.mem_singleton.mp ht).symm)
    · cases ht
      exact hLeads

theorem Traced.skip (h : g.Traced ⟨color, (node, edgeIdx) :: rest⟩ done)
    (hEdge : (g.edgesFrom node)[edgeIdx]? = some edge) (hBlack : color edge.target = some .black) :
    g.Traced ⟨color, (node, edgeIdx + 1) :: rest⟩ done where
  known := h.known
  black := h.black
  grey := h.grey
  nodup := h.nodup
  doneNodup := h.doneNodup
  ordered := h.ordered
  explored := by
    refine ⟨fun t ht => ?_, by simp, h.explored.2.2⟩
    rw [successors_take node edgeIdx hEdge] at ht
    rcases List.mem_append.mp ht with ht | ht
    · exact h.explored.1 t ht
    · rw [List.mem_singleton.mp ht]
      exact .inl ((h.black _).mp hBlack)

def cost (g : Graph N E) (id : NodeId) (edgeIdx : Nat) : Nat := (g.edgesFrom id).length - edgeIdx + 1

/-- A bound of the turns that are still to come. -/
@[grind =] def remaining (g : Graph N E) (keys : List NodeId) (s : Search) : Nat :=
  (keys.map fun id => if s.color id = some .white then g.cost id 0 else 0).sum +
    (s.stack.map fun entry => g.cost entry.1 entry.2).sum

theorem sum_update {keys : List NodeId} (hNodup : keys.Nodup) {id : NodeId} (hMem : id ∈ keys)
    {f f' : NodeId → Nat} (hOther : ∀ a, a ≠ id → f' a = f a) :
    (keys.map f).sum + f' id = (keys.map f').sum + f id := by
  induction keys with
  | nil => cases hMem
  | cons a keys ih =>
    obtain ⟨hFresh, hNodup⟩ := List.nodup_cons.mp hNodup
    simp only [List.map_cons, List.sum_cons]
    by_cases hSame : a = id
    · subst hSame
      have hRest : keys.map f' = keys.map f :=
        List.map_congr_left fun b hb => hOther b fun hSame => hFresh (hSame ▸ hb)
      rw [hRest]
      omega
    · have hRest := ih hNodup ((List.mem_cons.mp hMem).resolve_left (Ne.symm hSame))
      rw [hOther a hSame]
      omega

theorem cost_succ {node : NodeId} {edgeIdx : Nat} {edge : Edge E}
    (h : (g.edgesFrom node)[edgeIdx]? = some edge) :
    g.cost node edgeIdx = g.cost node (edgeIdx + 1) + 1 := by
  obtain ⟨hLt, -⟩ := List.getElem?_eq_some_iff.mp h
  unfold cost
  omega

theorem remaining_finish (keys : List NodeId) (hNode : color node = some .grey) :
    g.remaining keys ⟨Function.update color node (some .black), rest⟩ <
      g.remaining keys ⟨color, (node, edgeIdx) :: rest⟩ := by
  have hWhite (id : NodeId) :
      Function.update color node (some .black) id = some .white ↔ color id = some .white := by
    by_cases hSame : id = node
    · simp [hSame, hNode]
    · rw [Function.update_of_ne hSame]
  simp only [remaining, hWhite, List.map_cons, List.sum_cons, cost]
  omega

theorem remaining_push {keys : List NodeId} (hNodup : keys.Nodup) {id : NodeId} (hMem : id ∈ keys)
    (hWhite : color id = some .white) (stack : List (NodeId × Nat)) :
    g.remaining keys ⟨Function.update color id (some .grey), (id, 0) :: stack⟩ =
      g.remaining keys ⟨color, stack⟩ := by
  have hOther (a : NodeId) (ha : a ≠ id) :
      (fun a => if Function.update color id (some .grey) a = some .white then g.cost a 0 else 0) a =
        (fun a => if color a = some .white then g.cost a 0 else 0) a := by
    simp only [Function.update_of_ne ha]
  have hSum := sum_update hNodup hMem hOther
  simp only [Function.update_self, hWhite, if_true, reduceCtorEq, Option.some.injEq, if_false] at hSum
  simp only [remaining, List.map_cons, List.sum_cons]
  omega

theorem remaining_step (keys : List NodeId) (hEdge : (g.edgesFrom node)[edgeIdx]? = some edge) :
    g.remaining keys ⟨color, (node, edgeIdx + 1) :: rest⟩ <
      g.remaining keys ⟨color, (node, edgeIdx) :: rest⟩ := by
  have hCost := cost_succ hEdge
  simp only [remaining, List.map_cons, List.sum_cons]
  omega

theorem white_of_new (h : g.Traced s done) {id : NodeId} (hMem : g.contains id = true)
    (hNew : s.color id = some .white ∨ s.color id = none) : s.color id = some .white := by
  refine hNew.resolve_right fun hNone => ?_
  have hKnown := h.known id
  rw [hNone, hMem] at hKnown
  cases hKnown

theorem Traced.turn (hClosed : g.Closed) {keys : List NodeId} (hNodup : keys.Nodup)
    (hKeys : ∀ id, id ∈ keys ↔ g.contains id = true) (h : g.Traced s done) :
    (g.turn s = .found ∧ ∃ id, TransGen g.Leads id id) ∨
    (g.turn s = .ended s.color ∧ s.stack = []) ∨
    ∃ s' done', g.turn s = .next s' ∧ g.Traced s' done' ∧
      (∀ id, s.color id ≠ some .white → s'.color id ≠ some .white) ∧
      g.remaining keys s' < g.remaining keys s := by
  obtain ⟨color, stack⟩ := s
  cases stack with
  | nil => exact .inr (.inl ⟨rfl, rfl⟩)
  | cons entry rest =>
    obtain ⟨node, edgeIdx⟩ := entry
    rcases turn_cases g color node edgeIdx rest with
      ⟨hEnd, hTurn⟩ | ⟨edge, hEdge, ⟨hGrey, hTurn⟩ | ⟨hNew, hTurn⟩ | ⟨hBlack, hTurn⟩⟩
    · refine .inr (.inr ⟨_, _, hTurn, h.finish hEnd, fun id hid => ?_, ?_⟩)
      · by_cases hSame : id = node
        · simp [hSame]
        · simpa [Function.update_of_ne hSame] using hid
      · exact remaining_finish keys ((h.grey node).mpr List.mem_cons_self)
    · exact .inl ⟨hTurn, node, h.cycle hEdge hGrey⟩
    · have hTarget := hClosed.target (leads_of_edge hEdge)
      have hWhite : color edge.target = some .white := white_of_new h hTarget hNew
      refine .inr (.inr ⟨_, _, hTurn, h.push hClosed hEdge (by simp [hWhite]), fun id hid => ?_, ?_⟩)
      · by_cases hSame : id = edge.target
        · simp [hSame]
        · simpa [Function.update_of_ne hSame] using hid
      · rw [remaining_push hNodup ((hKeys _).mpr hTarget) hWhite]
        exact remaining_step keys hEdge
    · exact .inr (.inr ⟨_, _, hTurn, h.skip hEdge hBlack, fun _ => id, remaining_step keys hEdge⟩)

theorem Traced.search (hClosed : g.Closed) {keys : List NodeId} (hNodup : keys.Nodup)
    (hKeys : ∀ id, id ∈ keys ↔ g.contains id = true) {turns : Nat} (h : g.Traced s done)
    (hTurns : g.remaining keys s < turns) :
    (g.search turns s = some none ∧ ∃ id, TransGen g.Leads id id) ∨
    ∃ color done', g.search turns s = some (some color) ∧ g.Traced ⟨color, []⟩ done' ∧
      ∀ id, s.color id ≠ some .white → color id ≠ some .white := by
  induction turns generalizing s done with
  | zero => omega
  | succ turns ih =>
    rcases h.turn hClosed hNodup hKeys with
      ⟨hTurn, hCycle⟩ | ⟨hTurn, hEmpty⟩ | ⟨s', done', hTurn, hNext, hSeen, hLess⟩
    · exact .inl ⟨by simp only [Graph.search, hTurn], hCycle⟩
    · obtain ⟨color, stack⟩ := s
      obtain rfl : stack = [] := hEmpty
      exact .inr ⟨color, done, by simp only [Graph.search, hTurn], h, fun _ => id⟩
    · have hSearch : g.search (turns + 1) s = g.search turns s' := by simp only [Graph.search, hTurn]
      rw [hSearch]
      refine (ih hNext (by omega)).imp_right ?_
      rintro ⟨color, done'', hEnd, hTraced, hSeen'⟩
      exact ⟨color, done'', hEnd, hTraced, fun id hid => hSeen' id (hSeen id hid)⟩

theorem Traced.start {start : NodeId} (h : g.Traced ⟨color, []⟩ done) (hMem : g.contains start = true)
    (hWhite : color start = some .white) :
    g.Traced ⟨Function.update color start (some .grey), [(start, 0)]⟩ done where
  known id := by
    by_cases hSame : id = start
    · simp [hSame, hMem]
    · simpa [Function.update_of_ne hSame] using h.known id
  black id := by
    by_cases hSame : id = start
    · have hOld := h.black start
      simp only [hWhite] at hOld
      simpa [hSame] using hOld
    · simpa [Function.update_of_ne hSame] using h.black id
  grey id := by
    by_cases hSame : id = start
    · simp [hSame]
    · simpa [Function.update_of_ne hSame, hSame] using h.grey id
  nodup := List.nodup_singleton start
  doneNodup := h.doneNodup
  ordered := h.ordered
  explored := ⟨by simp, by simp, trivial⟩

theorem remaining_le (keys : List NodeId) (color : Table Color) :
    g.remaining keys ⟨color, []⟩ ≤ (keys.map fun id => g.cost id 0).sum := by
  simp only [remaining, List.map_nil, List.sum_nil, Nat.add_zero]
  refine List.sum_le_sum fun id _ => ?_
  split <;> omega

theorem Traced.searchFrom (hClosed : g.Closed) {keys : List NodeId} (hNodup : keys.Nodup)
    (hKeys : ∀ id, id ∈ keys ↔ g.contains id = true) {turns : Nat}
    (hTurns : (keys.map fun id => g.cost id 0).sum < turns) {starts : List NodeId}
    (hStarts : ∀ id ∈ starts, g.contains id = true) (h : g.Traced ⟨color, []⟩ done) :
    (g.searchFrom turns starts color = some true ∧ ∃ id, TransGen g.Leads id id) ∨
    (g.searchFrom turns starts color = some false ∧ ∃ color' done', g.Traced ⟨color', []⟩ done' ∧
      (∀ id ∈ starts, color' id ≠ some .white) ∧
      ∀ id, color id ≠ some .white → color' id ≠ some .white) := by
  induction starts generalizing color done with
  | nil => exact .inr ⟨rfl, color, done, h, by simp, fun _ => id⟩
  | cons start starts ih =>
    have hMem : g.contains start = true := hStarts start List.mem_cons_self
    have hRest (id : NodeId) (hid : id ∈ starts) := hStarts id (List.mem_cons_of_mem _ hid)
    have hKnown := h.known start
    rw [hMem] at hKnown
    obtain ⟨c, hc : color start = some c⟩ := Option.isSome_iff_exists.mp hKnown
    by_cases hWhite : c = .white
    · subst hWhite
      have hLess := remaining_push (g := g) hNodup ((hKeys start).mpr hMem) hc []
      have hLe := remaining_le (g := g) keys color
      rcases (h.start hMem hc).search hClosed hNodup hKeys (hLess.trans_lt (hLe.trans_lt hTurns)) with
        ⟨hFound, hCycle⟩ | ⟨color', done', hEnd, hTraced, hSeen⟩
      · exact .inl ⟨by simp only [Graph.searchFrom, hc, hFound], hCycle⟩
      · have hFrom : g.searchFrom turns (start :: starts) color = g.searchFrom turns starts color' := by
          simp only [Graph.searchFrom, hc, hEnd]
        rw [hFrom]
        refine (ih hRest hTraced).imp_right ?_
        rintro ⟨hFalse, color'', done'', hTraced', hAll, hSeen'⟩
        have hStart : color' start ≠ some .white := hSeen start (by simp)
        refine ⟨hFalse, color'', done'', hTraced', fun id hid => ?_, fun id hid => hSeen' id ?_⟩
        · rcases List.mem_cons.mp hid with rfl | hid
          · exact hSeen' id hStart
          · exact hAll id hid
        · refine hSeen id ?_
          by_cases hSame : id = start
          · simp [hSame]
          · simpa only [Function.update_of_ne hSame] using hid
    · have hFrom : g.searchFrom turns (start :: starts) color = g.searchFrom turns starts color := by
        cases c with
        | white => exact absurd rfl hWhite
        | grey => simp only [Graph.searchFrom, hc]
        | black => simp only [Graph.searchFrom, hc]
      rw [hFrom]
      refine (ih hRest h).imp_right ?_
      rintro ⟨hFalse, color', done', hTraced, hAll, hSeen⟩
      refine ⟨hFalse, color', done', hTraced, fun id hid => ?_, hSeen⟩
      rcases List.mem_cons.mp hid with rfl | hid
      · exact hSeen id (by simp [hc, hWhite])
      · exact hAll id hid

theorem Traced.acyclic (hClosed : g.Closed) (h : g.Traced ⟨color, []⟩ done)
    (hAll : ∀ id, g.contains id = true → color id ≠ some .white) : Acyclic g.Leads := by
  refine h.ordered.acyclic h.doneNodup fun a b hLeads => (h.black a).mp ?_
  have hMem := hClosed.source hLeads
  have hKnown := h.known a
  rw [hMem] at hKnown
  obtain ⟨c, hc : color a = some c⟩ := Option.isSome_iff_exists.mp hKnown
  cases c with
  | white => exact absurd hc (hAll a hMem)
  | grey => simpa using (h.grey a).mp hc
  | black => exact hc

def searchTurns (g : Graph N E) : Nat := (g.nodes.keys.map fun id => g.cost id 0).sum + 1

theorem mem_keys_iff {keys : List NodeId} (hKeys : keys.Perm g.nodes.keys) (id : NodeId) :
    id ∈ keys ↔ g.contains id = true := by
  rw [hKeys.mem_iff, contains_iff]
  exact Iff.rfl

theorem hasCycle_spec (hClosed : g.Closed) {keys : List NodeId} (hKeys : keys.Perm g.nodes.keys)
    {turns : Nat} (hTurns : g.searchTurns ≤ turns) :
    (g.hasCycle keys turns = some true ∧ ¬ Acyclic g.Leads) ∨
      (g.hasCycle keys turns = some false ∧ Acyclic g.Leads) := by
  have hStart : g.Traced ⟨fun id => if g.contains id then some .white else none, []⟩ [] :=
    { known := fun id => by
        cases hMem : g.contains id with
        | false => simp [hMem]
        | true => simp [hMem]
      black := fun id => by simp
      grey := fun id => by simp
      nodup := List.nodup_nil
      doneNodup := List.nodup_nil
      ordered := trivial
      explored := trivial }
  have hMem := mem_keys_iff hKeys
  have hSum : (keys.map fun id => g.cost id 0).sum < turns := by
    rw [(hKeys.map _).sum_eq]
    exact hTurns
  rcases hStart.searchFrom hClosed (hKeys.nodup_iff.mpr g.nodes.nodupKeys) hMem hSum
      (fun id => (hMem id).mp) with ⟨hTrue, id, hCycle⟩ | ⟨hFalse, color', done', hTraced, hAll, -⟩
  · exact .inl ⟨hTrue, fun hAcyclic => hAcyclic id hCycle⟩
  · exact .inr ⟨hFalse, hTraced.acyclic hClosed fun id hid => hAll id ((hMem id).mpr hid)⟩

end Cronygraph.Graph
