import Cronymax.Cronygraph.DepthFirst
import Cronymax.Cronygraph.Topological

/-! The graphs on which the engine needs no limit.  Without cycles every run ends, whatever its steps
return.  On a cycle there are steps that walk for ever. -/

namespace Cronygraph.Orchestrator

open Precedence Relation

variable {W S E : Type} {o : Orchestrator (StateM W) S E} {limits : StepLimits} {w w' : Walk S}
  {world world' : W}

/-- From some fuel on the loop has a result, always the same. -/
def Ends (o : Orchestrator (StateM W) S E) (limits : StepLimits) (w : Walk S) (world : W) : Prop :=
  ∃ turns r, ∀ fuel ≥ turns, ((o.loop limits fuel w).run world).1 = some r

theorem Ends.now {r : Except (RunError E) (RunOutcome S)}
    (h : ∀ fuel, ((o.loop limits (fuel + 1) w).run world).1 = some r) : o.Ends limits w world := by
  refine ⟨1, r, fun fuel hFuel => ?_⟩
  obtain ⟨fuel, rfl⟩ := Nat.exists_eq_add_of_le' hFuel
  exact h fuel

theorem Ends.turn (hBelow : limits.maxSteps.any (· ≤ w.visitedCount) = false)
    (hTurn : (o.turn limits w).run world = (.ok (.inl w'), world')) (h : o.Ends limits w' world') :
    o.Ends limits w world := by
  obtain ⟨turns, r, hEnds⟩ := h
  refine ⟨turns + 1, r, fun fuel hFuel => ?_⟩
  obtain ⟨fuel, rfl⟩ := Nat.exists_eq_add_of_le' (Nat.le_trans (Nat.le_add_left 1 turns) hFuel)
  rw [(loop_goes fuel hBelow hTurn).1]
  exact hEnds fuel (Nat.le_of_succ_le_succ hFuel)

/-- The walk ends from the branches that are queued. -/
def Drains (o : Orchestrator (StateM W) S E) (limits : StepLimits) (pending : List (S × NodeId)) : Prop :=
  ∀ next rest count trace world, pending = next :: rest →
    o.Ends limits ⟨next.1, next.2, rest, count, trace⟩ world

/-- The walk ends from the node, whatever is queued behind it. -/
def Leaves (o : Orchestrator (StateM W) S E) (limits : StepLimits) (node : NodeId) : Prop :=
  ∀ state pending count trace world, o.Drains limits pending →
    o.Ends limits ⟨state, node, pending, count, trace⟩ world

theorem drains_branch {s : S} {next : List NodeId} {pending : List (S × NodeId)}
    (hNext : ∀ n ∈ next, o.Leaves limits n) (h : o.Drains limits pending) :
    o.Drains limits (next.map (fun n => (s, n)) ++ pending) := by
  induction next with
  | nil => exact h
  | cons n next ih =>
    rintro - - count trace world ⟨⟩
    exact hNext n List.mem_cons_self s _ count trace world
      (ih fun n hn => hNext n (List.mem_cons_of_mem _ hn))

theorem ends_of_resume {s : S} {reason : TerminalReason} (hDrains : o.Drains limits (enter w).pending)
    (hBelow : limits.maxSteps.any (· ≤ w.visitedCount) = false)
    (hTurn : (o.turn limits w).run world = (.ok (resume (enter w) s reason), world')) :
    o.Ends limits w world := by
  rw [resume] at hTurn
  split at hTurn
  · exact .now fun fuel => (loop_ends fuel hBelow hTurn).1
  · rename_i resumed node rest hPending
    exact .turn hBelow hTurn (hDrains (resumed, node) rest _ _ world' hPending)

theorem leaves_of_successors {node : NodeId}
    (hNext : ∀ n ∈ o.graph.successors node, o.Leaves limits n) : o.Leaves limits node := by
  intro state pending count trace world hDrains
  cases hBelow : limits.maxSteps.any (· ≤ count) with
  | true =>
    refine .now (r := .error (.stepLimitExceeded (limits.maxSteps.getD 0))) fun fuel => ?_
    rw [loop, turn, if_pos hBelow]
    rfl
  | false =>
    rcases o.turn_cases (w := ⟨state, node, pending, count, trace⟩) world hBelow with ⟨-, -, hTurn⟩ |
      ⟨source, world', -, hTurn⟩ | ⟨t, world', -, hTurn⟩
    · exact .now fun fuel => (loop_error fuel hBelow hTurn).1
    · exact .now fun fuel => (loop_error fuel hBelow hTurn).1
    · cases t with
      | terminal s reason => exact ends_of_resume hDrains hBelow hTurn
      | goto s next =>
        by_cases hEdge : next ∈ o.graph.successors node
        · rw [follow, checkEdge, enter, if_pos hEdge] at hTurn
          exact .turn hBelow hTurn (hNext next hEdge s pending _ _ world' hDrains)
        · rw [follow, checkEdge, enter, if_neg hEdge] at hTurn
          exact .now fun fuel => (loop_error fuel hBelow hTurn).1
      | branch s next =>
        cases next with
        | nil => exact ends_of_resume hDrains hBelow hTurn
        | cons head rest =>
          rcases o.checkEdges node (head :: rest) with ⟨hAll, hOk⟩ | ⟨-, n, -, -, -, -, hError⟩
          · rw [follow, enter, hOk] at hTurn
            have hLeaves : ∀ n ∈ head :: rest, o.Leaves limits n := fun n hn => hNext n (hAll n hn)
            obtain ⟨hHead, hRest⟩ := List.forall_mem_cons.mp hLeaves
            exact .turn hBelow hTurn (hHead s _ _ _ world' (drains_branch hRest hDrains))
          · rw [follow, enter, hError] at hTurn
            exact .now fun fuel => (loop_error fuel hBelow hTurn).1

theorem run_ends (hClosed : o.graph.Closed) (hAcyclic : Acyclic o.graph.Leads) (state : S)
    (limits : StepLimits) (world : W) :
    ∃ turns r, ∀ fuel ≥ turns, ((o.run fuel state limits).run world).1 = some r := by
  have hLeaves : ∀ n ∈ o.graph.nodes.keys, o.Leaves limits n :=
    hAcyclic.list_induction fun n _ ih => leaves_of_successors fun next hNext =>
      ih next (Graph.contains_iff.mp (hClosed.target hNext)) hNext
  cases hEntry : o.entry with
  | none => exact ⟨0, .error .noEntryNode, fun fuel _ => by rw [run, hEntry]; rfl⟩
  | some entry =>
    cases hNode : o.graph.contains entry with
    | false =>
      exact ⟨0, .error (.graph (.unknownNode entry)), fun fuel _ => by simp only [run, hEntry, hNode]; rfl⟩
    | true =>
      obtain ⟨turns, r, hEnds⟩ := hLeaves entry (Graph.contains_iff.mp hNode) state [] 0 [] world
        fun next rest _ _ _ h => by cases h
      refine ⟨turns, r, fun fuel hFuel => ?_⟩
      simp only [run, hEntry, hNode]
      exact hEnds fuel hFuel

/-- The orchestrator on the nodes and edges of a graph, with its own step at each node. -/
def withSteps {N : Type} (g : Graph N Unit) (steps : NodeId → Step (StateM W) S E) (entry : NodeId) :
    Orchestrator (StateM W) S E where
  graph := ⟨⟨g.nodes.entries.map (.map id fun n _ => steps n), g.nodes.nodupKeys.map₂ _ _⟩, g.adjacency⟩
  entry := some entry

section Shape

variable {N : Type} {g : Graph N Unit} {steps : NodeId → Step (StateM W) S E} {entry : NodeId}

theorem node_withSteps (n : NodeId) :
    (withSteps g steps entry).graph.node n = (g.node n).map fun _ => steps n :=
  List.dlookup_map₂ n

theorem contains_withSteps (n : NodeId) :
    (withSteps g steps entry).graph.contains n = g.contains n := by
  rw [Graph.contains, node_withSteps, Option.isSome_map, Graph.contains]

theorem closed_withSteps (h : g.Closed) : (withSteps g steps entry).graph.Closed where
  source hLeads := (contains_withSteps _).trans (h.source hLeads)
  target hLeads := (contains_withSteps _).trans (h.target hLeads)

theorem run_withSteps (hEntry : g.contains entry = true) (fuel : Nat) (state : S) (limits : StepLimits) :
    (withSteps g steps entry).run fuel state limits =
      (withSteps g steps entry).loop limits fuel ⟨state, entry, [], 0, []⟩ :=
  if_neg (by rw [contains_withSteps, hEntry]; exact Bool.false_ne_true)

/-- The step that goes on to the next node. -/
def roam (next : NodeId → NodeId) (n : NodeId) : Step (StateM W) S E :=
  ⟨"roam", fun s => pure (.ok (.goto s (next n)))⟩

theorem loop_roams (hClosed : g.Closed) {next : NodeId → NodeId} {Cyclic : NodeId → Prop}
    (hNext : ∀ n, Cyclic n → g.Leads n (next n) ∧ Cyclic (next n)) (fuel : Nat) (w : Walk S) (world : W)
    (hCurrent : Cyclic w.current) :
    (((withSteps g (roam (E := E) next) entry).loop ⟨none⟩ fuel w).run world).1 = none := by
  induction fuel generalizing w with
  | zero => rfl
  | succ fuel ih =>
    obtain ⟨hLeads, hCyclic⟩ := hNext w.current hCurrent
    obtain ⟨payload, hNode⟩ := Option.isSome_iff_exists.mp (hClosed.source hLeads)
    have hTurn : ((withSteps g (roam (E := E) next) entry).turn ⟨none⟩ w).run world =
        (.ok (.inl { enter w with current := next w.current }), world) := by
      have hEdge : (withSteps (W := W) (S := S) (E := E) g (roam next) entry).checkEdge w.current
          (next w.current) = .ok () := by
        rw [checkEdge]
        exact if_pos hLeads
      simp only [turn, node_withSteps, hNode, Option.map_some, roam, Option.any_none, Bool.false_eq_true,
        if_false, pure_bind, follow, hEdge]
      rfl
    rw [(loop_goes fuel rfl hTurn).1]
    exact ih _ hCyclic

/-- `has_cycle` tells the graphs on which a run without a limit of steps ends, whatever its steps return
and wherever it starts. -/
theorem unlimited_iff [Inhabited S] [Inhabited W] (h : g.Built) {keys : List NodeId}
    (hKeys : keys.Perm g.nodes.keys) {turns : Nat} (hTurns : g.searchTurns ≤ turns) :
    g.hasCycle keys turns = some false ↔
      ∀ (steps : NodeId → Step (StateM W) S E) (entry : NodeId) (state : S) (world : W),
        ∃ bound r, ∀ fuel ≥ bound,
          (((withSteps g steps entry).run fuel state ⟨none⟩).run world).1 = some r := by
  rcases Graph.hasCycle_spec h.closed hKeys hTurns with ⟨hCheck, hCyclic⟩ | ⟨hCheck, hAcyclic⟩
  · rw [hCheck]
    refine ⟨nofun, fun hEnds => absurd ?_ hCyclic⟩
    intro a hCycle
    have hSome (n : NodeId) (hn : TransGen g.Leads n a) : ∃ b, g.Leads n b ∧ TransGen g.Leads b a := by
      obtain ⟨b, hLeads, hRest⟩ := TransGen.head'_iff.mp hn
      exact ⟨b, hLeads, TransGen.trans_right hRest hCycle⟩
    choose! next hNext using hSome
    obtain ⟨bound, r, hResult⟩ := hEnds (roam next) a default default
    have hRun := hResult bound le_rfl
    rw [run_withSteps (h.closed.source (hNext a hCycle).1), loop_roams h.closed hNext bound _ default hCycle] at hRun
    cases hRun
  · rw [hCheck]
    exact ⟨fun _ steps entry state world => run_ends (closed_withSteps h.closed) hAcyclic state ⟨none⟩ world,
      fun _ => rfl⟩

theorem parallel_ends : Graph.parallel.hasCycle [2, 1] 5 = some false ∧
    ∀ (steps : NodeId → Step (StateM Unit) Nat String) (entry : NodeId) (state : Nat) (world : Unit),
      ∃ bound r, ∀ fuel ≥ bound,
        (((withSteps Graph.parallel steps entry).run fuel state ⟨none⟩).run world).1 = some r :=
  ⟨rfl, (@unlimited_iff Unit Nat String Unit Graph.parallel _ _ Graph.built_parallel [2, 1] (by decide) 5
    (by decide)).mp rfl⟩

end Shape

end Cronygraph.Orchestrator
