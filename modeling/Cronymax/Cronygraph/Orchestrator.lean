import Cronymax.Cronygraph.Graph

/-! The orchestration engine: it walks a graph of steps with a typed state.  A step may act in a
monad `m` besides returning its transition.  `run` is the source's loop with a bound on the number
of turns; a walk that reaches the bound has no outcome. -/

namespace Cronygraph

inductive TerminalReason where
  | completed
  | cancelled
  | custom (reason : String)
deriving DecidableEq

/-- `Transition`: what a step leads to. -/
inductive Transition (S : Type) where
  | goto (state : S) (next : NodeId)
  | branch (state : S) (next : List NodeId)
  | terminal (state : S) (reason : TerminalReason)

structure Step (m : Type → Type) (S E : Type) where
  label : String
  execute : S → m (Except E (Transition S))

structure StepLimits where
  maxSteps : Option Nat

structure RunOutcome (S : Type) where
  finalState : S
  reason : TerminalReason
  trace : List NodeId

inductive RunError (E : Type) where
  | graph (e : GraphError)
  | step (node : NodeId) (source : E)
  | stepLimitExceeded (limit : Nat)
  | invalidNextNode (node : NodeId)
  | noEntryNode

/-- `Orchestrator`. -/
structure Orchestrator (m : Type → Type) (S E : Type) where
  graph : Graph (Step m S E) Unit
  entry : Option NodeId

/-- The variables of the loop of `run`. -/
structure Walk (S : Type) where
  state : S
  current : NodeId
  pending : List (S × NodeId)
  visitedCount : Nat
  trace : List NodeId

namespace Orchestrator

variable {m : Type → Type} [Monad m] {S E : Type}

def new : Orchestrator m S E := ⟨.new, none⟩

def addStep (o : Orchestrator m S E) (id : NodeId) (step : Step m S E) : Orchestrator m S E :=
  { o with graph := o.graph.addNode id step }

/-- `allow_transition`. -/
def allowTransition (o : Orchestrator m S E) (source target : NodeId) :
    Except GraphError (Orchestrator m S E) :=
  (o.graph.addEdge source target ()).map fun graph => { o with graph }

def setEntry (o : Orchestrator m S E) (entry : NodeId) : Orchestrator m S E :=
  { o with entry := some entry }

/-- `check_edge`. -/
@[grind =] def checkEdge (o : Orchestrator m S E) (source target : NodeId) : Except (RunError E) Unit :=
  if target ∈ o.graph.successors source then .ok () else .error (.invalidNextNode target)

/-- The end of a branch: the next one that is pending, or the end of the run. -/
def resume (w : Walk S) (state : S) (reason : TerminalReason) : Walk S ⊕ RunOutcome S :=
  match w.pending with
  | [] => .inr ⟨state, reason, w.trace⟩
  | (resumed, node) :: rest => .inl { w with state := resumed, current := node, pending := rest }

/-- One turn of the loop, after its step has returned. -/
@[grind =] def follow (o : Orchestrator m S E) (w : Walk S) :
    Transition S → Except (RunError E) (Walk S ⊕ RunOutcome S)
  | .goto state next => do
    o.checkEdge w.current next
    .ok (.inl { w with state, current := next })
  | .branch state [] => .ok (resume w state .completed)
  | .branch state (head :: rest) => do
    forM (head :: rest) (o.checkEdge w.current)
    .ok (.inl { w with
      state, current := head, pending := rest.map (fun n => (state, n)) ++ w.pending })
  | .terminal state reason => .ok (resume w state reason)

/-- One turn of the loop of `run`. -/
@[grind =] def turn (o : Orchestrator m S E) (limits : StepLimits) (w : Walk S) :
    m (Except (RunError E) (Walk S ⊕ RunOutcome S)) :=
  if limits.maxSteps.any (· ≤ w.visitedCount) then
    pure (.error (.stepLimitExceeded (limits.maxSteps.getD 0)))
  else
    let w := { w with visitedCount := w.visitedCount + 1, trace := w.trace ++ [w.current] }
    match o.graph.node w.current with
    | none => pure (.error (.graph (.unknownNode w.current)))
    | some step => do
      match ← step.execute w.state with
      | .error source => pure (.error (.step w.current source))
      | .ok transition => pure (o.follow w transition)

/-- The loop of `run`. -/
@[grind =] def loop (o : Orchestrator m S E) (limits : StepLimits) :
    Nat → Walk S → m (Option (Except (RunError E) (RunOutcome S)))
  | 0, _ => pure none
  | fuel + 1, w => do
    match ← o.turn limits w with
    | .error e => pure (some (.error e))
    | .ok (.inr outcome) => pure (some (.ok outcome))
    | .ok (.inl w) => loop o limits fuel w

/-- `run`: as many turns as there is fuel. -/
@[grind =] def run (o : Orchestrator m S E) (fuel : Nat) (state : S) (limits : StepLimits) :
    m (Option (Except (RunError E) (RunOutcome S))) :=
  match o.entry with
  | none => pure (some (.error .noEntryNode))
  | some entry =>
    if !o.graph.contains entry then pure (some (.error (.graph (.unknownNode entry))))
    else o.loop limits fuel ⟨state, entry, [], 0, []⟩

/-- A step that performs `act` and ends its path. -/
def Leaf (step : Step m S E) (state : S) (act : m PUnit) : Prop :=
  ∃ reason, step.execute state = act >>= fun _ => pure (.ok (.terminal state reason))

variable [LawfulMonad m]

theorem turn_leaf {o : Orchestrator m S E} {w : Walk S} {step : Step m S E} {act : m PUnit}
    (hNode : o.graph.node w.current = some step) (hLeaf : Leaf step w.state act) :
    ∃ reason, o.turn ⟨none⟩ w = act >>= fun _ => pure (.ok (resume
      { w with visitedCount := w.visitedCount + 1, trace := w.trace ++ [w.current] }
      w.state reason)) := by
  obtain ⟨reason, hExec⟩ := hLeaf
  refine ⟨reason, ?_⟩
  simp [turn, hNode, hExec, follow]

theorem loop_leaves {o : Orchestrator m S E} {act : NodeId → m PUnit} {state : S}
    (rest : List NodeId) (current : NodeId) (visited : Nat) (trace : List NodeId) (fuel : Nat)
    (hLeaf : ∀ n ∈ current :: rest, ∃ step, o.graph.node n = some step ∧
      Leaf step state (act n)) (hFuel : rest.length < fuel) :
    ∃ outcome, o.loop ⟨none⟩ fuel
        ⟨state, current, rest.map fun n => (state, n), visited, trace⟩ =
      forM (current :: rest) act >>= fun _ => pure (some (.ok outcome)) := by
  induction rest generalizing current visited trace fuel with
  | nil =>
    obtain ⟨fuel, rfl⟩ : ∃ k, fuel = k + 1 := ⟨fuel - 1, by simp at hFuel; omega⟩
    obtain ⟨step, hNode, hStep⟩ := hLeaf current (by simp)
    obtain ⟨reason, hTurn⟩ := turn_leaf (o := o)
      (w := ⟨state, current, [], visited, trace⟩) hNode hStep
    refine ⟨⟨state, reason, trace ++ [current]⟩, ?_⟩
    simp [loop, hTurn, resume]
  | cons next rest ih =>
    obtain ⟨fuel, rfl⟩ : ∃ k, fuel = k + 1 := ⟨fuel - 1, by simp at hFuel; omega⟩
    obtain ⟨step, hNode, hStep⟩ := hLeaf current (by simp)
    obtain ⟨reason, hTurn⟩ := turn_leaf (o := o)
      (w := ⟨state, current, (next :: rest).map fun n => (state, n), visited, trace⟩) hNode hStep
    obtain ⟨outcome, hRest⟩ := ih next (visited + 1) (trace ++ [current]) fuel
      (fun n hn => hLeaf n (List.mem_cons_of_mem _ hn)) (by simp at hFuel; omega)
    refine ⟨outcome, ?_⟩
    simp only [loop, hTurn, bind_assoc, pure_bind]
    simp only [resume, List.map_cons, hRest]
    simp

theorem run_fanOut {o : Orchestrator m S E} {state : S} {entry : NodeId}
    {entryStep : Step m S E} (targets : List NodeId) (act : NodeId → m PUnit) {fuel : Nat}
    (hEntry : o.entry = some entry) (hNode : o.graph.node entry = some entryStep)
    (hExec : entryStep.execute state = pure (.ok (.branch state targets)))
    (hEdges : ∀ n ∈ targets, n ∈ o.graph.successors entry)
    (hLeaf : ∀ n ∈ targets, ∃ step, o.graph.node n = some step ∧ Leaf step state (act n))
    (hFuel : targets.length < fuel) :
    ∃ outcome, o.run fuel state ⟨none⟩ =
      forM targets act >>= fun _ => pure (some (.ok outcome)) := by
  have hContains : o.graph.contains entry = true := by simp [Graph.contains, hNode]
  have hChecks : ∀ l : List NodeId, l ⊆ targets → forM l (o.checkEdge entry) = .ok () := by
    intro l
    induction l with
    | nil => exact fun _ => rfl
    | cons n l ih =>
      intro hl
      have hn := hEdges n (hl (by simp))
      simp only [List.forM_cons, checkEdge, hn, if_true]
      exact ih fun x hx => hl (List.mem_cons_of_mem _ hx)
  obtain ⟨fuel, rfl⟩ : ∃ k, fuel = k + 1 := ⟨fuel - 1, by omega⟩
  cases targets with
  | nil =>
    refine ⟨⟨state, .completed, [entry]⟩, ?_⟩
    simp [run, hEntry, hContains, loop, turn, hNode, hExec, follow, resume]
  | cons head rest =>
    obtain ⟨outcome, hLoop⟩ := loop_leaves rest head 1 [entry] fuel hLeaf
      (by simp at hFuel; omega)
    refine ⟨outcome, ?_⟩
    have hForM := hChecks (head :: rest) (List.Subset.refl _)
    simp only [run, hEntry, hContains, loop, turn, hNode, hExec, follow, pure_bind, hForM,
      List.append_nil, Option.any_none, Bool.not_true, Bool.false_eq_true, if_false]
    exact hLoop

end Orchestrator

end Cronygraph
