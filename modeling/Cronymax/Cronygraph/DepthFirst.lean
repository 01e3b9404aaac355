import Cronymax.Cronygraph.Orchestrator

/-! The walk of the engine is depth first.  `Path` and `Siblings` define the walk by recursion on the
branches: they have no stack, and the siblings of a branch share the state that it returned.  The
loop of `run` refines them, whatever the steps return and whatever else they do. -/

namespace Cronygraph

/-- A step that has run: its node, the state it met and what it returned. -/
structure Visit (S E : Type) where
  node : NodeId
  state : S
  answer : Except E (Transition S)

/-- How a path ends. -/
inductive Ending (S E : Type) where
  | done (state : S) (reason : TerminalReason)
  | failed (e : RunError E)
  | due

namespace Orchestrator

section Spec

variable {m : Type → Type} {S E : Type}

mutual

/-- The steps of one branch, from a node on. -/
inductive Path (o : Orchestrator m S E) : NodeId → S → List (Visit S E) → Ending S E → Prop
  | due {node state} : Path o node state [] .due
  | missing {node state} (hNode : o.graph.node node = none) :
      Path o node state [] (.failed (.graph (.unknownNode node)))
  | error {node state source} : Path o node state [⟨node, state, .error source⟩]
      (.failed (.step node source))
  | goto {node state s next visits ending} (hEdge : next ∈ o.graph.successors node)
      (hNext : Path o next s visits ending) :
      Path o node state (⟨node, state, .ok (.goto s next)⟩ :: visits) ending
  | gotoUndeclared {node state s next} (hEdge : next ∉ o.graph.successors node) :
      Path o node state [⟨node, state, .ok (.goto s next)⟩] (.failed (.invalidNextNode next))
  | branchEmpty {node state s} :
      Path o node state [⟨node, state, .ok (.branch s [])⟩] (.done s .completed)
  | branch {node state s next visits ending} (hEdges : ∀ n ∈ next, n ∈ o.graph.successors node)
      (hNext : Siblings o (next.map fun n => (s, n)) visits ending) :
      Path o node state (⟨node, state, .ok (.branch s next)⟩ :: visits) ending
  | branchUndeclared {node state s declared n others}
      (hDeclared : ∀ n ∈ declared, n ∈ o.graph.successors node)
      (hEdge : n ∉ o.graph.successors node) :
      Path o node state [⟨node, state, .ok (.branch s (declared ++ n :: others))⟩]
        (.failed (.invalidNextNode n))
  | terminal {node state s reason} :
      Path o node state [⟨node, state, .ok (.terminal s reason)⟩] (.done s reason)

/-- The branches that are still to be gone, one after the other. -/
inductive Siblings (o : Orchestrator m S E) :
    List (S × NodeId) → List (Visit S E) → Ending S E → Prop
  | last {node state visits ending} (hPath : Path o node state visits ending) :
      Siblings o [(state, node)] visits ending
  | next {node state rest visits visits' s reason ending}
      (hPath : Path o node state visits (.done s reason)) (hRest : Siblings o rest visits' ending) :
      Siblings o ((state, node) :: rest) (visits ++ visits') ending
  | stop {node state rest visits ending} (hPath : Path o node state visits ending)
      (hStop : ∀ s reason, ending ≠ .done s reason) :
      Siblings o ((state, node) :: rest) visits ending

end

/-- The walk of a run from its entry node. -/
inductive WalkFrom (o : Orchestrator m S E) (state : S) : List (Visit S E) → Ending S E → Prop
  | noEntry (hEntry : o.entry = none) : WalkFrom o state [] (.failed .noEntryNode)
  | unknown {entry} (hEntry : o.entry = some entry) (hNode : o.graph.contains entry = false) :
      WalkFrom o state [] (.failed (.graph (.unknownNode entry)))
  | path {entry visits ending} (hEntry : o.entry = some entry)
      (hPath : o.Path entry state visits ending) : WalkFrom o state visits ending

end Spec

end Orchestrator

/-- What `run` answers to such an end. -/
def Ending.Answers {S E : Type} (limits : StepLimits) (fuel : Nat) (trace : List NodeId) :
    Ending S E → Option (Except (RunError E) (RunOutcome S)) → Prop
  | .done state reason, result => result = some (.ok ⟨state, reason, trace⟩)
  | .failed e, result => result = some (.error e)
  | .due, result =>
    limits.maxSteps = some trace.length ∧
        result = some (.error (.stepLimitExceeded trace.length)) ∨
      trace.length = fuel ∧ result = none

namespace Orchestrator

variable {W S E : Type}

def visit (o : Orchestrator (StateM W) S E) (w : Walk S) (world : W) : Option (Visit S E) :=
  (o.graph.node w.current).map fun step =>
    ⟨w.current, w.state, ((step.execute w.state).run world).1⟩

/-- The steps that a run executes. -/
@[grind =] def executed (o : Orchestrator (StateM W) S E) (limits : StepLimits) :
    Nat → Walk S → W → List (Visit S E)
  | 0, _, _ => []
  | fuel + 1, w, world =>
    if limits.maxSteps.any (· ≤ w.visitedCount) then []
    else (o.visit w world).toList ++
      match (o.turn limits w).run world with
      | (.ok (.inl w), world) => executed o limits fuel w world
      | _ => []

/-- The steps that `run` executes. -/
def visits (o : Orchestrator (StateM W) S E) (fuel : Nat) (state : S) (limits : StepLimits)
    (world : W) : List (Visit S E) :=
  match o.entry with
  | none => []
  | some entry =>
    if !o.graph.contains entry then []
    else o.executed limits fuel ⟨state, entry, [], 0, []⟩ world

section Siblings

variable {m : Type → Type} {o : Orchestrator m S E} {node : NodeId} {state : S}
  {visits : List (Visit S E)} {ending : Ending S E}

theorem Siblings.split {first rest : List (S × NodeId)} (hFirst : first ≠ []) (hRest : rest ≠ [])
    (h : Siblings o (first ++ rest) visits ending) :
    Siblings o first visits ending ∧ (∀ s reason, ending ≠ .done s reason) ∨
      ∃ visits₁ visits₂ s reason, visits = visits₁ ++ visits₂ ∧
        Siblings o first visits₁ (.done s reason) ∧ Siblings o rest visits₂ ending := by
  induction first generalizing visits with
  | nil => exact absurd rfl hFirst
  | cons x more ih =>
    cases more with
    | nil =>
      cases h with
      | last => exact absurd rfl hRest
      | next hPath hNext => exact .inr ⟨_, _, _, _, rfl, .last hPath, hNext⟩
      | stop hPath hStop => exact .inl ⟨.last hPath, hStop⟩
    | cons y more =>
      cases h with
      | next hPath hNext =>
        rcases ih (List.cons_ne_nil y more) hNext with ⟨hMore, hStop⟩ |
          ⟨v₁, v₂, s, reason, rfl, hMore, hLast⟩
        · exact .inl ⟨.next hPath hMore, hStop⟩
        · exact .inr ⟨_, v₂, s, reason, (List.append_assoc ..).symm, .next hPath hMore, hLast⟩
      | stop hPath hStop => exact .inl ⟨.stop hPath hStop, hStop⟩

theorem Siblings.replace {first rest : List (S × NodeId)} {v : Visit S E} (hFirst : first ≠ [])
    (hPath : ∀ {visits ending}, Siblings o first visits ending →
      Path o node state (v :: visits) ending)
    (h : Siblings o (first ++ rest) visits ending) :
    Siblings o ((state, node) :: rest) (v :: visits) ending := by
  by_cases hRest : rest = []
  · subst hRest
    rw [List.append_nil] at h
    exact .last (hPath h)
  · rcases h.split hFirst hRest with ⟨hStopped, hStop⟩ | ⟨v₁, v₂, s, reason, rfl, hDone, hLast⟩
    · exact .stop (hPath hStopped) hStop
    · exact .next (hPath hDone) hLast

theorem Siblings.path (h : Siblings o [(state, node)] visits ending) :
    Path o node state visits ending := by
  cases h with
  | last hPath | stop hPath _ => exact hPath
  | next _ hRest => cases hRest

theorem Path.head (h : Path o node state visits ending) :
    ∀ v, visits.head? = some v → v.node = node ∧ v.state = state := by
  intro v hv
  cases h with
  | due | missing _ => cases hv
  | _ =>
    cases hv
    exact ⟨rfl, rfl⟩

theorem Siblings.resume {rest : List (S × NodeId)} {s : S} {reason : TerminalReason} {v : Visit S E}
    (hPath : Path o node state [v] (.done s reason)) (h : Siblings o rest visits ending) :
    Siblings o ((state, node) :: rest) (v :: visits) ending :=
  .next hPath h

end Siblings

section Turn

variable {m : Type → Type} {o : Orchestrator m S E}

theorem checkEdges (o : Orchestrator m S E) (current : NodeId) (next : List NodeId) :
    (∀ n ∈ next, n ∈ o.graph.successors current) ∧ forM next (o.checkEdge current) = .ok () ∨
      ∃ declared n others, next = declared ++ n :: others ∧
        (∀ n ∈ declared, n ∈ o.graph.successors current) ∧ n ∉ o.graph.successors current ∧
        forM next (o.checkEdge current) = .error (.invalidNextNode n) := by
  induction next with
  | nil => exact .inl ⟨fun n hn => absurd hn List.not_mem_nil, rfl⟩
  | cons n next ih =>
    by_cases hn : n ∈ o.graph.successors current
    · have hCheck : forM (n :: next) (o.checkEdge current) = forM next (o.checkEdge current) := by
        simp only [List.forM_cons, checkEdge, hn, if_true]
        rfl
      rw [hCheck]
      rcases ih with ⟨hAll, hOk⟩ | ⟨declared, n', others, rfl, hDeclared, hn', hError⟩
      · exact .inl ⟨List.forall_mem_cons.mpr ⟨hn, hAll⟩, hOk⟩
      · exact .inr ⟨n :: declared, n', others, rfl, List.forall_mem_cons.mpr ⟨hn, hDeclared⟩, hn',
          hError⟩
    · refine .inr ⟨[], n, next, rfl, fun n hn => absurd hn List.not_mem_nil, hn, ?_⟩
      simp only [List.forM_cons, checkEdge, hn, if_false]
      rfl

/-- One turn continues the depth-first walk: it fails, ends it, or leaves the rest of it. -/
def Follows (o : Orchestrator m S E) (w : Walk S) (t : Transition S) :
    Except (RunError E) (Walk S ⊕ RunOutcome S) → Prop
  | .error e => o.Path w.current w.state [⟨w.current, w.state, .ok t⟩] (.failed e)
  | .ok (.inr outcome) => outcome.trace = w.trace ∧ o.Siblings ((w.state, w.current) :: w.pending)
      [⟨w.current, w.state, .ok t⟩] (.done outcome.finalState outcome.reason)
  | .ok (.inl w') => w'.trace = w.trace ∧ w'.visitedCount = w.visitedCount ∧
      ∀ visits ending, o.Siblings ((w'.state, w'.current) :: w'.pending) visits ending →
        o.Siblings ((w.state, w.current) :: w.pending) (⟨w.current, w.state, .ok t⟩ :: visits) ending

theorem resume_follows {w : Walk S} {t : Transition S} {s : S} {reason : TerminalReason}
    (hPath : o.Path w.current w.state [⟨w.current, w.state, .ok t⟩] (.done s reason)) :
    o.Follows w t (.ok (resume w s reason)) := by
  unfold resume
  cases hPending : w.pending with
  | nil =>
    refine ⟨rfl, ?_⟩
    rw [hPending]
    exact .last hPath
  | cons queued rest =>
    refine ⟨rfl, rfl, fun visits ending h => ?_⟩
    rw [hPending]
    exact .resume hPath h

theorem follow_follows (o : Orchestrator m S E) (w : Walk S) (t : Transition S) :
    o.Follows w t (o.follow w t) := by
  cases t with
  | goto s next =>
    by_cases hEdge : next ∈ o.graph.successors w.current
    · have hFollow : o.follow w (.goto s next) =
          .ok (.inl { w with state := s, current := next }) := by
        simp only [follow, checkEdge, hEdge, if_true]
        rfl
      rw [hFollow]
      exact ⟨rfl, rfl, fun visits ending h =>
        .replace (List.cons_ne_nil (s, next) []) (fun hNext => .goto hEdge hNext.path) h⟩
    · have hFollow : o.follow w (.goto s next) = .error (.invalidNextNode next) := by
        simp only [follow, checkEdge, hEdge, if_false]
        rfl
      rw [hFollow]
      exact .gotoUndeclared hEdge
  | branch s next =>
    cases next with
    | nil => exact resume_follows .branchEmpty
    | cons head rest =>
      rcases o.checkEdges w.current (head :: rest) with ⟨hAll, hOk⟩ |
        ⟨declared, n, others, hNext, hDeclared, hn, hError⟩
      · have hFollow : o.follow w (.branch s (head :: rest)) = .ok (.inl { w with
            state := s, current := head,
            pending := rest.map (fun n => (s, n)) ++ w.pending }) := by
          rw [follow, hOk]
          rfl
        rw [hFollow]
        have hSiblings : (head :: rest).map (fun n => (s, n)) ≠ [] := List.cons_ne_nil _ _
        exact ⟨rfl, rfl, fun visits ending h =>
          .replace hSiblings (fun hNext => .branch hAll hNext) h⟩
      · have hFollow : o.follow w (.branch s (head :: rest)) = .error (.invalidNextNode n) := by
          rw [follow, hError]
          rfl
        rw [hFollow, hNext]
        exact .branchUndeclared hDeclared hn
  | terminal s reason => exact resume_follows .terminal

end Turn

section Loop

variable {o : Orchestrator (StateM W) S E} {limits : StepLimits} {w : Walk S} {world world' : W}

theorem loop_error (fuel : Nat) {e : RunError E}
    (hBelow : limits.maxSteps.any (· ≤ w.visitedCount) = false)
    (hTurn : (o.turn limits w).run world = (.error e, world')) :
    ((o.loop limits (fuel + 1) w).run world).1 = some (.error e) ∧
      o.executed limits (fuel + 1) w world = (o.visit w world).toList := by
  refine ⟨by simp only [loop, StateT.run_bind, hTurn]; rfl, ?_⟩
  rw [executed, hBelow, hTurn]
  exact List.append_nil _

theorem loop_ends (fuel : Nat) {outcome : RunOutcome S}
    (hBelow : limits.maxSteps.any (· ≤ w.visitedCount) = false)
    (hTurn : (o.turn limits w).run world = (.ok (.inr outcome), world')) :
    ((o.loop limits (fuel + 1) w).run world).1 = some (.ok outcome) ∧
      o.executed limits (fuel + 1) w world = (o.visit w world).toList := by
  refine ⟨by simp only [loop, StateT.run_bind, hTurn]; rfl, ?_⟩
  rw [executed, hBelow, hTurn]
  exact List.append_nil _

theorem loop_goes (fuel : Nat) {w' : Walk S}
    (hBelow : limits.maxSteps.any (· ≤ w.visitedCount) = false)
    (hTurn : (o.turn limits w).run world = (.ok (.inl w'), world')) :
    (o.loop limits (fuel + 1) w).run world = (o.loop limits fuel w').run world' ∧
      o.executed limits (fuel + 1) w world =
        (o.visit w world).toList ++ o.executed limits fuel w' world' := by
  refine ⟨by simp only [loop, StateT.run_bind, hTurn]; rfl, ?_⟩
  rw [executed, hBelow, hTurn]
  rfl

/-- The walk with its node counted. -/
def enter (w : Walk S) : Walk S :=
  { w with visitedCount := w.visitedCount + 1, trace := w.trace ++ [w.current] }

theorem turn_cases (o : Orchestrator (StateM W) S E) (world : W)
    (hBelow : limits.maxSteps.any (· ≤ w.visitedCount) = false) :
    o.graph.node w.current = none ∧ o.visit w world = none ∧
        (o.turn limits w).run world = (.error (.graph (.unknownNode w.current)), world) ∨
      (∃ source world', o.visit w world = some ⟨w.current, w.state, .error source⟩ ∧
        (o.turn limits w).run world = (.error (.step w.current source), world')) ∨
      ∃ t world', o.visit w world = some ⟨w.current, w.state, .ok t⟩ ∧
        (o.turn limits w).run world = (o.follow (enter w) t, world') := by
  unfold visit turn
  rw [if_neg (Bool.eq_false_iff.mp hBelow)]
  dsimp only
  cases hNode : o.graph.node w.current with
  | none => exact .inl ⟨rfl, rfl, rfl⟩
  | some step =>
    cases hExec : (step.execute w.state).run world with
    | mk answer world' =>
      cases answer with
      | error source =>
        refine .inr (.inl ⟨source, world', by rw [Option.map_some, hExec], ?_⟩)
        dsimp only
        rw [StateT.run_bind, hExec]
        rfl
      | ok t =>
        refine .inr (.inr ⟨t, world', by rw [Option.map_some, hExec], ?_⟩)
        dsimp only
        rw [StateT.run_bind, hExec]
        rfl

theorem turn_count {w' : Walk S} (hBelow : limits.maxSteps.any (· ≤ w.visitedCount) = false)
    (hTurn : (o.turn limits w).run world = (.ok (.inl w'), world')) :
    w'.visitedCount = w.visitedCount + 1 := by
  rcases o.turn_cases world hBelow with ⟨-, -, hEnd⟩ | ⟨source, world₁, -, hEnd⟩ |
    ⟨t, world₁, -, hEnd⟩
  · cases hTurn.symm.trans hEnd
  · cases hTurn.symm.trans hEnd
  · have hFollow : o.follow (enter w) t = .ok (.inl w') := congrArg Prod.fst (hEnd.symm.trans hTurn)
    have hFollows := o.follow_follows (enter w) t
    rw [hFollow] at hFollows
    exact hFollows.2.1

theorem executed_le (o : Orchestrator (StateM W) S E) (fuel : Nat) {n : Nat}
    (hMax : limits.maxSteps = some n) (w : Walk S) (world : W) (hLimit : w.visitedCount ≤ n) :
    w.visitedCount + (o.executed limits fuel w world).length ≤ n := by
  induction fuel generalizing w world with
  | zero => exact hLimit
  | succ fuel ih =>
    cases hBelow : limits.maxSteps.any (· ≤ w.visitedCount) with
    | true => rwa [executed, if_pos hBelow]
    | false =>
      have hNext : w.visitedCount + 1 ≤ n := by
        rw [hMax] at hBelow
        have hNot : ¬n ≤ w.visitedCount := of_decide_eq_false hBelow
        omega
      have hOne : (o.visit w world).toList.length ≤ 1 := Option.length_toList_le
      cases hTurn : (o.turn limits w).run world with
      | mk r world' =>
        rcases r with e | w' | outcome
        · rw [(loop_error fuel hBelow hTurn).2]
          omega
        · have hCount := turn_count hBelow hTurn
          have hRest := ih w' world' (by omega)
          rw [(loop_goes fuel hBelow hTurn).2, List.length_append]
          omega
        · rw [(loop_ends fuel hBelow hTurn).2]
          omega

theorem loop_siblings (o : Orchestrator (StateM W) S E) (limits : StepLimits) (fuel : Nat)
    (w : Walk S) (world : W) (hCount : w.visitedCount = w.trace.length)
    (hLimit : ∀ n, limits.maxSteps = some n → w.visitedCount ≤ n) :
    ∃ ending,
      o.Siblings ((w.state, w.current) :: w.pending) (o.executed limits fuel w world) ending ∧
      ending.Answers limits (w.trace.length + fuel)
        (w.trace ++ (o.executed limits fuel w world).map Visit.node)
        ((o.loop limits fuel w).run world).1 := by
  have hCut (w : Walk S) : o.Siblings ((w.state, w.current) :: w.pending) [] .due := by
    exact .stop .due fun s reason h => by cases h
  have hFail {w : Walk S} {visits : List (Visit S E)} {e : RunError E}
      (hPath : o.Path w.current w.state visits (.failed e)) :
      o.Siblings ((w.state, w.current) :: w.pending) visits (.failed e) :=
    .stop hPath fun s reason h => by cases h
  induction fuel generalizing w world with
  | zero => exact ⟨.due, hCut w, .inr ⟨by simp [executed], rfl⟩⟩
  | succ fuel ih =>
    cases hBelow : limits.maxSteps.any (· ≤ w.visitedCount) with
    | true =>
      -- the limit is reached with this step due
      obtain ⟨n, hMax, hReached⟩ := (Option.any_eq_true _ _).mp hBelow
      have hn : n = w.trace.length := by
        have hBound := hLimit n hMax
        have hReached : n ≤ w.visitedCount := of_decide_eq_true hReached
        omega
      have hNone : o.executed limits (fuel + 1) w world = [] := by rw [executed, if_pos hBelow]
      have hLoop : ((o.loop limits (fuel + 1) w).run world).1 =
          some (.error (.stepLimitExceeded w.trace.length)) := by
        rw [loop, turn, if_pos hBelow, hMax, hn]
        rfl
      rw [hNone, hLoop, List.map_nil, List.append_nil]
      exact ⟨.due, hCut w, .inl ⟨hMax.trans (congrArg some hn), rfl⟩⟩
    | false =>
      have hNext : ∀ n, limits.maxSteps = some n → w.visitedCount + 1 ≤ n := by
        intro n hn
        have hNot : ¬n ≤ w.visitedCount :=
          of_decide_eq_false ((Option.any_eq_false _ _).mp hBelow n hn)
        omega
      rcases o.turn_cases world hBelow with ⟨hNode, hVisit, hTurn⟩ |
        ⟨source, world', hVisit, hTurn⟩ | ⟨t, world', hVisit, hTurn⟩
      · obtain ⟨hLoop, hExecuted⟩ := loop_error fuel hBelow hTurn
        rw [hLoop, hExecuted, hVisit]
        exact ⟨_, hFail (.missing hNode), rfl⟩
      · obtain ⟨hLoop, hExecuted⟩ := loop_error fuel hBelow hTurn
        rw [hLoop, hExecuted, hVisit]
        exact ⟨_, hFail .error, rfl⟩
      · have hFollows := o.follow_follows (enter w) t
        cases hFollow : o.follow (enter w) t with
        | error e =>
          rw [hFollow] at hTurn hFollows
          obtain ⟨hLoop, hExecuted⟩ := loop_error fuel hBelow hTurn
          rw [hLoop, hExecuted, hVisit]
          exact ⟨_, hFail hFollows, rfl⟩
        | ok next =>
          rw [hFollow] at hTurn hFollows
          cases next with
          | inr outcome =>
            obtain ⟨hLoop, hExecuted⟩ := loop_ends fuel hBelow hTurn
            rw [hLoop, hExecuted, hVisit]
            obtain ⟨hTrace, hDone⟩ := hFollows
            refine ⟨_, hDone, ?_⟩
            show some (Except.ok outcome) = _
            rw [show outcome = ⟨outcome.finalState, outcome.reason, outcome.trace⟩ from rfl, hTrace]
            rfl
          | inl w' =>
            obtain ⟨hLoop, hExecuted⟩ := loop_goes fuel hBelow hTurn
            obtain ⟨hTrace, hVisited, hGoes⟩ := hFollows
            obtain ⟨ending, hRest, hAnswers⟩ := ih w' world'
              (by simp [hTrace, hVisited, hCount, enter])
              (by rw [hVisited]; exact hNext)
            rw [hLoop, hExecuted, hVisit]
            refine ⟨ending, hGoes _ _ hRest, ?_⟩
            rw [hTrace] at hAnswers
            simpa [enter, Nat.add_assoc, Nat.add_comm 1] using hAnswers

end Loop

/-- A run is the depth-first walk from the entry node: it executes the steps of the walk in order,
and ends as the walk does, or where the limit is reached with a step due. -/
theorem run_depthFirst (o : Orchestrator (StateM W) S E) (fuel : Nat) (state : S)
    (limits : StepLimits) (world : W) :
    ∃ ending, o.WalkFrom state (o.visits fuel state limits world) ending ∧
      (∀ v, (o.visits fuel state limits world).head? = some v →
        o.entry = some v.node ∧ v.state = state) ∧
      ending.Answers limits fuel ((o.visits fuel state limits world).map Visit.node)
        ((o.run fuel state limits).run world).1 ∧
      ∀ n, limits.maxSteps = some n → (o.visits fuel state limits world).length ≤ n ∧
        (n < fuel → ((o.run fuel state limits).run world).1 ≠ none) := by
  cases hEntry : o.entry with
  | none =>
    have hVisits : o.visits fuel state limits world = [] := by rw [visits, hEntry]
    have hRun : ((o.run fuel state limits).run world).1 = some (.error .noEntryNode) := by
      rw [run, hEntry]
      rfl
    rw [hVisits, hRun]
    refine ⟨_, .noEntry hEntry, ?_, rfl, fun n _ => ⟨Nat.zero_le n, fun _ => Option.some_ne_none _⟩⟩
    intro v hv
    cases hv
  | some entry =>
    cases hNode : o.graph.contains entry with
    | false =>
      have hVisits : o.visits fuel state limits world = [] := by simp [visits, hEntry, hNode]
      have hRun : ((o.run fuel state limits).run world).1 =
          some (.error (.graph (.unknownNode entry))) := by
        simp only [run, hEntry, hNode, Bool.not_false, if_true]
        rfl
      rw [hVisits, hRun]
      refine ⟨_, .unknown hEntry hNode, ?_, rfl,
        fun n _ => ⟨Nat.zero_le n, fun _ => Option.some_ne_none _⟩⟩
      intro v hv
      cases hv
    | true =>
      have hVisits : o.visits fuel state limits world =
          o.executed limits fuel ⟨state, entry, [], 0, []⟩ world := by simp [visits, hEntry, hNode]
      have hRun : o.run fuel state limits = o.loop limits fuel ⟨state, entry, [], 0, []⟩ := by
        simp [run, hEntry, hNode]
      obtain ⟨ending, hWalk, hAnswers⟩ := o.loop_siblings limits fuel
        ⟨state, entry, [], 0, []⟩ world rfl fun n _ => Nat.zero_le n
      rw [hVisits, hRun]
      rw [List.length_nil, Nat.zero_add, List.nil_append] at hAnswers
      have hHead : ∀ v, (o.executed limits fuel ⟨state, entry, [], 0, []⟩ world).head? = some v →
          some entry = some v.node ∧ v.state = state := by
        intro v hv
        obtain ⟨hNodeEq, hStateEq⟩ := hWalk.path.head v hv
        exact ⟨congrArg some hNodeEq.symm, hStateEq⟩
      refine ⟨ending, .path hEntry hWalk.path, hHead, hAnswers, fun n hMax => ?_⟩
      have hLe := o.executed_le fuel hMax ⟨state, entry, [], 0, []⟩ world (Nat.zero_le n)
      rw [Nat.zero_add] at hLe
      refine ⟨hLe, fun hFuel hNone => ?_⟩
      rw [hNone] at hAnswers
      cases ending with
      | done state reason => cases hAnswers
      | failed e => cases hAnswers
      | due =>
        rcases hAnswers with ⟨-, hError⟩ | ⟨hLength, -⟩
        · cases hError
        · rw [List.length_map] at hLength
          omega

def fork : Except GraphError (Orchestrator (StateM Unit) Nat Unit) := do
  let o := new.addStep 0 ⟨"fork", fun n => pure (.ok (.branch (n + 1) [1, 2]))⟩
  let o := o.addStep 1 ⟨"left", fun n => pure (.ok (.goto (n + 10) 3))⟩
  let o := o.addStep 2 ⟨"right", fun n => pure (.ok (.terminal (n + 100) .completed))⟩
  let o := o.addStep 3 ⟨"leaf", fun n => pure (.ok (.terminal n .cancelled))⟩
  let o ← o.allowTransition 0 1
  let o ← o.allowTransition 0 2
  let o ← o.allowTransition 1 3
  pure (o.setEntry 0)

example : (fork.map fun o => (o.visits 9 0 ⟨some 4⟩ ()).map fun v => (v.node, v.state)) =
    .ok [(0, 0), (1, 1), (3, 11), (2, 1)] := rfl

end Orchestrator

end Cronygraph
