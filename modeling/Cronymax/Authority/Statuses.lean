import Cronymax.Authority.Sections

/-! The status of a run, section by section: to which status a section moves a run, and which statuses
it announces for the run.  Seven operations move a run; whatever moves a run announces the new
status when it has been saved. -/

namespace Cronymax.Authority

open Atomic

theorem RunId.uuid_inj {a b : RunId} : a.uuid = b.uuid ↔ a = b := by
  cases a
  cases b
  simp

namespace RuntimeAuthority

variable (w : RuntimeAuthority)

/-- The space is there, and the agent too if one is named. -/
def accepts (spaceId : SpaceId) (agentId : Option AgentId) : Bool :=
  (w.inner.snapshot.spaces.lookup spaceId).isSome &&
    !agentId.any fun aid => (w.inner.snapshot.agents.lookup aid).isNone

/-- The review is a pending one of the run. -/
@[grind =] def awaits (runId : RunId) (reviewId : ReviewId) : Bool :=
  (w.review? reviewId).any fun review => review.runId = runId && review.state = .pending

/-- Where a transition takes the run. -/
@[grind =] def moved (runId : RunId) (t : Transition) (r : RunId) : Option RunStatus :=
  if r = runId then (w.status? r).bind t.next else none

end RuntimeAuthority

/-- The status that an operation gives the run, if any. -/
@[grind =] def Operation.moves (w : RuntimeAuthority) (r : RunId) : Operation → Option RunStatus
  | .startRunWithSession spaceId agentId _ _ drawn =>
    if r = drawn ∧ w.accepts spaceId agentId then some .pending else none
  | .cancelRun runId => w.moved runId .cancel r
  | .pauseRun runId => w.moved runId .pause r
  | .resumeRun runId => w.moved runId .resume r
  | .openReview runId _ _ =>
    if r = runId ∧ (w.status? r).any (!·.isTerminal) then some .awaitingReview else none
  | .resolveReview runId reviewId decision _ =>
    if r = runId ∧ decision = .approved ∧ w.awaits runId reviewId ∧ (w.status? r).isSome then
      some .running
    else none
  | _ => none

/-- The payload of an operation that emits what it is given. -/
def Operation.publishes : Operation → Option RuntimeEventPayload
  | .emitForRun _ payload | .emit _ payload | .emitMany _ payload => some payload
  | _ => none

namespace Section

/-- The status that a section gives the run, if any. -/
@[grind =] def moves (w : RuntimeAuthority) (r : RunId) : Section → Option RunStatus
  | .operation o => o.moves w r
  | .markRunning runId => w.moved runId .markRunning r
  | .complete runId => w.moved runId .complete r
  | .fail runId message => w.moved runId (.fail message) r
  | _ => none

/-- The payload of a section that emits what it is given. -/
def publishes : Section → Option RuntimeEventPayload
  | .operation o => o.publishes
  | _ => none

end Section

/-- The status of the run that the payload tells. -/
def RuntimeEventPayload.announces (r : RunId) : RuntimeEventPayload → Option String
  | .runStatus id status _ _ _ => if id = r.uuid then some status else none
  | _ => none

/-- The statuses of the run that were emitted, in order. -/
def announced (r : RunId) (es : List Emission) : List String :=
  es.filterMap (·.payload.announces r)

def Effect.announces (r : RunId) : Effect → Option String
  | .emit _ payload => payload.announces r
  | _ => none

theorem announced_emission (r : RunId) (effects : List Effect) :
    announced r (effects.filterMap Effect.emission) = effects.filterMap (Effect.announces r) := by
  rw [announced, List.filterMap_filterMap]
  refine List.filterMap_congr fun e _ => ?_
  cases e <;> rfl

/-- What a decision does with the run `r`: it moves it, if it does, and announces that once it has
been saved, next to what its caller publishes. -/
structure Moves (w : RuntimeAuthority) (r : RunId) (d : Decision) (move : Option RunStatus)
    (published : Option RuntimeEventPayload) : Prop where
  status : (d.snapshot w.inner.snapshot).status? r = move.or (w.status? r)
  announced : (w.effectsOf d).filterMap (Effect.announces r) =
    (published.bind (·.announces r)).toList ++
      if w.fault.isSome then [] else (move.map (·.label)).toList

section Decisions

variable {w : RuntimeAuthority} {r : RunId}

theorem moves_refuse (e : AuthorityError) : Moves w r (.refuse e) none none :=
  ⟨rfl, by simp [RuntimeAuthority.effectsOf]⟩

theorem moves_quiet {c : Commit} (hStatus : c.snapshot.status? r = w.status? r)
    (hEffects : c.effects.filterMap (Effect.announces r) = []) : Moves w r (.commit c) none none := by
  refine ⟨hStatus, ?_⟩
  simp only [RuntimeAuthority.effectsOf]
  split
  · simp
  · simpa using hEffects

theorem moves_setRun {runId : RunId} {run run' : Run} {saves : Saves} {effects : List Effect}
    {reply : Reply} (hRun : w.run? runId = some run) (hStatus : run'.status = run.status)
    (hEffects : effects.filterMap (Effect.announces r) = []) :
    Moves w r (w.put (w.inner.snapshot.setRun runId run') saves effects reply) none none := by
  refine moves_quiet ?_ hEffects
  rw [Snapshot.status_setRun]
  split
  · subst r
    rw [hStatus]
    exact (w.inner.snapshot.status_of_lookup hRun).symm
  · rfl

theorem moves_checked {c : Commit} {move : Option RunStatus} (hSaves : c.saves = .checked)
    (hStatus : c.snapshot.status? r = move.or (w.status? r))
    (hEffects : c.effects.filterMap (Effect.announces r) = (move.map (·.label)).toList) :
    Moves w r (.commit c) move none := by
  refine ⟨hStatus, ?_⟩
  simp only [RuntimeAuthority.effectsOf, RuntimeAuthority.failsWith, hSaves, if_true]
  split
  · simp
  · simpa using hEffects

@[simp] theorem announces_emit (topics : List String) (payload : RuntimeEventPayload) :
    (Effect.emit topics payload).announces r = payload.announces r := rfl

@[simp] theorem announces_fire (reviewId : ReviewId) (resolution : ReviewResolution) :
    (Effect.fire reviewId resolution).announces r = none := rfl

@[simp] theorem announces_trace (runId : String) (trace : Value) :
    (RuntimeEventPayload.trace runId trace).announces r = none := rfl

@[simp] theorem announces_permissionRequest (runId reviewId : String) (request : Value) :
    (RuntimeEventPayload.permissionRequest runId reviewId request).announces r = none := rfl

@[simp] theorem announces_announce (run : Run) (runId : RunId) (status : RunStatus) (detail : Option Value) :
    (run.announce runId status detail).announces r = if r = runId then some status.label else none := by
  simp only [Run.announce, Effect.announces, RuntimeEventPayload.announces, RunId.uuid_inj,
    eq_comm]

theorem status_of_run {runId : RunId} {run : Run} (hRun : w.run? runId = some run) :
    w.status? runId = some run.status :=
  w.inner.snapshot.status_of_lookup hRun

theorem status_of_no_run {runId : RunId} (hRun : w.run? runId = none) : w.status? runId = none := by
  rw [RuntimeAuthority.status?, Snapshot.status?, ← RuntimeAuthority.run?, hRun, Option.map_none]

theorem moved_eq_none {runId : RunId} {t : Transition} (h : (w.status? runId).bind t.next = none) :
    w.moved runId t r = none := by
  unfold RuntimeAuthority.moved
  split
  · subst r
    exact h
  · rfl

theorem transitionRun_moves (runId : RunId) (t : Transition) :
    Moves w r (w.transitionRun runId t) (w.moved runId t r) none := by
  unfold RuntimeAuthority.transitionRun
  split
  · rename_i hRun
    rw [moved_eq_none (by simp [status_of_no_run hRun])]
    exact moves_refuse _
  · rename_i run hRun
    have hStatus := status_of_run hRun
    split
    · rename_i hNext
      rw [moved_eq_none (by simp [hStatus, hNext])]
      exact moves_refuse _
    · rename_i next hNext
      have hMoved : w.moved runId t r = if r = runId then some next else none := by
        unfold RuntimeAuthority.moved
        split
        · subst r
          simp [hStatus, hNext]
        · rfl
      rw [hMoved]
      refine moves_checked rfl ?_ ?_
      · rw [Snapshot.status_setRun]
        split <;> rfl
      · by_cases hr : r = runId <;> simp [hr]

theorem run_of_status {runId : RunId} {status : RunStatus} (h : w.status? runId = some status) :
    ∃ run, w.run? runId = some run ∧ run.status = status :=
  Option.map_eq_some_iff.mp h

theorem transitionRun_refused {runId : RunId} {t : Transition} {status : RunStatus}
    (hStatus : w.status? runId = some status) (hNext : t.next status = none) :
    w.transitionRun runId t = .refuse (.invalidTransition runId status t.action) := by
  obtain ⟨run, hRun, rfl⟩ := run_of_status hStatus
  simp only [RuntimeAuthority.transitionRun, hRun, hNext]

theorem transitionRun_answer {runId : RunId} {t : Transition} {status next : RunStatus}
    (hStatus : w.status? runId = some status) (hNext : t.next status = some next) :
    w.answer (w.transitionRun runId t) =
      w.fault.elim (.ok .unit) fun e => .error (.persistence e) := by
  obtain ⟨run, hRun, rfl⟩ := run_of_status hStatus
  simp only [RuntimeAuthority.transitionRun, hRun, hNext, RuntimeAuthority.put,
    RuntimeAuthority.answer, RuntimeAuthority.failsWith, if_true]
  cases w.fault <;> rfl

theorem startRun_moves (spaceId : SpaceId) (agentId : Option AgentId) (spec : Value)
    (sessionId : Option SessionId) (drawn : RunId) :
    Moves w r (w.startRunWithSession spaceId agentId spec sessionId drawn)
      (if r = drawn ∧ w.accepts spaceId agentId then some .pending else none) none := by
  unfold RuntimeAuthority.startRunWithSession RuntimeAuthority.accepts
  dsimp only
  split
  · rename_i hSpace
    rw [hSpace, if_neg (by simp)]
    exact moves_refuse _
  · rename_i space hSpace
    split
    · rename_i hAgent
      rw [hAgent, if_neg (by simp)]
      exact moves_refuse _
    · rename_i hAgent
      rw [hSpace, eq_false_of_ne_true hAgent]
      refine moves_checked rfl ?_ ?_
      · rw [Snapshot.status_setRun]
        by_cases hr : r = drawn <;> simp [hr, Run.new, RuntimeAuthority.status?, Snapshot.status?]
      · by_cases hr : r = drawn <;>
          simp [hr, RuntimeEventPayload.announces, RunId.uuid_inj, RunStatus.label, eq_comm]

theorem openReview_moves (runId : RunId) (request : Value) (drawn : ReviewId) :
    Moves w r (w.openReview runId request drawn)
      (if r = runId ∧ (w.status? r).any (!·.isTerminal) then some .awaitingReview else none) none := by
  unfold RuntimeAuthority.openReview
  split
  · rename_i hRun
    rw [if_neg]
    · exact moves_refuse _
    · rintro ⟨rfl, h⟩
      simp [status_of_no_run hRun] at h
  · rename_i run hRun
    have hStatus := status_of_run hRun
    split
    · rename_i hTerminal
      rw [if_neg]
      · exact moves_refuse _
      · rintro ⟨rfl, h⟩
        simp [hStatus, hTerminal] at h
    · rename_i hTerminal
      have hMove : (if r = runId ∧ (w.status? r).any (!·.isTerminal) then some RunStatus.awaitingReview
          else none) = if r = runId then some .awaitingReview else none := by
        by_cases hr : r = runId
        · subst r
          simp [hStatus, hTerminal]
        · simp [hr]
      rw [hMove]
      refine moves_checked rfl ?_ ?_
      · rw [Snapshot.status_setReview, Snapshot.status_setRun]
        split <;> rfl
      · by_cases hr : r = runId <;> simp [hr]

theorem resolveReview_moves (runId : RunId) (reviewId : ReviewId) (decision : PermissionState)
    (notes : Option String) :
    Moves w r (w.resolveReview runId reviewId decision notes)
      (if r = runId ∧ decision = .approved ∧ w.awaits runId reviewId ∧ (w.status? r).isSome then
        some .running else none) none := by
  unfold RuntimeAuthority.resolveReview RuntimeAuthority.awaits
  split
  · rename_i hDecision
    simpa [hDecision] using moves_refuse _
  · rename_i hDecision
    split
    · rename_i hReview
      simpa [hReview] using moves_refuse _
    · rename_i review hReview
      split
      · rename_i hRun
        simpa [hReview, hRun] using moves_refuse _
      · rename_i hRun
        split
        · rename_i hState
          simpa [hReview, hState] using moves_refuse _
        · rename_i hState
          dsimp only
          split
          · rename_i hNone
            rw [if_neg]
            · exact ⟨rfl, by simp [RuntimeAuthority.effectsOf]⟩
            · rintro ⟨rfl, -, -, h⟩
              simp [status_of_no_run hNone] at h
          · rename_i run hSome
            have hStatus := status_of_run hSome
            have hMove : (if r = runId ∧ decision = .approved ∧
                ((some review).any fun rv => rv.runId = runId && rv.state = .pending) ∧
                  (w.status? r).isSome then some RunStatus.running else none) =
                if r = runId ∧ decision = .approved then some .running else none := by
              by_cases hr : r = runId
              · subst r
                simp_all
              · simp [hr]
            rw [hReview, hMove]
            refine moves_checked rfl ?_ ?_
            · rw [Snapshot.status_setRun]
              by_cases hr : r = runId
              · subst r
                by_cases hApproved : decision = .approved <;> simp [hApproved, hStatus]
              · simp [hr, RuntimeAuthority.status?]
            · by_cases hApproved : decision = .approved
              · by_cases hr : r = runId <;> simp [List.filterMap_cons, hApproved, hr]
              · simp [hApproved]

theorem moves_publish (topics : List String) (payload : RuntimeEventPayload) (reply : Reply) :
    Moves w r (w.keep [.emit topics payload] reply) none (some payload) := by
  refine ⟨rfl, ?_⟩
  have hEffects : w.effectsOf (w.keep [.emit topics payload] reply) = [.emit topics payload] := rfl
  rw [hEffects, List.filterMap_cons, announces_emit, Option.bind_some]
  cases payload.announces r <;> simp

theorem moves_editTasks (edit : Table RunId TaskTree → Table RunId TaskTree) (reply : Reply)
    {topics : List String} {payload : RuntimeEventPayload} (h : payload.announces r = none) :
    Moves w r (w.editTasks edit [.emit topics payload] reply) none none :=
  moves_quiet rfl (by simp [h])

/-- What each operation does with the run `r`. -/
theorem Operation.decide_moves (o : Operation) :
    Moves w r (o.decide w) (o.moves w r) o.publishes := by
  cases o with
  | startRunWithSession spaceId agentId spec sessionId drawn => exact startRun_moves ..
  | cancelRun runId | pauseRun runId | resumeRun runId => exact transitionRun_moves ..
  | openReview runId request drawn => exact openReview_moves ..
  | resolveReview runId reviewId decision notes => exact resolveReview_moves ..
  | emitForRun runId payload | emit topic payload | emitMany topics payload =>
    exact moves_publish ..
  | startChildTask runId parentId label agentId flowId drawn
  | completeChildTask runId taskId output success => exact moves_editTasks _ _ rfl
  | upsertSpace space | attachRunToSession sessionId runId | subscribe topic drawn | unsubscribe id
  | bindSession flowRunId sessionId | seedFlowSessions pairs | putMemory namespaceId entry
  | emitLog target level message => exact moves_quiet rfl rfl
  | upsertAgent agent =>
    dsimp only [Operation.decide, RuntimeAuthority.upsertAgent]
    split
    · exact moves_refuse _
    · exact moves_quiet rfl rfl
  | getOrCreateSession sessionId spaceId name =>
    dsimp only [Operation.decide, RuntimeAuthority.getOrCreateSession]
    split
    · exact moves_refuse _
    · split <;> exact moves_quiet rfl rfl
  | renameSession sessionId name =>
    dsimp only [Operation.decide, RuntimeAuthority.renameSession]
    split
    · exact moves_refuse _
    · exact moves_quiet rfl rfl
  | setSessionForkPoint sessionId parentSessionId forkPoint | flushThread sessionId thread
  | updateSessionNamespaces sessionId target namespaceId =>
    dsimp only [Operation.decide, RuntimeAuthority.setSessionForkPoint, RuntimeAuthority.flushThread,
      RuntimeAuthority.updateSessionNamespaces]
    split <;> exact moves_quiet rfl rfl
  | attachFlowRunToSession sessionId flowRunId | autoNameSession sessionId name =>
    dsimp only [Operation.decide, RuntimeAuthority.attachFlowRunToSession,
      RuntimeAuthority.autoNameSession]
    split
    · exact moves_quiet rfl rfl
    · split <;> exact moves_quiet rfl rfl
  | setRunFlowId runId flowRunId | appendProducedDoc runId doc =>
    dsimp only [Operation.decide, RuntimeAuthority.setRunFlowId, RuntimeAuthority.appendProducedDoc]
    split
    · exact moves_quiet rfl rfl
    · rename_i run hRun
      exact moves_setRun hRun rfl rfl
  | setRunGoal runId goal | appendHistory runId payload =>
    dsimp only [Operation.decide, RuntimeAuthority.setRunGoal, RuntimeAuthority.appendHistory]
    split
    · exact moves_refuse _
    · rename_i run hRun
      exact moves_setRun hRun rfl rfl
  | postInput runId payload =>
    dsimp only [Operation.decide, RuntimeAuthority.postInput]
    split
    · exact moves_refuse _
    · rename_i run hRun
      split
      · exact moves_refuse _
      · exact moves_setRun hRun rfl rfl

theorem Section.decide_moves (x : Section) : Moves w r (x.decide w) (x.moves w r) x.publishes := by
  cases x with
  | operation o => exact o.decide_moves
  | markRunning runId => exact transitionRun_moves runId .markRunning
  | complete runId => exact transitionRun_moves runId .complete
  | fail runId message => exact transitionRun_moves runId (.fail message)
  | registerCompletion reviewId | dropReceiver id => exact moves_quiet rfl rfl
  | runStatus runId =>
    dsimp only [Section.decide, RuntimeAuthority.runStatus]
    split
    · exact moves_refuse _
    · exact moves_quiet rfl rfl

end Decisions

namespace Section

variable (x : Section) (w : RuntimeAuthority) (r : RunId)

theorem status_after : (x.apply w).status? r = (x.moves w r).or (w.status? r) := by
  rw [status_apply]
  exact x.decide_moves.status

theorem announced_after : announced r (x.apply w).emitted =
    announced r w.emitted ++ ((x.publishes.bind (·.announces r)).toList ++
      if w.fault.isSome then [] else ((x.moves w r).map (·.label)).toList) := by
  rw [emitted_apply, announced, List.filterMap_append, ← announced, ← announced,
    announced_emission, x.decide_moves.announced]

end Section

end Cronymax.Authority
