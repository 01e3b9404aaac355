import Cronymax.Atomic.History
import Cronymax.Authority.Statuses

/-! A run that has succeeded, failed, or been cancelled keeps that status, except where a call brings it
back to life: the approval of a review that was open when the run ended. -/

namespace Cronymax.Authority

open Atomic

/-- The run has come to an end. -/
@[grind =] def RuntimeAuthority.ended (w : RuntimeAuthority) (r : RunId) : Bool :=
  (w.status? r).any (·.isTerminal)

/-- The labels of states that are no end. -/
def liveLabels : List String := ["pending", "running", "paused", "awaiting_review"]

/-- No run that has ended changes its status, and no status of a live one is emitted for it. -/
def KeepsEnded (w w' : RuntimeAuthority) : Prop :=
  ∀ r status, w.status? r = some status → status.isTerminal →
    w'.status? r = some status ∧
      ∃ labels, announced r w'.emitted = announced r w.emitted ++ labels ∧
        ∀ label ∈ labels, label ∉ liveLabels

/-- The call keeps the ended runs as they are. -/
def Absorbs (w : RuntimeAuthority) (c : Call) : Prop := KeepsEnded w (c.step w)

/-- Whether an event announces that a run goes on that has ended. -/
def RuntimeAuthority.Belies (w : RuntimeAuthority) (payload : RuntimeEventPayload) : Prop :=
  ∃ r, w.ended r ∧ ∃ label ∈ payload.announces r, label ∈ liveLabels

/-- The operation revives an ended run: an approval of a pending review of it, a new run under its id, or
a status that is emitted though it belies the run. -/
def Operation.Revives (w : RuntimeAuthority) : Operation → Prop
  | .resolveReview runId reviewId decision _ =>
    decision = .approved ∧ w.awaits runId reviewId ∧ w.ended runId
  | .startRunWithSession spaceId agentId _ _ drawn => w.accepts spaceId agentId ∧ w.ended drawn
  | .emitForRun _ payload | .emit _ payload | .emitMany _ payload => w.Belies payload
  | _ => False

/-- The operation of the call revives an ended run. -/
def Call.Revives (w : RuntimeAuthority) : Call → Prop
  | .operation o => o.Revives w
  | _ => False

theorem KeepsEnded.trans {w w' w'' : RuntimeAuthority} (h : KeepsEnded w w')
    (h' : KeepsEnded w' w'') : KeepsEnded w w'' := by
  intro r status hStatus hTerminal
  obtain ⟨hKept, labels, hLabels, hDead⟩ := h r status hStatus hTerminal
  obtain ⟨hKept', labels', hLabels', hDead'⟩ := h' r status hKept hTerminal
  refine ⟨hKept', labels ++ labels', ?_, fun label hl => ?_⟩
  · rw [hLabels', hLabels, List.append_assoc]
  · exact (List.mem_append.mp hl).elim (hDead label) (hDead' label)

theorem label_mem_liveLabels {status : RunStatus} :
    status.label ∈ liveLabels ↔ status.isTerminal = false := by
  cases status <;> simp [RunStatus.label, liveLabels, RunStatus.isTerminal]

theorem ended_iff {w : RuntimeAuthority} {r : RunId} :
    w.ended r ↔ ∃ status, w.status? r = some status ∧ status.isTerminal := by
  simp [RuntimeAuthority.ended, Option.any_eq_true]

namespace Section

variable {x : Section} {w : RuntimeAuthority}

/-- A section that does nothing to the runs that have ended. -/
def Spares (w : RuntimeAuthority) (x : Section) : Prop :=
  ∀ r, w.ended r → x.moves w r = none ∧
    ∀ label ∈ x.publishes.bind (·.announces r), label ∉ liveLabels

theorem Spares.keeps (h : x.Spares w) : KeepsEnded w (x.apply w) := by
  intro r status hStatus hTerminal
  obtain ⟨hMoves, hPublishes⟩ := h r (ended_iff.mpr ⟨status, hStatus, hTerminal⟩)
  refine ⟨?_, _, x.announced_after w r, ?_⟩
  · rw [x.status_after, hMoves, Option.none_or, hStatus]
  · intro label hl
    rw [hMoves, Option.map_none, Option.toList_none, ite_self, List.append_nil,
      Option.mem_toList] at hl
    exact hPublishes label hl

theorem keeps_iff (hLive : ∀ r, w.ended r → ∀ status ∈ x.moves w r, status.isTerminal = false) :
    KeepsEnded w (x.apply w) ↔ x.Spares w := by
  refine ⟨fun h r hEnded => ?_, Spares.keeps⟩
  obtain ⟨status, hStatus, hTerminal⟩ := ended_iff.mp hEnded
  obtain ⟨hKept, labels, hLabels, hDead⟩ := h r status hStatus hTerminal
  have hMoves : x.moves w r = none := by
    rw [x.status_after, hStatus] at hKept
    cases hMove : x.moves w r with
    | none => rfl
    | some next =>
      rw [hMove, Option.some_or, Option.some_inj] at hKept
      have hLive := hLive r hEnded next hMove
      rw [hKept, hTerminal] at hLive
      cases hLive
  refine ⟨hMoves, fun label hl => hDead label ?_⟩
  rw [x.announced_after, List.append_cancel_left_eq] at hLabels
  rw [← hLabels]
  exact List.mem_append_left _ (Option.mem_toList.mpr hl)

theorem spares_of_quiet (hMoves : ∀ r, w.ended r → x.moves w r = none) (hPublishes : x.publishes = none) :
    x.Spares w :=
  fun r hr => ⟨hMoves r hr, by simp [hPublishes]⟩

end Section

theorem moved_of_ended {w : RuntimeAuthority} {r : RunId} {t : Transition} (runId : RunId)
    (hNext : ∀ status : RunStatus, status.isTerminal → t.next status = none) (hr : w.ended r) :
    w.moved runId t r = none := by
  obtain ⟨status, hStatus, hTerminal⟩ := ended_iff.mp hr
  unfold RuntimeAuthority.moved
  split
  · rw [hStatus, Option.bind_some, hNext status hTerminal]
  · rfl

theorem next_of_terminal {t : Transition} (ht : t ∈ [.cancel, .pause, .resume, .markRunning])
    (status : RunStatus) (h : status.isTerminal) : t.next status = none := by
  simp only [List.mem_cons, List.not_mem_nil, or_false] at ht
  rcases ht with rfl | rfl | rfl | rfl <;> cases status <;> first | rfl | cases h

theorem moved_of_ne {w : RuntimeAuthority} {r runId : RunId} (t : Transition) (h : r ≠ runId) :
    w.moved runId t r = none :=
  if_neg h

namespace Operation

variable {w : RuntimeAuthority} {r : RunId}

theorem moves_live (o : Operation) (hr : w.ended r) :
    ∀ status ∈ o.moves w r, status.isTerminal = false := by
  intro status hMoves
  cases o with
  | cancelRun runId | pauseRun runId | resumeRun runId =>
    rw [moves, moved_of_ended runId (next_of_terminal (by simp)) hr] at hMoves
    cases hMoves
  | startRunWithSession spaceId agentId spec sessionId drawn
  | openReview runId request drawn
  | resolveReview runId reviewId decision notes =>
    simp only [moves] at hMoves
    split at hMoves
    · cases hMoves
      rfl
    · cases hMoves
  | _ => cases hMoves

theorem spares_iff (o : Operation) : (Section.operation o).Spares w ↔ ¬o.Revives w := by
  have hPublish {payload : RuntimeEventPayload} {o : Operation} (hMoves : ∀ r, o.moves w r = none)
      (hPublishes : o.publishes = some payload) :
      (Section.operation o).Spares w ↔ ¬w.Belies payload := by
    simp only [Section.Spares, Section.moves, Section.publishes, hMoves, hPublishes, true_and,
      Option.bind_some, RuntimeAuthority.Belies, not_exists, not_and]
  cases o with
  | resolveReview runId reviewId decision notes =>
    constructor
    · rintro h ⟨hDecision, hAwaits, hEnded⟩
      obtain ⟨status, hStatus, -⟩ := ended_iff.mp hEnded
      have := (h runId hEnded).1
      simp [Section.moves, moves, hDecision, hAwaits, hStatus] at this
    · refine fun h => Section.spares_of_quiet (fun r hr => if_neg ?_) rfl
      rintro ⟨rfl, hDecision, hAwaits, -⟩
      exact h ⟨hDecision, hAwaits, hr⟩
  | startRunWithSession spaceId agentId spec sessionId drawn =>
    constructor
    · rintro h ⟨hAccepts, hEnded⟩
      have := (h drawn hEnded).1
      simp [Section.moves, moves, hAccepts] at this
    · refine fun h => Section.spares_of_quiet (fun r hr => if_neg ?_) rfl
      rintro ⟨rfl, hAccepts⟩
      exact h ⟨hAccepts, hr⟩
  | emitForRun runId payload | emit topic payload | emitMany topics payload =>
    exact hPublish (fun _ => rfl) rfl
  | openReview runId request drawn =>
    refine iff_of_true (Section.spares_of_quiet (fun r hr => if_neg ?_) rfl) id
    rintro ⟨-, hOpen⟩
    obtain ⟨status, hStatus, hTerminal⟩ := ended_iff.mp hr
    simp [hStatus, hTerminal] at hOpen
  | cancelRun runId | pauseRun runId | resumeRun runId =>
    exact iff_of_true (Section.spares_of_quiet
      (fun r hr => moved_of_ended runId (next_of_terminal (by simp)) hr) rfl) id
  | _ => exact iff_of_true (Section.spares_of_quiet (fun _ _ => rfl) rfl) id

end Operation

theorem checkThen_keeps {w : RuntimeAuthority} {settled : RunStatus → Bool} {runId : RunId}
    {x : Section} (h : ∀ w', w'.status? runId = w.status? runId →
      (∀ status ∈ w'.status? runId, ¬settled status) → x.Spares w') :
    KeepsEnded w ((checkThen settled runId x).run w).2 := by
  have hCheck : (Section.runStatus runId).Spares w := Section.spares_of_quiet (fun _ _ => rfl) rfl
  have hStatus : ((Section.runStatus runId).apply w).status? runId = w.status? runId :=
    (Section.runStatus runId).status_after w runId
  rw [checkThen_run]
  split
  · exact hCheck.keeps
  · rename_i status hFound
    split
    · exact hCheck.keeps
    · rename_i hSettled
      rw [lock_run]
      refine hCheck.keeps.trans (Section.Spares.keeps (h _ hStatus ?_))
      rw [hStatus, hFound]
      rintro _ ⟨⟩
      exact hSettled

theorem absorbs_iff (w : RuntimeAuthority) (c : Call) : Absorbs w c ↔ ¬c.Revives w := by
  -- a transition of a run that is found to go on leaves the other runs alone
  have hFound {runId : RunId} {t : Transition} {w' : RuntimeAuthority}
      (h : ∀ status ∈ w'.status? runId, ¬status.isTerminal) (r : RunId) (hr : w'.ended r) :
      w'.moved runId t r = none := by
    refine moved_of_ne t ?_
    rintro rfl
    obtain ⟨status, hStatus, hTerminal⟩ := ended_iff.mp hr
    exact h status hStatus hTerminal
  cases c with
  | operation o =>
    rw [Absorbs, Call.step, Call.op, lock_run]
    exact (Section.keeps_iff (x := .operation o) fun r hr => o.moves_live hr).trans o.spares_iff
  | markRunRunning runId =>
    refine iff_of_true (checkThen_keeps fun w' _ _ => Section.spares_of_quiet ?_ rfl) id
    exact fun r hr => moved_of_ended runId (next_of_terminal (by simp)) hr
  | completeRun runId =>
    exact iff_of_true (checkThen_keeps fun w' _ h => Section.spares_of_quiet (hFound h) rfl) id
  | failRun runId message =>
    exact iff_of_true (checkThen_keeps fun w' _ h => Section.spares_of_quiet (hFound h) rfl) id
  | openReviewWithCompletion runId request drawn =>
    refine iff_of_true ?_ id
    have hOpen := ((Operation.openReview runId request drawn).spares_iff (w := w)).mpr id
    rw [Absorbs, Call.step, Call.op, openReviewWithCompletion_run]
    dsimp only
    split
    · exact hOpen.keeps
    · rw [lock_run]
      exact hOpen.keeps.trans (Section.Spares.keeps (Section.spares_of_quiet (fun _ _ => rfl) rfl))
  | dropReceiver id =>
    rw [Absorbs, Call.step, Call.op, lock_run]
    exact iff_of_true (Section.Spares.keeps (Section.spares_of_quiet (fun _ _ => rfl) rfl)) not_false

/-- In a history every call keeps the runs that have ended exactly when no call brings one back. -/
theorem absorbing_iff (w : RuntimeAuthority) (cs : List Call) :
    History.Each Call.step Absorbs w cs ↔ History.Each Call.step (fun w c => ¬c.Revives w) w cs :=
  History.each_congr (I := fun _ => True) trivial (fun _ _ _ _ => trivial)
    (fun w c _ => absorbs_iff w c) cs

def home : SpaceId := ⟨"space"⟩

def coder : RunId := ⟨"run"⟩

def shellPrompt : ReviewId := ⟨"review"⟩

/-- A run of one space. -/
def started : List Call :=
  [.operation (.upsertSpace ⟨home, "home", 80, 6⟩),
    .operation (.startRunWithSession home none .null none coder)]

def waiting : List Call := started ++ [.operation (.openReview coder .null shellPrompt)]

def cancelCoder : Call := .operation (.cancelRun coder)

def approve : Call := .operation (.resolveReview coder shellPrompt .approved none)

/-- The run is cancelled while it waits; the approval of its review lets it run again. -/
theorem approval_revives :
    (History.play Call.step (inMemory []) (waiting ++ [cancelCoder])).status? coder =
      some .cancelled ∧
    (approve.step (History.play Call.step (inMemory []) (waiting ++ [cancelCoder]))).status? coder =
      some .running ∧
    ¬History.Each Call.step Absorbs (inMemory []) (waiting ++ [cancelCoder] ++ [approve]) := by
  have hBefore : (History.play Call.step (inMemory []) (waiting ++ [cancelCoder])).status? coder =
      some .cancelled := by decide
  have hAfter : (approve.step (History.play Call.step (inMemory [])
      (waiting ++ [cancelCoder]))).status? coder = some .running := by decide
  refine ⟨hBefore, hAfter, fun h => ?_⟩
  have hKept := ((History.each_append.mp h).2.1 coder .cancelled hBefore rfl).1
  rw [hAfter] at hKept
  cases hKept

end Cronymax.Authority
