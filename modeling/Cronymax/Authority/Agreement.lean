import Cronymax.Authority.Waiters

/-! How the status of a run, its reviews, and the senders that are kept for them agree.  A run that
awaits a review need not have one that waits for a decision, since a rejection leaves it where it
is, and a review that waits may belong to a run that was let go on.  What remains of the agreement
holds after every history of calls. -/

namespace Cronymax.Authority

open Atomic

/-- The review is one of the run that is pending or whose sender is still registered. -/
def RuntimeAuthority.waitsOn (w : RuntimeAuthority) (runId : RunId) (reviewId : ReviewId) : Bool :=
  (w.review? reviewId).any fun review =>
    review.runId = runId && (review.state = .pending || (w.sender? reviewId).isSome)

/-- The runs that await a review are those with a review that waits, and nothing waits for a run that
has ended. -/
structure ReviewsAgree (w : RuntimeAuthority) : Prop where
  awaiting : ∀ r, w.status? r = some .awaitingReview ↔ ∃ id, w.awaits r id
  ended : ∀ r id, w.ended r → w.waitsOn r id = false

namespace Section

/-- What is drawn for a run or a review is not in use. -/
def DrawsFresh (w : RuntimeAuthority) : Section → Prop
  | .operation (.startRunWithSession _ _ _ _ drawn) => w.run? drawn = none
  | .operation (.openReview _ _ drawn) => w.review? drawn = none
  | _ => True

/-- `cancel_run`, `complete_run`, or `fail_run` of the run `r`. -/
def EndsRun (r : RunId) : Section → Prop
  | .operation (.cancelRun runId) | .complete runId | .fail runId _ => runId = r
  | _ => False

/-- The run `r` is resumed, or marked running, or another review of it that waits is approved. -/
def LetsGo (w : RuntimeAuthority) (r : RunId) (id : ReviewId) : Section → Prop
  | .operation (.resumeRun runId) | .markRunning runId => runId = r
  | .operation (.resolveReview runId reviewId decision _) =>
    runId = r ∧ reviewId ≠ id ∧ w.awaits r reviewId ∧ decision = .approved
  | _ => False

end Section

/-- The section in which a call changes the run. -/
def Call.act : Call → Section
  | .operation o => .operation o
  | .markRunRunning runId => .markRunning runId
  | .completeRun runId => .complete runId
  | .failRun runId message => .fail runId message
  | .openReviewWithCompletion runId request drawn => .operation (.openReview runId request drawn)
  | .dropReceiver id => .dropReceiver id

/-- How reviews and runs agree after a history of calls.  A run that awaits a review has one that waits,
or that was rejected or deferred; a review that waits belongs to a run that awaits a review, unless
the run was let go on or ended meanwhile; and nothing waits for a run that has ended, unless it did
when the run was ended. -/
structure ReviewsFollow (w : RuntimeAuthority) (calls : List Call) : Prop where
  awaiting : ∀ r, (History.play Call.step w calls).status? r = some .awaitingReview →
    ∃ id review, (History.play Call.step w calls).review? id = some review ∧ review.runId = r ∧
      review.state ≠ .approved
  pending : ∀ r id, (History.play Call.step w calls).awaits r id →
    (History.play Call.step w calls).status? r = some .awaitingReview ∨
      History.Any Call.step (fun w c => w.awaits r id ∧ (c.act.LetsGo w r id ∨ c.act.EndsRun r)) w calls
  ended : ∀ r id, (History.play Call.step w calls).ended r →
    (History.play Call.step w calls).waitsOn r id →
      History.Any Call.step (fun w c => w.waitsOn r id ∧ c.act.EndsRun r) w calls

/-- What every reachable state has: a run that awaits a review has one that was not approved, the run of
every review is there, and so is the review of every sender. -/
structure Linked (w : RuntimeAuthority) : Prop where
  awaiting : ∀ r, w.status? r = some .awaitingReview →
    ∃ id review, w.review? id = some review ∧ review.runId = r ∧ review.state ≠ .approved
  run : ∀ id review, w.review? id = some review → (w.status? review.runId).isSome
  review : ∀ id, (w.sender? id).isSome → (w.review? id).isSome

namespace Section

/-- A sender is registered only for a review that is still pending. -/
def InPlace (w : RuntimeAuthority) : Section → Prop
  | .registerCompletion id =>
    ∃ review, w.review? id = some review ∧ w.status? review.runId = some .awaitingReview
  | x => x.DrawsFresh w

/-- The sections that move a run, each with the status it moves to. -/
inductive Mover (w : RuntimeAuthority) (r : RunId) : Section → RunStatus → Prop where
  | start (spaceId : SpaceId) (agentId : Option AgentId) (spec : Value)
      (sessionId : Option SessionId) :
      Mover w r (.operation (.startRunWithSession spaceId agentId spec sessionId r)) .pending
  | openReview (request : Value) (drawn : ReviewId) (hOpens : w.opens r) :
      Mover w r (.operation (.openReview r request drawn)) .awaitingReview
  | approve (reviewId : ReviewId) (notes : Option String) (hAwaits : w.awaits r reviewId) :
      Mover w r (.operation (.resolveReview r reviewId .approved notes)) .running
  | pause (hStatus : w.status? r ≠ some .awaitingReview) :
      Mover w r (.operation (.pauseRun r)) .paused
  | resume : Mover w r (.operation (.resumeRun r)) .running
  | markRunning : Mover w r (.markRunning r) .running
  | ends {x : Section} {next : RunStatus} (hx : x.EndsRun r) (hNext : next.isTerminal) :
      Mover w r x next

/-- Where a review of the table comes from. -/
inductive Origin (w : RuntimeAuthority) (id : ReviewId) : Section → PendingReview → Prop where
  | opened {runId : RunId} (request : Value) (hOpens : w.opens runId) :
      Origin w id (.operation (.openReview runId request id))
        ⟨id, runId, request, .pending, none, w.now, w.now⟩
  | decided {review : PendingReview} {decision : PermissionState} (notes : Option String)
      (hReview : w.review? id = some review) (hDecision : decision ≠ .pending)
      (hState : review.state = .pending) :
      Origin w id (.operation (.resolveReview review.runId id decision notes))
        (review.resolve decision notes w.now)
  | kept {x : Section} {review : PendingReview} (hReview : w.review? id = some review) :
      Origin w id x review

variable {w : RuntimeAuthority} {x : Section} {r : RunId} {id : ReviewId}

theorem moved_eq_some {runId : RunId} {t : Transition} {next : RunStatus}
    (h : w.moved runId t r = some next) :
    runId = r ∧ ∃ status, w.status? r = some status ∧ t.next status = some next := by
  unfold RuntimeAuthority.moved at h
  split at h
  · rename_i hr
    obtain ⟨status, hStatus, hNext⟩ := Option.bind_eq_some_iff.mp h
    exact ⟨hr.symm, status, hStatus, hNext⟩
  · cases h

theorem moves_mover {next : RunStatus} (h : x.moves w r = some next) : Mover w r x next := by
  cases x with
  | operation o =>
    cases o with
    | startRunWithSession spaceId agentId spec sessionId drawn =>
      simp only [Section.moves, Operation.moves, Option.ite_none_right_eq_some] at h
      obtain ⟨⟨rfl, -⟩, hNext⟩ := h
      cases hNext
      exact .start ..
    | openReview runId request drawn =>
      simp only [Section.moves, Operation.moves, Option.ite_none_right_eq_some] at h
      obtain ⟨⟨rfl, hOpens⟩, hNext⟩ := h
      cases hNext
      exact .openReview request drawn hOpens
    | resolveReview runId reviewId decision notes =>
      simp only [Section.moves, Operation.moves, Option.ite_none_right_eq_some] at h
      obtain ⟨⟨rfl, rfl, hAwaits, -⟩, hNext⟩ := h
      cases hNext
      exact .approve reviewId notes hAwaits
    | pauseRun runId =>
      obtain ⟨rfl, status, hStatus, hNext⟩ := moved_eq_some h
      cases status <;> cases hNext <;> exact .pause (by simp [hStatus])
    | resumeRun runId =>
      obtain ⟨rfl, status, -, hNext⟩ := moved_eq_some h
      cases status <;> cases hNext <;> exact .resume
    | cancelRun runId =>
      obtain ⟨rfl, status, -, hNext⟩ := moved_eq_some h
      cases status <;> cases hNext <;> exact .ends rfl rfl
    | _ => cases h
  | markRunning runId =>
    obtain ⟨rfl, status, -, hNext⟩ := moved_eq_some h
    cases status <;> cases hNext <;> exact .markRunning
  | complete runId | fail runId message =>
    obtain ⟨rfl, status, -, hNext⟩ := moved_eq_some h
    cases hNext
    exact .ends rfl rfl
  | _ => cases h

theorem review_origin {review : PendingReview} (h : (x.apply w).review? id = some review) :
    Origin w id x review := by
  rw [RuntimeAuthority.review?, x.reviews_apply] at h
  obtain hAside | ⟨runId, request, drawn, rfl⟩ | ⟨runId, reviewId, decision, notes, rfl⟩ |
    ⟨reviewId, rfl⟩ := x.onReviews_cases
  · rw [(x.of_aside hAside).1] at h
    exact .kept h
  · dsimp only [Section.reviews] at h
    split at h
    · rename_i hOpens
      rw [Table.lookup_insert_if] at h
      split at h
      · subst id
        cases h
        exact .opened request hOpens
      · exact .kept h
    · exact .kept h
  · dsimp only [Section.reviews] at h
    split at h
    · rename_i hDecides
      rw [Table.lookup_modify] at h
      split at h
      · subst id
        obtain ⟨review, hReview, rfl⟩ := Option.map_eq_some_iff.mp h
        have hReview : w.review? reviewId = some review := hReview
        simp only [RuntimeAuthority.decides, RuntimeAuthority.awaits, hReview, Option.any_some,
          Bool.and_eq_true, decide_eq_true_eq] at hDecides
        obtain ⟨hDecision, rfl, hState⟩ := hDecides
        exact .decided notes hReview hDecision hState
      · exact .kept h
    · exact .kept h
  · exact .kept h

theorem review_isSome (h : (w.review? id).isSome) : ((x.apply w).review? id).isSome := by
  rw [RuntimeAuthority.review?, x.reviews_apply]
  obtain hAside | ⟨runId, request, drawn, rfl⟩ | ⟨runId, reviewId, decision, notes, rfl⟩ |
    ⟨reviewId, rfl⟩ := x.onReviews_cases
  · rw [(x.of_aside hAside).1]
    exact h
  · dsimp only [Section.reviews]
    split
    · rw [Table.lookup_insert_if]
      split
      · rfl
      · exact h
    · exact h
  · dsimp only [Section.reviews]
    split
    · rw [Table.lookup_modify]
      split
      · rw [Option.isSome_map]
        exact h
      · exact h
    · exact h
  · exact h

theorem sender_origin (h : ((x.apply w).sender? id).isSome) :
    (w.sender? id).isSome ∨ x = .registerCompletion id := by
  rw [RuntimeAuthority.sender?, x.senders_apply] at h
  obtain hAside | ⟨runId, request, drawn, rfl⟩ | ⟨runId, reviewId, decision, notes, rfl⟩ |
    ⟨reviewId, rfl⟩ := x.onReviews_cases
  · rw [(x.of_aside hAside).2.1] at h
    exact .inl h
  · exact .inl h
  · dsimp only [Section.senders] at h
    split at h
    · refine .inl ?_
      by_cases hId : id = reviewId
      · rw [hId, Finmap.lookup_erase] at h
        cases h
      · rwa [Finmap.lookup_erase_ne hId] at h
    · exact .inl h
  · by_cases hId : id = reviewId
    · exact .inr (by rw [hId])
    · dsimp only [Section.senders] at h
      rw [Finmap.lookup_insert_of_ne _ hId] at h
      exact .inl h

theorem status_isSome_apply (h : (w.status? r).isSome) : ((x.apply w).status? r).isSome := by
  rw [x.status_after]
  cases x.moves w r with
  | none => exact h
  | some next => rfl

theorem openReview_apply (request : Value) (id : ReviewId) (h : w.opens r) :
    let x := Section.operation (.openReview r request id)
    (x.apply w).review? id = some ⟨id, r, request, .pending, none, w.now, w.now⟩ ∧
      (x.apply w).status? r = some .awaitingReview := by
  intro x
  constructor
  · have hReviews : x.reviews w = w.inner.snapshot.reviews.insert id
        ⟨id, r, request, .pending, none, w.now, w.now⟩ := if_pos h
    rw [RuntimeAuthority.review?, x.reviews_apply, hReviews, Finmap.lookup_insert]
  · have hMoves : x.moves w r = some .awaitingReview := if_pos ⟨rfl, h⟩
    rw [x.status_after, hMoves, Option.some_or]

theorem linked_apply (hLinked : Linked w) (hPlace : x.InPlace w) : Linked (x.apply w) where
  awaiting r hStatus := by
    rw [x.status_after] at hStatus
    cases hMoves : x.moves w r with
    | some next =>
      rw [hMoves, Option.some_or] at hStatus
      cases hStatus
      cases moves_mover hMoves with
      | openReview request drawn hOpens =>
        exact ⟨drawn, _, (openReview_apply request drawn hOpens).1, rfl, nofun⟩
      | ends hEnds hNext => cases hNext
    | none =>
      rw [hMoves, Option.none_or] at hStatus
      obtain ⟨id, review, hReview, hRun, hState⟩ := hLinked.awaiting r hStatus
      obtain ⟨review', hAfter⟩ := Option.isSome_iff_exists.mp
        (review_isSome (x := x) (by rw [hReview]; rfl))
      refine ⟨id, review', hAfter, ?_⟩
      cases review_origin hAfter with
      | opened request hOpens =>
        rw [show w.review? id = none from hPlace] at hReview
        cases hReview
      | @decided review decision notes hReview' hDecision hWaits =>
        rw [hReview] at hReview'
        cases hReview'
        refine ⟨hRun, ?_⟩
        rintro rfl
        -- an approval would let the run go on
        have hAwaits : w.awaits review.runId id := by
          simp [RuntimeAuthority.awaits, hReview, hWaits]
        rw [← hRun] at hMoves hStatus
        have hRuns : Section.moves w review.runId
            (.operation (.resolveReview review.runId id .approved notes)) = some .running :=
          if_pos ⟨rfl, rfl, hAwaits, by rw [hStatus]; rfl⟩
        rw [hRuns] at hMoves
        cases hMoves
      | kept hReview' =>
        rw [hReview] at hReview'
        cases hReview'
        exact ⟨hRun, hState⟩
  run id review h := by
    cases review_origin h with
    | opened request hOpens =>
      refine status_isSome_apply ?_
      unfold RuntimeAuthority.opens at hOpens
      cases hStatus : w.status? _ with
      | none => simp [hStatus] at hOpens
      | some status => rfl
    | @decided before decision notes hReview hDecision hState =>
      exact status_isSome_apply (r := before.runId) (hLinked.run id before hReview)
    | kept hReview => exact status_isSome_apply (hLinked.run id _ hReview)
  review id h := by
    rcases sender_origin h with hBefore | rfl
    · exact review_isSome (hLinked.review id hBefore)
    · obtain ⟨review, hReview, -⟩ := hPlace
      exact review_isSome (by rw [hReview]; rfl)

theorem awaits_iff : w.awaits r id ↔
    ∃ review, w.review? id = some review ∧ review.runId = r ∧ review.state = .pending := by
  simp [RuntimeAuthority.awaits, Option.any_eq_true]

theorem waitsOn_iff : w.waitsOn r id ↔ ∃ review, w.review? id = some review ∧ review.runId = r ∧
    (review.state = .pending ∨ (w.sender? id).isSome) := by
  simp [RuntimeAuthority.waitsOn, Option.any_eq_true]

theorem not_awaits_of_approved {notes : Option String} (h : w.awaits r id) :
    ((Section.operation (.resolveReview r id .approved notes)).apply w).awaits r id = false := by
  have hOpen := isOpen_call w id ⟨r, .approved, notes⟩
  have hDecides : w.decides r id .approved := by simp [RuntimeAuthority.decides, h]
  rw [hDecides, Bool.not_true, Bool.and_false] at hOpen
  by_contra hAwaits
  obtain ⟨review, hReview, -, hState⟩ := awaits_iff.mp (eq_true_of_ne_false hAwaits)
  have hReview : (ReviewAnswer.call ⟨r, .approved, notes⟩ id |>.apply w).review? id = some review :=
    hReview
  simp [RuntimeAuthority.isOpen, hReview, hState] at hOpen

theorem pending_turn (hPlace : x.InPlace w) (hAwaits : (x.apply w).awaits r id)
    (hStatus : (x.apply w).status? r ≠ some .awaitingReview)
    (hBefore : w.awaits r id → w.status? r = some .awaitingReview) :
    w.awaits r id ∧ (x.LetsGo w r id ∨ x.EndsRun r) := by
  obtain ⟨review, hReview, hRun, hState⟩ := awaits_iff.mp hAwaits
  cases review_origin hReview with
  | opened request hOpens =>
    subst hRun
    exact absurd (openReview_apply request id hOpens).2 hStatus
  | decided notes hReview' hDecision hWaits => exact absurd hState hDecision
  | kept hReview' =>
    have hWaits : w.awaits r id := awaits_iff.mpr ⟨review, hReview', hRun, hState⟩
    have hAwaiting := hBefore hWaits
    rw [x.status_after] at hStatus
    cases hMoves : x.moves w r with
    | none =>
      rw [hMoves, Option.none_or] at hStatus
      exact absurd hAwaiting hStatus
    | some next =>
      refine ⟨hWaits, ?_⟩
      cases moves_mover hMoves with
      | start spaceId agentId spec sessionId =>
        have hNone : w.run? r = none := hPlace
        rw [RuntimeAuthority.status?, Snapshot.status?, ← RuntimeAuthority.run?, hNone] at hAwaiting
        cases hAwaiting
      | openReview request drawn hOpens => exact absurd (by rw [hMoves]; rfl) hStatus
      | approve reviewId notes hApproved =>
        have hOther : w.awaits r reviewId := by simpa [RuntimeAuthority.decides] using hApproved
        refine .inl ⟨rfl, ?_, hOther, rfl⟩
        rintro rfl
        rw [not_awaits_of_approved hApproved] at hAwaits
        cases hAwaits
      | pause hPaused => exact absurd hAwaiting hPaused
      | resume | markRunning => exact .inl rfl
      | ends hEnds hNext => exact .inr hEnds

theorem ended_turn (hPlace : x.InPlace w) (hEnded : (x.apply w).ended r)
    (hWaits : (x.apply w).waitsOn r id) (hBefore : w.waitsOn r id → w.ended r = false) :
    w.waitsOn r id ∧ x.EndsRun r := by
  obtain ⟨status, hStatus, hTerminal⟩ := ended_iff.mp hEnded
  have hWaits : w.waitsOn r id := by
    obtain ⟨review, hReview, hRun, hOpen⟩ := waitsOn_iff.mp hWaits
    cases review_origin hReview with
    | opened request hOpens =>
      subst hRun
      rw [(openReview_apply request id hOpens).2] at hStatus
      cases hStatus
      cases hTerminal
    | decided notes hReview' hDecision hPending =>
      exact waitsOn_iff.mpr ⟨_, hReview', hRun, .inl hPending⟩
    | kept hReview' =>
      refine waitsOn_iff.mpr ⟨review, hReview', hRun, hOpen.imp_right fun hSender => ?_⟩
      rcases sender_origin hSender with hSender | rfl
      · exact hSender
      · obtain ⟨review', hSame, hAwaiting⟩ := hPlace
        rw [hReview'] at hSame
        cases hSame
        have hKept : ((Section.registerCompletion id).apply w).status? r = w.status? r :=
          (Section.registerCompletion id).status_after w r
        rw [hKept, ← hRun, hAwaiting] at hStatus
        cases hStatus
        cases hTerminal
  refine ⟨hWaits, ?_⟩
  have hLive := hBefore hWaits
  rw [x.status_after] at hStatus
  cases hMoves : x.moves w r with
  | none =>
    rw [hMoves, Option.none_or] at hStatus
    rw [ended_iff.mpr ⟨status, hStatus, hTerminal⟩] at hLive
    cases hLive
  | some next =>
    rw [hMoves, Option.some_or] at hStatus
    cases hStatus
    cases moves_mover hMoves with
    | ends hEnds hNext => exact hEnds
    | _ => cases hTerminal

end Section

/-- The sections that a call may take, each from the state it meets. -/
inductive Call.Performs (w : RuntimeAuthority) : Call → Section × RuntimeAuthority → Prop where
  | operation (o : Operation) : Performs w (.operation o) (.operation o, w)
  | check (c : Call) (runId : RunId) : Performs w c (.runStatus runId, w)
  | markRunning (runId : RunId) : Performs w (.markRunRunning runId) (.markRunning runId, w.tick)
  | complete (runId : RunId) : Performs w (.completeRun runId) (.complete runId, w.tick)
  | fail (runId : RunId) (message : String) :
      Performs w (.failRun runId message) (.fail runId message, w.tick)
  | openReview (runId : RunId) (request : Value) (drawn : ReviewId) :
      Performs w (.openReviewWithCompletion runId request drawn)
        (.operation (.openReview runId request drawn), w)
  | registerCompletion (runId : RunId) (request : Value) (drawn : ReviewId) (h : w.opens runId) :
      Performs w (.openReviewWithCompletion runId request drawn)
        (.registerCompletion drawn, (Section.operation (.openReview runId request drawn)).apply w)
  | dropReceiver (id : SubscriptionId) : Performs w (.dropReceiver id) (.dropReceiver id, w)

section Calls

variable {w : RuntimeAuthority} {c : Call} {e : Section × RuntimeAuthority}

theorem runStatus_apply (runId : RunId) : (Section.runStatus runId).apply w = w.tick := by
  unfold Section.apply
  dsimp only [Section.decide, RuntimeAuthority.runStatus]
  split <;> rfl

theorem trace_lock {x : Section} : (lock x).trace w = [(x, w)] := by
  have hChained := Prog.trace_chained (lock x) w
  obtain ⟨w', hTrace, -⟩ := lock_yields (Prog.trace_yields (lock x) w)
  rw [hTrace] at hChained ⊢
  obtain ⟨rfl, -⟩ := hChained
  rfl

theorem mem_trace_checkThen {settled : RunStatus → Bool} {runId : RunId} {x : Section}
    (he : e ∈ (checkThen settled runId x).trace w) : e = (.runStatus runId, w) ∨ e = (x, w.tick) := by
  have hChained := Prog.trace_chained (checkThen settled runId x) w
  obtain ⟨w₁, ⟨hTrace, -⟩ | ⟨w₂, status, hTrace, -⟩⟩ :=
    checkThen_yields (Prog.trace_yields (checkThen settled runId x) w)
  · rw [hTrace] at hChained he
    obtain ⟨rfl, -⟩ := hChained
    exact .inl (List.mem_singleton.mp he)
  · rw [hTrace] at hChained he
    obtain ⟨rfl, hSecond, -⟩ := hChained
    have hSecond : w₂ = (Section.runStatus runId).apply w₁ := hSecond
    rw [runStatus_apply] at hSecond
    simpa [hSecond] using he

theorem performs (he : e ∈ c.op.trace w) : c.Performs w e := by
  cases c with
  | operation o =>
    rw [Call.op, trace_lock] at he
    obtain rfl := List.mem_singleton.mp he
    exact .operation o
  | dropReceiver id =>
    rw [Call.op, trace_lock] at he
    obtain rfl := List.mem_singleton.mp he
    exact .dropReceiver id
  | markRunRunning runId =>
    rcases mem_trace_checkThen he with rfl | rfl
    · exact .check ..
    · exact .markRunning runId
  | completeRun runId =>
    rcases mem_trace_checkThen he with rfl | rfl
    · exact .check ..
    · exact .complete runId
  | failRun runId message =>
    rcases mem_trace_checkThen he with rfl | rfl
    · exact .check ..
    · exact .fail runId message
  | openReviewWithCompletion runId request drawn =>
    rw [Call.op, openReviewWithCompletion] at he
    rcases openReview_answer (w := w) runId request drawn with ⟨error, hError⟩ | ⟨hOk, hOpens⟩
    · rw [Prog.trace_bind_of_error (by rw [lock_run]; exact hError), trace_lock] at he
      obtain rfl := List.mem_singleton.mp he
      exact .openReview ..
    · rw [Prog.trace_bind_of_ok (by rw [lock_run]; exact hOk), trace_lock, trace_lock, lock_run] at he
      rcases List.mem_cons.mp he with rfl | he
      · exact .openReview ..
      · obtain rfl := List.mem_singleton.mp he
        exact .registerCompletion runId request drawn hOpens

theorem Call.Performs.inPlace (h : c.Performs w e) (hFresh : c.act.DrawsFresh w) :
    e.1.InPlace e.2 := by
  cases h with
  | operation o => exact hFresh
  | openReview runId request drawn => exact hFresh
  | registerCompletion runId request drawn hOpens =>
    obtain ⟨hReview, hStatus⟩ := Section.openReview_apply request drawn hOpens
    exact ⟨_, hReview, hStatus⟩
  | _ => trivial

theorem linked_step (hLinked : Linked w) (hFresh : c.act.DrawsFresh w) : Linked (c.step w) := by
  rw [Call.step, Prog.run_snd]
  exact (Prog.trace_chained c.op w).preserves
    (fun e he h => Section.linked_apply h ((performs he).inPlace hFresh)) hLinked

theorem turn_step {Q : RuntimeAuthority → Prop} (hs : ¬Q w) (hEnd : Q (c.step w)) :
    ∃ e, c.Performs w e ∧ ¬Q e.2 ∧ Q (e.1.apply e.2) := by
  by_contra h
  push Not at h
  rw [Call.step, Prog.run_snd] at hEnd
  exact (Prog.trace_chained c.op w).preserves (P := fun w => ¬Q w)
    (fun e he hNot hQ => h e (performs he) hNot hQ) hs hEnd

theorem pending_step {r : RunId} {id : ReviewId} (hFresh : c.act.DrawsFresh w)
    (hs : ¬(w.awaits r id ∧ w.status? r ≠ some .awaitingReview))
    (hEnd : (c.step w).awaits r id ∧ (c.step w).status? r ≠ some .awaitingReview) :
    w.awaits r id ∧ (c.act.LetsGo w r id ∨ c.act.EndsRun r) := by
  obtain ⟨e, hPerforms, hNot, hAwaits, hStatus⟩ :=
    turn_step (Q := fun w => w.awaits r id ∧ w.status? r ≠ some .awaitingReview) hs hEnd
  have hTurn := Section.pending_turn (hPerforms.inPlace hFresh) hAwaits hStatus fun h =>
    by_contra fun hOther => hNot ⟨h, hOther⟩
  cases hPerforms with
  | check c runId | registerCompletion runId request drawn hOpens => exact hTurn.2.elim nofun nofun
  | _ => exact hTurn

theorem ended_step {r : RunId} {id : ReviewId} (hFresh : c.act.DrawsFresh w)
    (hs : ¬(w.ended r ∧ w.waitsOn r id)) (hEnd : (c.step w).ended r ∧ (c.step w).waitsOn r id) :
    w.waitsOn r id ∧ c.act.EndsRun r := by
  obtain ⟨e, hPerforms, hNot, hEnded, hWaits⟩ :=
    turn_step (Q := fun w => w.ended r ∧ w.waitsOn r id) hs hEnd
  have hTurn := Section.ended_turn (hPerforms.inPlace hFresh) hEnded hWaits fun h =>
    eq_false_of_ne_true fun hLive => hNot ⟨hLive, h⟩
  cases hPerforms with
  | check c runId | registerCompletion runId request drawn hOpens => exact hTurn.2.elim
  | _ => exact hTurn

end Calls

section Histories

variable {loaded : Except PersistenceError Snapshot} {faults : List (Option PersistenceError)}
  {clock : List Int} {w : RuntimeAuthority}

theorem rehydrate_clean (h : rehydrate loaded faults clock = .ok w) :
    (∀ r, w.status? r ≠ some .awaitingReview) ∧ (∀ id, w.review? id = none) ∧
      ∀ id, w.sender? id = none := by
  have hStart : ∃ snapshot saved faults' clock', w = .start (Snapshot.recover snapshot (clock.headD 0))
      saved faults' clock' := by
    cases loaded with
    | error e => cases h
    | ok snapshot =>
      simp only [rehydrate] at h
      split at h
      · split at h
        · cases h
        · cases h
          exact ⟨snapshot, _, _, _, rfl⟩
      · cases h
        exact ⟨snapshot, _, _, _, rfl⟩
  obtain ⟨snapshot, saved, faults', clock', rfl⟩ := hStart
  refine ⟨fun r hStatus => ?_, fun id => rfl, fun id => rfl⟩
  have hRun : ((snapshot.recover (clock.headD 0)).runs.lookup r).map (·.status) =
    some .awaitingReview := hStatus
  rw [Snapshot.recover, Table.lookup_mapValues] at hRun
  obtain ⟨run', hRun', hAwaiting⟩ := Option.map_eq_some_iff.mp hRun
  obtain ⟨run, -, rfl⟩ := Option.map_eq_some_iff.mp hRun'
  split at hAwaiting
  · cases hAwaiting
  · rename_i hAbandoned
    rw [hAwaiting] at hAbandoned
    exact hAbandoned rfl

/-- How reviews and runs agree after every history of calls from a start. -/
theorem reviews_follow (hStart : rehydrate loaded faults clock = .ok w) {calls : List Call}
    (hFresh : History.Each Call.step (fun w c => c.act.DrawsFresh w) w calls) :
    ReviewsFollow w calls := by
  obtain ⟨hStatus, hReview, hSender⟩ := rehydrate_clean hStart
  have hLinked : Linked w := by
    refine ⟨fun r h => absurd h (hStatus r), fun id review h => ?_, fun id h => ?_⟩
    · rw [hReview] at h
      cases h
    · rw [hSender] at h
      cases h
  have hAwaits (r : RunId) (id : ReviewId) : w.awaits r id = false := by
    rw [RuntimeAuthority.awaits, hReview]
    rfl
  have hWaits (r : RunId) (id : ReviewId) : w.waitsOn r id = false := by
    rw [RuntimeAuthority.waitsOn, hReview]
    rfl
  have hLinked : Linked (History.play Call.step w calls) :=
    History.preserves (I := Linked) (fun _ _ => linked_step) hFresh hLinked
  refine ⟨hLinked.awaiting, fun r id h => ?_, fun r id hEnded h => ?_⟩
  · by_cases hAwaiting : (History.play Call.step w calls).status? r = some .awaitingReview
    · exact .inl hAwaiting
    · exact .inr (History.any_of_turn
        (Q := fun w => w.awaits r id ∧ w.status? r ≠ some .awaitingReview)
        (fun _ _ hFresh => pending_step hFresh) hFresh (by simp [hAwaits]) ⟨h, hAwaiting⟩)
  · exact History.any_of_turn (Q := fun w => w.ended r ∧ w.waitsOn r id)
      (fun _ _ hFresh => ended_step hFresh) hFresh (by simp [hWaits]) ⟨hEnded, h⟩

end Histories

def reject : Call := .operation (.resolveReview coder shellPrompt .rejected none)

/-- A review that is rejected. -/
theorem waiting_follows : ReviewsFollow (inMemory []) (waiting ++ [reject]) := by
  have hStart : rehydrate (.ok .empty) [] [] = .ok (inMemory []) := rfl
  exact reviews_follow hStart ⟨trivial, rfl, rfl, trivial, trivial⟩

/-- After the rejection of its only review a run still awaits a review. -/
theorem rejection_disagrees :
    (History.play Call.step (inMemory []) (waiting ++ [reject])).status? coder =
      some .awaitingReview ∧
    ¬ReviewsAgree (History.play Call.step (inMemory []) (waiting ++ [reject])) := by
  have hStatus : (History.play Call.step (inMemory []) (waiting ++ [reject])).status? coder =
      some .awaitingReview := by decide
  refine ⟨hStatus, fun h => ?_⟩
  obtain ⟨id, hAwaits⟩ := (h.awaiting coder).mp hStatus
  have hKeys : (History.play Call.step (inMemory []) (waiting ++ [reject])).inner.snapshot.reviews.keys =
      {shellPrompt} := by decide
  obtain ⟨review, hReview, -, -⟩ := Section.awaits_iff.mp hAwaits
  have hMem := Finmap.mem_keys.mpr (Finmap.mem_of_lookup_eq_some hReview)
  rw [hKeys, Finset.mem_singleton] at hMem
  subst hMem
  revert hAwaits
  decide

end Cronymax.Authority
