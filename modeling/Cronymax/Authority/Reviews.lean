import Cronymax.Authority.Statuses

/-! The reviews of a run and the senders that wait for their decisions, section by section.  Only
`open_review` and `resolve_review` change reviews, and only a review that is answered and the second
section of `open_review_with_completion` act on a sender. -/

namespace Cronymax.Authority

open Atomic

section Decisions

variable (w : RuntimeAuthority)

namespace RuntimeAuthority

/-- The run is there and has not ended. -/
def opens (runId : RunId) : Bool := (w.status? runId).any (!·.isTerminal)

/-- The decision is one, and the review is a pending one of the run. -/
@[grind =] def decides (runId : RunId) (reviewId : ReviewId) (decision : PermissionState) : Bool :=
  decision ≠ .pending && w.awaits runId reviewId

/-- The call resolves the review: nothing stands against it and the save goes well. -/
def grants (runId : RunId) (reviewId : ReviewId) (decision : PermissionState) : Bool :=
  w.decides runId reviewId decision && (w.status? runId).isSome && w.fault.isNone

end RuntimeAuthority

/-- The review with its decision. -/
def PendingReview.resolve (review : PendingReview) (decision : PermissionState)
    (notes : Option String) (now : Int) : PendingReview :=
  { review with state := decision, notes, updatedAtMs := now }

/-- The reviews of the snapshot that a decision makes. -/
def RuntimeAuthority.reviewsAfter (d : Decision) : Table ReviewId PendingReview :=
  (d.snapshot w.inner.snapshot).reviews

variable {w}

theorem status_isSome {runId : RunId} : (w.status? runId).isSome = (w.run? runId).isSome := by
  rw [RuntimeAuthority.status?, Snapshot.status?, Option.isSome_map]
  rfl

theorem openReview_reviews (runId : RunId) (request : Value) (drawn : ReviewId) :
    w.reviewsAfter (w.openReview runId request drawn) =
      if w.opens runId then
        w.inner.snapshot.reviews.insert drawn ⟨drawn, runId, request, .pending, none, w.now, w.now⟩
      else w.inner.snapshot.reviews := by
  unfold RuntimeAuthority.openReview RuntimeAuthority.opens
  split
  · rename_i hRun
    rw [if_neg (by simp [status_of_no_run hRun])]
    rfl
  · rename_i run hRun
    rw [status_of_run hRun]
    split
    · rename_i hTerminal
      rw [if_neg (by simp [hTerminal])]
      rfl
    · rename_i hLive
      rw [if_pos (by simpa using hLive)]
      rfl

theorem openReview_answer (runId : RunId) (request : Value) (drawn : ReviewId) :
    (∃ e, w.answer (w.openReview runId request drawn) = .error e) ∨
      (w.answer (w.openReview runId request drawn) = .ok (.review drawn) ∧ w.opens runId) := by
  unfold RuntimeAuthority.openReview RuntimeAuthority.opens
  split
  · exact .inl ⟨_, rfl⟩
  · rename_i run hRun
    rw [status_of_run hRun]
    split
    · exact .inl ⟨_, rfl⟩
    · rename_i hLive
      simp only [RuntimeAuthority.put, RuntimeAuthority.answer]
      split
      · exact .inl ⟨_, rfl⟩
      · exact .inr ⟨rfl, by simpa using hLive⟩

theorem openReview_effects (runId : RunId) (request : Value) (drawn : ReviewId) :
    ∀ e ∈ w.effectsOf (w.openReview runId request drawn), e.isHandoff = false := by
  unfold RuntimeAuthority.openReview
  intro e he
  split at he
  · cases he
  · split at he
    · cases he
    · simp only [RuntimeAuthority.put, RuntimeAuthority.effectsOf] at he
      split at he
      · cases he
      · simp only [List.mem_cons, List.not_mem_nil, or_false] at he
        rcases he with rfl | rfl <;> rfl

theorem resolveReview_cases (runId : RunId) (reviewId : ReviewId) (decision : PermissionState)
    (notes : Option String) :
    (w.decides runId reviewId decision = false ∧
      ∃ e, w.resolveReview runId reviewId decision notes = .refuse e) ∨
    w.decides runId reviewId decision ∧ ∃ review, w.review? reviewId = some review ∧
      ((w.run? runId = none ∧ w.resolveReview runId reviewId decision notes =
        .abort (.unknownRun runId)
          (w.inner.snapshot.setReview reviewId (review.resolve decision notes w.now))) ∨
      ∃ run run' effects, w.run? runId = some run ∧
        (∀ e ∈ effects, e.isHandoff = false) ∧
        w.resolveReview runId reviewId decision notes =
          w.put ((w.inner.snapshot.setReview reviewId
              (review.resolve decision notes w.now)).setRun runId run')
            .checked (effects ++ [.fire reviewId ⟨decision, notes⟩]) .unit) := by
  unfold RuntimeAuthority.resolveReview RuntimeAuthority.decides RuntimeAuthority.awaits
  split
  · rename_i hDecision
    exact .inl ⟨by simp [hDecision], _, rfl⟩
  · rename_i hDecision
    split
    · rename_i hReview
      exact .inl ⟨by simp [hReview], _, rfl⟩
    · rename_i review hReview
      split
      · rename_i hRun
        exact .inl ⟨by simp [hReview, hRun], _, rfl⟩
      · rename_i hRun
        split
        · rename_i hState
          exact .inl ⟨by simp [hReview, hState], _, rfl⟩
        · rename_i hState
          refine .inr ⟨by simp_all, review, hReview, ?_⟩
          dsimp only
          split
          · rename_i hNone
            exact .inl ⟨hNone, rfl⟩
          · rename_i run hSome
            refine .inr ⟨run, _, .emit (runTopics runId run.sessionId)
                (.trace runId.uuid (RuntimeAuthority.reviewResolved reviewId decision)) ::
              (if decision = .approved then [run.announce runId .running none] else []), hSome, ?_,
              rfl⟩
            intro e he
            split at he
            · simp only [List.mem_cons, List.not_mem_nil, or_false] at he
              rcases he with rfl | rfl <;> rfl
            · obtain rfl := List.mem_singleton.mp he
              rfl

theorem resolveReview_reviews (runId : RunId) (reviewId : ReviewId) (decision : PermissionState)
    (notes : Option String) :
    w.reviewsAfter (w.resolveReview runId reviewId decision notes) =
      if w.decides runId reviewId decision then
        w.inner.snapshot.reviews.modify reviewId (·.resolve decision notes w.now)
      else w.inner.snapshot.reviews := by
  have hModify {review : PendingReview} (h : w.review? reviewId = some review) :
      w.inner.snapshot.reviews.modify reviewId (·.resolve decision notes w.now) =
        w.inner.snapshot.reviews.insert reviewId (review.resolve decision notes w.now) := by
    rw [Table.modify, show w.inner.snapshot.reviews.lookup reviewId = some review from h]
  rcases resolveReview_cases (w := w) runId reviewId decision notes with
    ⟨hNot, e, hDecision⟩ | ⟨hDecides, review, hReview, ⟨-, hDecision⟩ |
      ⟨run, run', effects, -, -, hDecision⟩⟩
  · rw [hDecision, hNot]
    rfl
  · rw [hDecision, if_pos hDecides, hModify hReview]
    rfl
  · rw [hDecision, if_pos hDecides, hModify hReview]
    rfl

/-- `resolve_review` succeeds where it is granted. -/
theorem resolveReview_answer (runId : RunId) (reviewId : ReviewId) (decision : PermissionState)
    (notes : Option String) :
    if w.grants runId reviewId decision then
      w.answer (w.resolveReview runId reviewId decision notes) = .ok .unit
    else ∃ e, w.answer (w.resolveReview runId reviewId decision notes) = .error e := by
  unfold RuntimeAuthority.grants
  rw [status_isSome]
  rcases resolveReview_cases (w := w) runId reviewId decision notes with
    ⟨hNot, e, hDecision⟩ | ⟨hDecides, review, hReview, ⟨hRun, hDecision⟩ |
      ⟨run, run', effects, hRun, -, hDecision⟩⟩
  · rw [hDecision, hNot]
    exact ⟨e, rfl⟩
  · rw [hDecision, hRun, if_neg (by simp)]
    exact ⟨_, rfl⟩
  · rw [hDecision, hDecides, hRun]
    simp only [RuntimeAuthority.put, RuntimeAuthority.answer, RuntimeAuthority.failsWith, if_true]
    cases w.fault with
    | none => rfl
    | some e => exact ⟨_, rfl⟩

theorem resolveReview_effects (runId : RunId) (reviewId : ReviewId) (decision : PermissionState)
    (notes : Option String) :
    if w.grants runId reviewId decision then
      ∃ effects, (∀ e ∈ effects, e.isHandoff = false) ∧
        w.effectsOf (w.resolveReview runId reviewId decision notes) =
          effects ++ [.fire reviewId ⟨decision, notes⟩]
    else w.effectsOf (w.resolveReview runId reviewId decision notes) = [] := by
  unfold RuntimeAuthority.grants
  rw [status_isSome]
  rcases resolveReview_cases (w := w) runId reviewId decision notes with
    ⟨hNot, e, hDecision⟩ | ⟨hDecides, review, hReview, ⟨hRun, hDecision⟩ |
      ⟨run, run', effects, hRun, hEffects, hDecision⟩⟩
  · rw [hDecision, hNot]
    rfl
  · rw [hDecision, hRun, if_neg (by simp)]
    rfl
  · rw [hDecision, hDecides, hRun]
    simp only [RuntimeAuthority.put, RuntimeAuthority.effectsOf, RuntimeAuthority.failsWith, if_true]
    cases w.fault with
    | none => exact ⟨effects, hEffects, rfl⟩
    | some e => rfl

/-- A decision that leaves the reviews as they are and acts on no sender. -/
structure Aside (w : RuntimeAuthority) (d : Decision) : Prop where
  reviews : w.reviewsAfter d = w.inner.snapshot.reviews
  effects : ∀ e ∈ w.effectsOf d, e.isHandoff = false

theorem aside_refuse (e : AuthorityError) : Aside w (.refuse e) :=
  ⟨rfl, fun _ he => nomatch he⟩

theorem aside_commit {c : Commit} (hReviews : c.snapshot.reviews = w.inner.snapshot.reviews)
    (hEffects : ∀ e ∈ c.effects, e.isHandoff = false) : Aside w (.commit c) := by
  refine ⟨hReviews, fun e he => ?_⟩
  simp only [RuntimeAuthority.effectsOf] at he
  split at he
  · cases he
  · exact hEffects e he

theorem aside_emit {c : Commit} (hReviews : c.snapshot.reviews = w.inner.snapshot.reviews)
    {topics : List String} {payload : RuntimeEventPayload}
    (hEffects : c.effects = [.emit topics payload]) : Aside w (.commit c) :=
  aside_commit hReviews fun e he => by
    rw [hEffects] at he
    obtain rfl := List.mem_singleton.mp he
    rfl

theorem aside_silent {c : Commit} (hReviews : c.snapshot.reviews = w.inner.snapshot.reviews)
    (hEffects : c.effects = []) : Aside w (.commit c) :=
  aside_commit hReviews fun e he => by
    rw [hEffects] at he
    cases he

theorem transitionRun_aside (runId : RunId) (t : Transition) :
    Aside w (w.transitionRun runId t) := by
  unfold RuntimeAuthority.transitionRun
  split
  · exact aside_refuse _
  · split
    · exact aside_refuse _
    · exact aside_emit rfl rfl

def Operation.onReviews : Operation → Bool
  | .openReview .. | .resolveReview .. => true
  | _ => false

theorem Operation.decide_aside (o : Operation) (h : o.onReviews = false) : Aside w (o.decide w) := by
  cases o with
  | openReview | resolveReview => cases h
  | cancelRun runId | pauseRun runId | resumeRun runId => exact transitionRun_aside ..
  | subscribe topic drawn | unsubscribe id =>
    refine aside_commit rfl fun e he => ?_
    obtain rfl := List.mem_singleton.mp he
    rfl
  | emitForRun runId payload | emit topic payload | emitMany topics payload
  | startChildTask runId parentId label agentId flowId drawn
  | completeChildTask runId taskId output success | emitLog target level message =>
    exact aside_emit rfl rfl
  | upsertSpace space | attachRunToSession sessionId runId | bindSession flowRunId sessionId
  | seedFlowSessions pairs | putMemory namespaceId entry => exact aside_silent rfl rfl
  | startRunWithSession spaceId agentId spec sessionId drawn =>
    dsimp only [Operation.decide, RuntimeAuthority.startRunWithSession]
    split
    · exact aside_refuse _
    · split
      · exact aside_refuse _
      · exact aside_emit rfl rfl
  | upsertAgent agent | flushThread sessionId thread
  | setSessionForkPoint sessionId parentSessionId forkPoint
  | updateSessionNamespaces sessionId target namespaceId
  | setRunFlowId runId flowRunId | appendProducedDoc runId doc | setRunGoal runId goal
  | appendHistory runId payload =>
    dsimp only [Operation.decide, RuntimeAuthority.upsertAgent, RuntimeAuthority.flushThread,
      RuntimeAuthority.setSessionForkPoint, RuntimeAuthority.updateSessionNamespaces,
      RuntimeAuthority.setRunFlowId, RuntimeAuthority.appendProducedDoc,
      RuntimeAuthority.setRunGoal, RuntimeAuthority.appendHistory]
    split
    · first | exact aside_refuse _ | exact aside_silent rfl rfl
    · exact aside_silent rfl rfl
  | getOrCreateSession sessionId spaceId name =>
    dsimp only [Operation.decide, RuntimeAuthority.getOrCreateSession]
    split
    · exact aside_refuse _
    · split <;> exact aside_silent rfl rfl
  | renameSession sessionId name =>
    dsimp only [Operation.decide, RuntimeAuthority.renameSession]
    split
    · exact aside_refuse _
    · exact aside_emit rfl rfl
  | attachFlowRunToSession sessionId flowRunId =>
    dsimp only [Operation.decide, RuntimeAuthority.attachFlowRunToSession]
    split
    · exact aside_silent rfl rfl
    · split <;> exact aside_silent rfl rfl
  | autoNameSession sessionId name =>
    dsimp only [Operation.decide, RuntimeAuthority.autoNameSession]
    split
    · exact aside_silent rfl rfl
    · split
      · exact aside_silent rfl rfl
      · exact aside_emit rfl rfl
  | postInput runId payload =>
    dsimp only [Operation.decide, RuntimeAuthority.postInput]
    split
    · exact aside_refuse _
    · split
      · exact aside_refuse _
      · exact aside_emit rfl rfl

/-- The section opens a review or resolves one. -/
def Section.onReviews : Section → Bool
  | .operation o => o.onReviews
  | .registerCompletion _ => true
  | _ => false

theorem Section.decide_aside (x : Section) (h : x.onReviews = false) : Aside w (x.decide w) := by
  cases x with
  | operation o => exact o.decide_aside h
  | registerCompletion reviewId => cases h
  | markRunning runId => exact transitionRun_aside runId .markRunning
  | complete runId => exact transitionRun_aside runId .complete
  | fail runId message => exact transitionRun_aside runId (.fail message)
  | dropReceiver id =>
    refine aside_commit rfl fun e he => ?_
    obtain rfl := List.mem_singleton.mp he
    rfl
  | runStatus runId =>
    dsimp only [Section.decide, RuntimeAuthority.runStatus]
    split
    · exact aside_refuse _
    · exact aside_silent rfl rfl

end Decisions

namespace Section

variable (w : RuntimeAuthority)

/-- The reviews after a section. -/
def reviews : Section → Table ReviewId PendingReview
  | .operation (.openReview runId request drawn) =>
    if w.opens runId then
      w.inner.snapshot.reviews.insert drawn ⟨drawn, runId, request, .pending, none, w.now, w.now⟩
    else w.inner.snapshot.reviews
  | .operation (.resolveReview runId reviewId decision notes) =>
    if w.decides runId reviewId decision then
      w.inner.snapshot.reviews.modify reviewId (·.resolve decision notes w.now)
    else w.inner.snapshot.reviews
  | _ => w.inner.snapshot.reviews

/-- The registered senders after a section. -/
def senders : Section → Table ReviewId Completion
  | .registerCompletion reviewId => w.inner.pendingResolutions.insert reviewId ⟨w.completions⟩
  | .operation (.resolveReview runId reviewId decision _) =>
    if w.grants runId reviewId decision then w.inner.pendingResolutions.erase reviewId
    else w.inner.pendingResolutions
  | _ => w.inner.pendingResolutions

/-- The resolutions that a section sends. -/
def sends : Section → List (Completion × ReviewResolution)
  | .operation (.resolveReview runId reviewId decision notes) =>
    if w.grants runId reviewId decision then
      (w.inner.pendingResolutions.lookup reviewId).toList.map (·, ⟨decision, notes⟩)
    else []
  | _ => []

variable {w} (x : Section)

theorem onReviews_cases : x.onReviews = false ∨
    (∃ runId request drawn, x = .operation (.openReview runId request drawn)) ∨
    (∃ runId reviewId decision notes,
      x = .operation (.resolveReview runId reviewId decision notes)) ∨
    ∃ reviewId, x = .registerCompletion reviewId := by
  cases x with
  | operation o =>
    cases o with
    | openReview runId request drawn => exact .inr (.inl ⟨_, _, _, rfl⟩)
    | resolveReview runId reviewId decision notes => exact .inr (.inr (.inl ⟨_, _, _, _, rfl⟩))
    | _ => exact .inl rfl
  | registerCompletion reviewId => exact .inr (.inr (.inr ⟨_, rfl⟩))
  | _ => exact .inl rfl

theorem of_aside (h : x.onReviews = false) : x.reviews w = w.inner.snapshot.reviews ∧
    x.senders w = w.inner.pendingResolutions ∧ x.sends w = [] := by
  cases x with
  | operation o => cases o <;> first | exact ⟨rfl, rfl, rfl⟩ | cases h
  | registerCompletion reviewId => cases h
  | _ => exact ⟨rfl, rfl, rfl⟩

theorem reviews_apply : (x.apply w).inner.snapshot.reviews = x.reviews w := by
  rw [snapshot_apply]
  obtain h | ⟨runId, request, drawn, rfl⟩ | ⟨runId, reviewId, decision, notes, rfl⟩ |
    ⟨reviewId, rfl⟩ := x.onReviews_cases
  · exact (x.decide_aside h).reviews.trans (x.of_aside h).1.symm
  · exact openReview_reviews runId request drawn
  · exact resolveReview_reviews runId reviewId decision notes
  · rfl

theorem holds_senders (d : Decision) :
    (w.tick.holds d).inner.pendingResolutions = w.inner.pendingResolutions ∧
      (w.tick.holds d).resolutions = w.resolutions := by
  cases d <;> exact ⟨rfl, rfl⟩

theorem handoff_none (h : ∀ e ∈ w.effectsOf (x.decide w), e.isHandoff = false) :
    (x.apply w).inner.pendingResolutions = w.inner.pendingResolutions ∧
      (x.apply w).resolutions = w.resolutions := by
  obtain ⟨hKept, hSent⟩ := handoff_perform (w.tick.holds (x.decide w)) h
  rw [Section.apply, RuntimeAuthority.settle_eq]
  exact ⟨hKept.trans (holds_senders _).1, hSent.trans (holds_senders _).2⟩

theorem handoff_fire {effects : List Effect} {reviewId : ReviewId} {resolution : ReviewResolution}
    (hAside : ∀ e ∈ effects, e.isHandoff = false)
    (h : w.effectsOf (x.decide w) = effects ++ [.fire reviewId resolution]) :
    (x.apply w).inner.pendingResolutions = w.inner.pendingResolutions.erase reviewId ∧
      (x.apply w).resolutions = w.resolutions ++
        (w.inner.pendingResolutions.lookup reviewId).toList.map (·, resolution) := by
  obtain ⟨hKept, hSent⟩ := handoff_perform (w.tick.holds (x.decide w)) hAside
  rw [(holds_senders _).1] at hKept
  rw [(holds_senders _).2] at hSent
  rw [Section.apply, RuntimeAuthority.settle_eq, show w.tick.effectsOf (x.decide w) = _ from h,
    perform_append]
  generalize (w.tick.holds (x.decide w)).perform effects = w' at hKept hSent ⊢
  dsimp only [RuntimeAuthority.perform, List.foldl, Effect.apply]
  rw [hKept]
  cases hSender : w.inner.pendingResolutions.lookup reviewId with
  | none =>
    refine ⟨hKept.trans (Finmap.ext_lookup fun id => ?_), by simpa using hSent⟩
    by_cases hId : id = reviewId
    · subst id
      rw [hSender, Finmap.lookup_erase]
    · rw [Finmap.lookup_erase_ne hId]
  | some tx => exact ⟨rfl, by simp [hSent]⟩

theorem handoff_section : (x.apply w).inner.pendingResolutions = x.senders w ∧
    (x.apply w).resolutions = w.resolutions ++ x.sends w := by
  have hAside (hSenders : x.senders w = w.inner.pendingResolutions) (hSends : x.sends w = [])
      (hEffects : ∀ e ∈ w.effectsOf (x.decide w), e.isHandoff = false) :
      (x.apply w).inner.pendingResolutions = x.senders w ∧
        (x.apply w).resolutions = w.resolutions ++ x.sends w := by
    rw [hSenders, hSends, List.append_nil]
    exact x.handoff_none hEffects
  obtain h | ⟨runId, request, drawn, rfl⟩ | ⟨runId, reviewId, decision, notes, rfl⟩ |
    ⟨reviewId, rfl⟩ := x.onReviews_cases
  · exact hAside (x.of_aside h).2.1 (x.of_aside h).2.2 (x.decide_aside h).effects
  · exact hAside rfl rfl (openReview_effects runId request drawn)
  · have hEffects := resolveReview_effects (w := w) runId reviewId decision notes
    split at hEffects
    · rename_i hGrants
      obtain ⟨effects, hNone, hEffects⟩ := hEffects
      simpa only [senders, sends, if_pos hGrants] using handoff_fire _ hNone hEffects
    · rename_i hGrants
      refine hAside (if_neg hGrants) (if_neg hGrants) fun e he => ?_
      have he : e ∈ w.effectsOf (w.resolveReview runId reviewId decision notes) := he
      rw [hEffects] at he
      cases he
  · exact ⟨rfl, (List.append_nil _).symm⟩

theorem senders_apply : (x.apply w).inner.pendingResolutions = x.senders w := x.handoff_section.1

theorem resolutions_apply : (x.apply w).resolutions = w.resolutions ++ x.sends w :=
  x.handoff_section.2

end Section

end Cronymax.Authority
