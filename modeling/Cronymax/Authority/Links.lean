import Cronymax.Authority.Sections

/-! The links between the records of a snapshot: from a run to its space and its session, from a session
to its runs, and from a review to its run.  Two operations make links; every other operation keeps
them. -/

namespace Cronymax.Authority

def Snapshot.run? (s : Snapshot) (r : RunId) : Option Run := s.runs.lookup r

def Snapshot.hasSpace (s : Snapshot) (id : SpaceId) : Bool := (s.spaces.lookup id).isSome

@[grind =] def Snapshot.hasSession (s : Snapshot) (id : SessionId) : Bool := (s.sessions.lookup id).isSome

/-- The runs that the session lists. -/
@[grind =] def Snapshot.runIdsOf (s : Snapshot) (id : SessionId) : List RunId :=
  (s.sessions.lookup id).elim [] (·.runIds)

/-- What a run refers to. -/
def Run.links (run : Run) : SpaceId × Option SessionId := (run.spaceId, run.sessionId)

/-- The links of `s` are those of `s'`, which may have more spaces, sessions, and reviews of its runs. -/
structure KeepsLinks (s s' : Snapshot) : Prop where
  version : s'.schemaVersion = s.schemaVersion
  spaces : ∀ id, s.hasSpace id → s'.hasSpace id
  sessions : ∀ id, s.hasSession id → s'.hasSession id
  runIds : ∀ id, s'.runIdsOf id = s.runIdsOf id
  runs : ∀ r, (s'.run? r).map Run.links = (s.run? r).map Run.links
  reviews : ∀ id review, s'.reviews.lookup id = some review → (s.run? review.runId).isSome ∨
    ∃ review', s.reviews.lookup id = some review' ∧ review'.runId = review.runId

namespace KeepsLinks

variable {s s' s'' : Snapshot}

theorem refl (s : Snapshot) : KeepsLinks s s :=
  ⟨rfl, fun _ h => h, fun _ h => h, fun _ => rfl, fun _ => rfl, fun _ review h => .inr ⟨review, h, rfl⟩⟩

theorem run_isSome (h : KeepsLinks s s') (r : RunId) :
    (s'.run? r).isSome = (s.run? r).isSome := by
  have hRuns := congrArg Option.isSome (h.runs r)
  rwa [Option.isSome_map, Option.isSome_map] at hRuns

theorem trans (h : KeepsLinks s s') (h' : KeepsLinks s' s'') : KeepsLinks s s'' where
  version := h'.version.trans h.version
  spaces id hId := h'.spaces id (h.spaces id hId)
  sessions id hId := h'.sessions id (h.sessions id hId)
  runIds id := (h'.runIds id).trans (h.runIds id)
  runs r := (h'.runs r).trans (h.runs r)
  reviews id review hReview := by
    obtain hRun | ⟨review', hReview', hSame⟩ := h'.reviews id review hReview
    · exact .inl ((h.run_isSome _).symm.trans hRun)
    · obtain hRun | ⟨review'', hReview'', hSame'⟩ := h.reviews id review' hReview'
      · exact .inl (hSame ▸ hRun)
      · exact .inr ⟨review'', hReview'', hSame'.trans hSame⟩

theorem of_eq (hVersion : s'.schemaVersion = s.schemaVersion) (hSpaces : s'.spaces = s.spaces)
    (hSessions : s'.sessions = s.sessions) (hRuns : s'.runs = s.runs)
    (hReviews : s'.reviews = s.reviews) : KeepsLinks s s' where
  version := hVersion
  spaces id h := by rwa [Snapshot.hasSpace, hSpaces]
  sessions id h := by rwa [Snapshot.hasSession, hSessions]
  runIds id := by rw [Snapshot.runIdsOf, hSessions, Snapshot.runIdsOf]
  runs r := by rw [Snapshot.run?, hRuns, Snapshot.run?]
  reviews id review h := .inr ⟨review, hReviews ▸ h, rfl⟩

theorem addSpace (space : Space) :
    KeepsLinks s { s with spaces := s.spaces.insert space.id space } where
  version := rfl
  spaces id h := by
    rw [Snapshot.hasSpace, Table.lookup_insert_if]
    split
    · rfl
    · exact h
  sessions _ h := h
  runIds _ := rfl
  runs _ := rfl
  reviews _ review h := .inr ⟨review, h, rfl⟩

theorem setSession {id : SessionId} {session : Session} (h : session.runIds = s.runIdsOf id) :
    KeepsLinks s (s.setSession id session) where
  version := rfl
  spaces _ h := h
  sessions id' h := by
    rw [Snapshot.hasSession, Snapshot.setSession, Table.lookup_insert_if]
    split
    · rfl
    · exact h
  runIds id' := by
    rw [Snapshot.runIdsOf, Snapshot.setSession, Table.lookup_insert_if]
    split
    · subst id'
      exact h
    · rfl
  runs _ := rfl
  reviews _ review h := .inr ⟨review, h, rfl⟩

theorem editSession {id : SessionId} {session session' : Session}
    (h : s.sessions.lookup id = some session) (hRunIds : session'.runIds = session.runIds) :
    KeepsLinks s (s.setSession id session') :=
  setSession (by rw [hRunIds, Snapshot.runIdsOf, h]; rfl)

theorem editRun {r : RunId} {run run' : Run} (h : s.runs.lookup r = some run)
    (hLinks : run'.links = run.links) : KeepsLinks s (s.setRun r run') where
  version := rfl
  spaces _ h := h
  sessions _ h := h
  runIds _ := rfl
  runs r' := by
    rw [Snapshot.run?, Snapshot.setRun, Table.lookup_insert_if]
    split
    · subst r'
      rw [Snapshot.run?, h, Option.map_some, Option.map_some, hLinks]
    · rfl
  reviews _ review h := .inr ⟨review, h, rfl⟩

theorem addReview {id : ReviewId} {review : PendingReview} (h : (s.run? review.runId).isSome) :
    KeepsLinks s (s.setReview id review) where
  version := rfl
  spaces _ h := h
  sessions _ h := h
  runIds _ := rfl
  runs _ := rfl
  reviews id' review' h' := by
    rw [Snapshot.setReview, Table.lookup_insert_if] at h'
    split at h'
    · cases h'
      exact .inl h
    · exact .inr ⟨review', h', rfl⟩

theorem editReview {id : ReviewId} {review review' : PendingReview}
    (h : s.reviews.lookup id = some review) (hRun : review'.runId = review.runId) :
    KeepsLinks s (s.setReview id review') where
  version := rfl
  spaces _ h := h
  sessions _ h := h
  runIds _ := rfl
  runs _ := rfl
  reviews id' review'' h' := by
    rw [Snapshot.setReview, Table.lookup_insert_if] at h'
    split at h'
    · subst id'
      cases h'
      exact .inr ⟨review, h, hRun.symm⟩
    · exact .inr ⟨review'', h', rfl⟩

end KeepsLinks

section Sections

variable {w : RuntimeAuthority}

theorem transitionRun_keeps (runId : RunId) (t : Transition) :
    KeepsLinks w.inner.snapshot ((w.transitionRun runId t).snapshot w.inner.snapshot) := by
  unfold RuntimeAuthority.transitionRun
  split
  · exact .refl _
  · rename_i run hRun
    split
    · exact .refl _
    · exact .editRun hRun rfl

theorem openReview_keeps (runId : RunId) (request : Value) (drawn : ReviewId) :
    KeepsLinks w.inner.snapshot ((w.openReview runId request drawn).snapshot w.inner.snapshot) := by
  unfold RuntimeAuthority.openReview
  split
  · exact .refl _
  · rename_i run hRun
    split
    · exact .refl _
    · have hKept : KeepsLinks w.inner.snapshot (w.inner.snapshot.setRun runId
          { run with status := .awaitingReview, updatedAtMs := w.now }) := .editRun hRun rfl
      refine hKept.trans (.addReview ?_)
      rw [hKept.run_isSome]
      exact Option.isSome_of_eq_some hRun

theorem resolveReview_keeps (runId : RunId) (reviewId : ReviewId) (decision : PermissionState)
    (notes : Option String) : KeepsLinks w.inner.snapshot
      ((w.resolveReview runId reviewId decision notes).snapshot w.inner.snapshot) := by
  unfold RuntimeAuthority.resolveReview
  split
  · exact .refl _
  · split
    · exact .refl _
    · rename_i review hReview
      split
      · exact .refl _
      · split
        · exact .refl _
        · have hKept : KeepsLinks w.inner.snapshot (w.inner.snapshot.setReview reviewId
              { review with state := decision, notes, updatedAtMs := w.now }) :=
            .editReview hReview rfl
          split
          · exact hKept
          · rename_i run hRun
            exact hKept.trans (.editRun hRun rfl)

theorem getOrCreateSession_keeps (sessionId : SessionId) (spaceId : SpaceId) (name : Option String) :
    KeepsLinks w.inner.snapshot
      ((w.getOrCreateSession sessionId spaceId name).snapshot w.inner.snapshot) := by
  unfold RuntimeAuthority.getOrCreateSession
  dsimp only
  split
  · exact .refl _
  · split
    · exact .refl _
    · rename_i hNone
      exact .setSession (by rw [Snapshot.runIdsOf, hNone]; rfl)

/-- The section sets a link between runs and sessions. -/
def Section.links : Section → Bool
  | .operation (.startRunWithSession ..) | .operation (.attachRunToSession ..) => true
  | _ => false

theorem Operation.decide_keeps {o : Operation} (h : (Section.operation o).links = false) :
    KeepsLinks w.inner.snapshot ((o.decide w).snapshot w.inner.snapshot) := by
  cases o with
  | startRunWithSession | attachRunToSession => cases h
  | subscribe topic drawn | unsubscribe id | emitForRun runId payload | emit topic payload
  | emitMany topics payload | emitLog target level message | bindSession flowRunId sessionId
  | seedFlowSessions pairs => exact .refl _
  | upsertSpace space => exact .addSpace space
  | upsertAgent agent =>
    simp only [decide, RuntimeAuthority.upsertAgent]
    split
    · exact .refl _
    · exact .of_eq rfl rfl rfl rfl rfl
  | getOrCreateSession sessionId spaceId name => exact getOrCreateSession_keeps ..
  | renameSession sessionId name | setSessionForkPoint sessionId parentSessionId forkPoint
  | flushThread sessionId thread =>
    simp only [decide, RuntimeAuthority.renameSession, RuntimeAuthority.setSessionForkPoint,
      RuntimeAuthority.flushThread]
    split
    · exact .refl _
    · rename_i session hSession
      exact .editSession hSession rfl
  | attachFlowRunToSession sessionId flowRunId | autoNameSession sessionId name =>
    simp only [decide, RuntimeAuthority.attachFlowRunToSession, RuntimeAuthority.autoNameSession]
    split
    · exact .refl _
    · rename_i session hSession
      split
      · exact .refl _
      · exact .editSession hSession rfl
  | updateSessionNamespaces sessionId target namespaceId =>
    simp only [decide, RuntimeAuthority.updateSessionNamespaces]
    split
    · exact .refl _
    · rename_i session hSession
      refine .editSession hSession ?_
      dsimp only
      split <;> rfl
  | setRunFlowId runId flowRunId | setRunGoal runId goal | appendProducedDoc runId doc
  | appendHistory runId payload =>
    simp only [decide, RuntimeAuthority.setRunFlowId, RuntimeAuthority.setRunGoal,
      RuntimeAuthority.appendProducedDoc, RuntimeAuthority.appendHistory]
    split
    · exact .refl _
    · rename_i run hRun
      exact .editRun hRun rfl
  | postInput runId payload =>
    simp only [decide, RuntimeAuthority.postInput]
    split
    · exact .refl _
    · rename_i run hRun
      split
      · exact .refl _
      · exact .editRun hRun rfl
  | cancelRun runId => exact transitionRun_keeps runId .cancel
  | pauseRun runId => exact transitionRun_keeps runId .pause
  | resumeRun runId => exact transitionRun_keeps runId .resume
  | openReview runId request drawn => exact openReview_keeps ..
  | resolveReview runId reviewId decision notes => exact resolveReview_keeps ..
  | putMemory namespaceId entry => exact .of_eq rfl rfl rfl rfl rfl
  | startChildTask runId parentId label agentId flowId drawn
  | completeChildTask runId taskId output success => exact .of_eq rfl rfl rfl rfl rfl

theorem Section.decide_keeps {x : Section} (h : x.links = false) :
    KeepsLinks w.inner.snapshot ((x.decide w).snapshot w.inner.snapshot) := by
  cases x with
  | operation o => exact Operation.decide_keeps h
  | runStatus runId =>
    simp only [decide, RuntimeAuthority.runStatus]
    split <;> exact .refl _
  | markRunning runId => exact transitionRun_keeps runId .markRunning
  | complete runId => exact transitionRun_keeps runId .complete
  | fail runId message => exact transitionRun_keeps runId (.fail message)
  | registerCompletion reviewId | dropReceiver id => exact .refl _

end Sections

end Cronymax.Authority
