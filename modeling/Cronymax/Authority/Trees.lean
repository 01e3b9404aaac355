import Cronymax.Authority.Sections

/-! The task trees, which the authority keeps in memory beside those of its snapshot.  Every section
edits both in the same way; a restart brings back one of them only. -/

namespace Cronymax.Authority

/-- `get_task_tree`. -/
def RuntimeAuthority.getTaskTree (w : RuntimeAuthority) (runId : RunId) : Option TaskTree :=
  w.inner.taskTrees.lookup runId

/-- The status of a task in the tree of its run. -/
def taskStatus (trees : Table RunId TaskTree) (runId : RunId) (taskId : TaskId) :
    Option TaskStatus :=
  (trees.lookup runId).bind fun tree => (tree.tasks.lookup taskId).map (·.status)

/-- The task that a section starts or ends. -/
def Section.taskId? : Section → Option TaskId
  | .operation (.startChildTask _ _ _ _ _ drawn) => some drawn
  | .operation (.completeChildTask _ taskId _ _) => some taskId
  | _ => none

section Edits

variable {w : RuntimeAuthority}

/-- A decision edits both copies of the trees alike. -/
structure EditsTrees (w : RuntimeAuthority) (d : Decision)
    (edit : Table RunId TaskTree → Table RunId TaskTree) : Prop where
  saved : (d.snapshot w.inner.snapshot).taskTrees = edit w.inner.snapshot.taskTrees
  inMemory : d.taskTrees w.inner.taskTrees = edit w.inner.taskTrees

theorem editTasks_trees (edit : Table RunId TaskTree → Table RunId TaskTree) (effects : List Effect)
    (reply : Reply) : EditsTrees w (w.editTasks edit effects reply) edit :=
  ⟨rfl, rfl⟩

theorem transitionRun_trees (runId : RunId) (t : Transition) :
    EditsTrees w (w.transitionRun runId t) id := by
  unfold RuntimeAuthority.transitionRun
  split
  · exact ⟨rfl, rfl⟩
  · split <;> exact ⟨rfl, rfl⟩

theorem resolveReview_trees (runId : RunId) (reviewId : ReviewId) (decision : PermissionState)
    (notes : Option String) : EditsTrees w (w.resolveReview runId reviewId decision notes) id := by
  unfold RuntimeAuthority.resolveReview
  split
  · exact ⟨rfl, rfl⟩
  · split
    · exact ⟨rfl, rfl⟩
    · split
      · exact ⟨rfl, rfl⟩
      · split
        · exact ⟨rfl, rfl⟩
        · dsimp only
          split <;> exact ⟨rfl, rfl⟩

theorem startRunWithSession_trees (spaceId : SpaceId) (agentId : Option AgentId) (spec : Value)
    (sessionId : Option SessionId) (drawn : RunId) :
    EditsTrees w (w.startRunWithSession spaceId agentId spec sessionId drawn) id := by
  unfold RuntimeAuthority.startRunWithSession
  dsimp only
  split
  · exact ⟨rfl, rfl⟩
  · split <;> exact ⟨rfl, rfl⟩

theorem Operation.decide_trees {o : Operation} (h : (Section.operation o).taskId? = none) :
    EditsTrees w (o.decide w) id := by
  cases o with
  | startChildTask | completeChildTask => cases h
  | subscribe topic drawn | unsubscribe id | emitForRun runId payload | emit topic payload
  | emitMany topics payload | emitLog target level message | bindSession flowRunId sessionId
  | seedFlowSessions pairs | upsertSpace space | attachRunToSession sessionId runId
  | putMemory namespaceId entry => exact ⟨rfl, rfl⟩
  | upsertAgent agent =>
    simp only [decide, RuntimeAuthority.upsertAgent]
    split <;> exact ⟨rfl, rfl⟩
  | getOrCreateSession sessionId spaceId name =>
    simp only [decide, RuntimeAuthority.getOrCreateSession]
    split
    · exact ⟨rfl, rfl⟩
    · split <;> exact ⟨rfl, rfl⟩
  | renameSession sessionId name | setSessionForkPoint sessionId parentSessionId forkPoint
  | flushThread sessionId thread | updateSessionNamespaces sessionId target namespaceId =>
    simp only [decide, RuntimeAuthority.renameSession, RuntimeAuthority.setSessionForkPoint,
      RuntimeAuthority.flushThread, RuntimeAuthority.updateSessionNamespaces]
    split <;> exact ⟨rfl, rfl⟩
  | attachFlowRunToSession sessionId flowRunId | autoNameSession sessionId name =>
    simp only [decide, RuntimeAuthority.attachFlowRunToSession, RuntimeAuthority.autoNameSession]
    split
    · exact ⟨rfl, rfl⟩
    · split <;> exact ⟨rfl, rfl⟩
  | setRunFlowId runId flowRunId | setRunGoal runId goal | appendProducedDoc runId doc
  | appendHistory runId payload =>
    simp only [decide, RuntimeAuthority.setRunFlowId, RuntimeAuthority.setRunGoal,
      RuntimeAuthority.appendProducedDoc, RuntimeAuthority.appendHistory]
    split <;> exact ⟨rfl, rfl⟩
  | postInput runId payload | openReview runId request drawn =>
    simp only [decide, RuntimeAuthority.postInput, RuntimeAuthority.openReview]
    split
    · exact ⟨rfl, rfl⟩
    · split <;> exact ⟨rfl, rfl⟩
  | cancelRun runId => exact transitionRun_trees runId .cancel
  | pauseRun runId => exact transitionRun_trees runId .pause
  | resumeRun runId => exact transitionRun_trees runId .resume
  | resolveReview runId reviewId decision notes => exact resolveReview_trees ..
  | startRunWithSession spaceId agentId spec sessionId drawn => exact startRunWithSession_trees ..

theorem Section.decide_trees {x : Section} (h : x.taskId? = none) : EditsTrees w (x.decide w) id := by
  cases x with
  | operation o => exact Operation.decide_trees h
  | runStatus runId =>
    simp only [decide, RuntimeAuthority.runStatus]
    split <;> exact ⟨rfl, rfl⟩
  | markRunning runId => exact transitionRun_trees runId .markRunning
  | complete runId => exact transitionRun_trees runId .complete
  | fail runId message => exact transitionRun_trees runId (.fail message)
  | registerCompletion reviewId | dropReceiver id => exact ⟨rfl, rfl⟩

theorem EditsTrees.apply {x : Section} {edit : Table RunId TaskTree → Table RunId TaskTree}
    (h : EditsTrees w (x.decide w) edit) :
    (x.apply w).inner.snapshot.taskTrees = edit w.inner.snapshot.taskTrees ∧
      (x.apply w).inner.taskTrees = edit w.inner.taskTrees := by
  rw [Section.snapshot_apply, Section.taskTrees_apply]
  exact ⟨h.saved, h.inMemory⟩

/-- The two copies of the trees are one. -/
def RuntimeAuthority.TreesAgree (w : RuntimeAuthority) : Prop :=
  w.inner.taskTrees = w.inner.snapshot.taskTrees

theorem treesAgree_iff : w.TreesAgree ↔
    ∀ runId, w.getTaskTree runId = w.inner.snapshot.taskTrees.lookup runId :=
  ⟨fun h runId => congrArg (·.lookup runId) h, Finmap.ext_lookup⟩

theorem RuntimeAuthority.TreesAgree.apply (h : w.TreesAgree) (x : Section) : (x.apply w).TreesAgree := by
  have hEdits : ∃ edit, EditsTrees w (x.decide w) edit := by
    by_cases hNone : x.taskId? = none
    · exact ⟨id, Section.decide_trees hNone⟩
    · cases x with
      | operation o =>
        cases o with
        | startChildTask | completeChildTask => exact ⟨_, editTasks_trees _ _ _⟩
        | _ => exact absurd rfl hNone
      | _ => exact absurd rfl hNone
  obtain ⟨edit, hEdit⟩ := hEdits
  obtain ⟨hSaved, hInMemory⟩ := hEdit.apply
  rw [TreesAgree, hSaved, hInMemory, h]

end Edits

section TaskStatus

variable {trees : Table RunId TaskTree} {runId r : RunId} {taskId t : TaskId}

theorem taskStatus_addTask (task : Task) : taskStatus (addTask runId task trees) r t =
    if r = runId ∧ t = task.id then some task.status else taskStatus trees r t := by
  simp only [taskStatus, addTask, Table.lookup_insert_if]
  by_cases hRun : r = runId
  · subst r
    simp only [if_true, Option.bind_some, Table.lookup_insert_if, true_and]
    split
    · rfl
    · cases trees.lookup runId <;> rfl
  · rw [if_neg hRun, if_neg fun h => hRun h.1]

theorem taskStatus_endTask_ne (output : Option Value) (success : Bool) (h : t ≠ taskId) :
    taskStatus (endTask runId taskId output success trees) r t = taskStatus trees r t := by
  simp only [taskStatus, endTask, Table.lookup_modify]
  split
  · subst r
    cases trees.lookup runId with
    | none => rfl
    | some tree =>
      simp only [Option.map_some, Option.bind_some, Table.lookup_modify, if_neg h]
  · rfl

end TaskStatus

end Cronymax.Authority
