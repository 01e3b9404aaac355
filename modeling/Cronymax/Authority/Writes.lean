import Cronymax.Authority.Agreement

/-! What the operations write, and when a section that fails leaves no trace.  The operations edit the
snapshot before they save it, and a failing save takes nothing back. -/

namespace Cronymax.Authority

open Atomic

namespace RuntimeAuthority

variable (w : RuntimeAuthority)

/-- The snapshot in memory is the one that was saved last. -/
def InStep : Prop := w.inner.snapshot = w.saved

def knowsSpace (spaceId : SpaceId) : Bool := (w.inner.snapshot.spaces.lookup spaceId).isSome

@[grind =] def session? (sessionId : SessionId) : Option Session := w.inner.snapshot.sessions.lookup sessionId

def forests : List (Table RunId TaskTree) := [w.inner.snapshot.taskTrees, w.inner.taskTrees]

/-- Whether a transition of a run is refused. -/
def Refuses (runId : RunId) (t : Transition) : Prop :=
  ∀ status ∈ w.status? runId, t.next status = none

end RuntimeAuthority

/-- A call that fails leaves memory and file as they were. -/
@[grind =] def LeavesNoTrace (w : RuntimeAuthority) (c : Call) : Prop :=
  ∀ e, c.result w = .error e →
    (c.step w).inner.snapshot = w.inner.snapshot ∧ (c.step w).inner.taskTrees = w.inner.taskTrees ∧
      (c.step w).inner.pendingResolutions = w.inner.pendingResolutions ∧
      (c.step w).emitted = w.emitted

/-- The edit of the operation changes nothing. -/
@[grind =] def Operation.Idle (w : RuntimeAuthority) : Operation → Prop
  | .upsertSpace space => w.inner.snapshot.spaces.lookup space.id = some space
  | .upsertAgent agent =>
    w.knowsSpace agent.spaceId → w.inner.snapshot.agents.lookup agent.id = some agent
  | .getOrCreateSession sessionId spaceId _ =>
    w.knowsSpace spaceId → (w.session? sessionId).isSome
  | .attachRunToSession sessionId runId => ∀ session ∈ w.session? sessionId, runId ∈ session.runIds
  | .attachFlowRunToSession sessionId flowRunId =>
    ∀ session ∈ w.session? sessionId, flowRunId ∈ session.flowRunIds
  | .renameSession sessionId name => ∀ session ∈ w.session? sessionId,
    session.name = some name ∧ session.manuallyNamed ∧ session.updatedAtMs = w.now
  | .autoNameSession sessionId name => ∀ session ∈ w.session? sessionId,
    session.manuallyNamed ∨ session.name = some name ∧ session.updatedAtMs = w.now
  | .setSessionForkPoint sessionId parentSessionId forkPoint => ∀ session ∈ w.session? sessionId,
    session.parentSessionId = some parentSessionId ∧ session.forkPoint = some forkPoint ∧
      session.updatedAtMs = w.now
  | .flushThread sessionId thread => ∀ session ∈ w.session? sessionId,
    session.thread = thread ∧ session.updatedAtMs = w.now
  | .updateSessionNamespaces sessionId target namespaceId => ∀ session ∈ w.session? sessionId,
    (target ≠ "write" → session.readNamespace = some namespaceId) ∧
      (target ≠ "read" → session.writeNamespace = some namespaceId) ∧ session.updatedAtMs = w.now
  | .startRunWithSession spaceId agentId spec sessionId drawn => w.accepts spaceId agentId →
    w.run? drawn = some (.new drawn spaceId agentId sessionId spec w.now) ∧
      ∀ sid ∈ sessionId, ∀ session ∈ w.session? sid, drawn ∈ session.runIds
  | .setRunFlowId runId flowRunId => ∀ run ∈ w.run? runId,
    run.flowRunId = some flowRunId ∧ run.updatedAtMs = w.now
  | .setRunGoal runId goal => ∀ run ∈ w.run? runId, run.goal = goal ∧ run.updatedAtMs = w.now
  | .appendProducedDoc runId _ | .appendHistory runId _ => w.run? runId = none
  | .cancelRun runId => w.Refuses runId .cancel
  | .pauseRun runId => w.Refuses runId .pause
  | .resumeRun runId => w.Refuses runId .resume
  | .postInput runId _ => ∀ run ∈ w.run? runId, run.status.isTerminal
  | .openReview runId request drawn => w.opens runId →
    w.review? drawn = some ⟨drawn, runId, request, .pending, none, w.now, w.now⟩ ∧
      ∀ run ∈ w.run? runId, run.status = .awaitingReview ∧ run.updatedAtMs = w.now
  | .resolveReview runId reviewId decision _ => w.decides runId reviewId decision = false
  | .putMemory namespaceId entry => ∃ ns ∈ w.inner.snapshot.memory.lookup namespaceId,
    ns.entries.lookup entry.key = some entry
  | .startChildTask runId parentId label agentId flowId drawn => ∀ trees ∈ w.forests,
    ∃ tree ∈ trees.lookup runId, tree.tasks.lookup drawn =
      some ⟨drawn, parentId, label, agentId, flowId, .running, none, w.now⟩
  | .completeChildTask runId taskId output success => ∀ trees ∈ w.forests,
    ∀ tree ∈ trees.lookup runId, ∀ task ∈ tree.tasks.lookup taskId,
      task.status = (if success then .completed else .failed) ∧ task.output = output
  | .subscribe .. | .unsubscribe .. | .emitForRun .. | .emit .. | .emitMany .. | .bindSession ..
  | .seedFlowSessions .. | .emitLog .. => True

/-- The operation answers without a look at how its save went. -/
def Operation.ignoresSave : Operation → Bool
  | .attachFlowRunToSession .. | .autoNameSession .. | .setSessionForkPoint ..
  | .updateSessionNamespaces .. | .setRunFlowId .. | .appendProducedDoc .. => true
  | _ => false

/-- `resolve_review` decides a review whose run is not there. -/
def Operation.Orphaned (w : RuntimeAuthority) : Operation → Prop
  | .resolveReview runId reviewId decision _ =>
    w.decides runId reviewId decision ∧ w.run? runId = none
  | _ => False

namespace Call

variable (w : RuntimeAuthority)

/-- The edit of the call changes nothing. -/
@[grind =] def Idle : Call → Prop
  | .operation o => o.Idle w
  | .markRunRunning runId => ∀ status ∈ w.status? runId, status = .running ∨ status.isTerminal
  | .completeRun runId | .failRun runId _ => ∀ status ∈ w.status? runId, status.isTerminal
  | .openReviewWithCompletion runId request drawn =>
    (Operation.openReview runId request drawn).Idle w
  | .dropReceiver _ => True

def ignoresSave : Call → Bool
  | .operation o => o.ignoresSave
  | _ => false

/-- The call leaves a task in memory whose save has failed. -/
def Orphaned : Call → Prop
  | .operation o => o.Orphaned w
  | _ => False

end Call

/-- What a decision writes: nothing, where `idle` holds.  A save whose error is returned also answers for
the task trees. -/
inductive Writes (w : RuntimeAuthority) (idle : Prop) : Bool → Decision → Prop where
  | refuse {ignores : Bool} {e : AuthorityError} (h : idle) : Writes w idle ignores (.refuse e)
  | keep {ignores : Bool} {c : Commit} (hNever : c.saves = .never)
      (hSame : c.snapshot = w.inner.snapshot) (h : idle) : Writes w idle ignores (.commit c)
  | checked {c : Commit} (hSaves : c.saves = .checked)
      (h : c.snapshot = w.inner.snapshot ∧ c.taskTrees = w.inner.taskTrees ↔ idle) :
      Writes w idle false (.commit c)
  | ignored {c : Commit} (hSaves : c.saves = .ignored)
      (h : c.snapshot = w.inner.snapshot ↔ idle) : Writes w idle true (.commit c)

/-- A section whose error leaves the state as it was. -/
@[grind =] def Section.LeavesNoTrace (w : RuntimeAuthority) (x : Section) : Prop :=
  ∀ e, w.answer (x.decide w) = .error e →
    (x.apply w).inner.snapshot = w.inner.snapshot ∧ (x.apply w).inner.taskTrees = w.inner.taskTrees ∧
      (x.apply w).inner.pendingResolutions = w.inner.pendingResolutions ∧
      (x.apply w).emitted = w.emitted

/-- The snapshot on disk after a decision. -/
def RuntimeAuthority.savedAfter (w : RuntimeAuthority) : Decision → Snapshot
  | .refuse _ | .abort _ _ => w.saved
  | .commit c => if c.saves = .never ∨ w.fault.isSome then w.saved else c.snapshot

section Sections

variable {w : RuntimeAuthority} {x : Section} {idle : Prop} {ignores : Bool}

theorem saved_apply : (x.apply w).saved = w.savedAfter (x.decide w) := by
  rw [Section.apply, RuntimeAuthority.settle_eq, saved_perform]
  cases x.decide w <;> rfl

theorem answer_of_fault {c : Commit} (h : x.decide w = .commit c) :
    w.answer (x.decide w) =
      if c.saves = .checked then w.fault.elim (.ok c.reply) fun e => .error (.persistence e)
      else .ok c.reply := by
  rw [h]
  simp only [RuntimeAuthority.answer, RuntimeAuthority.failsWith]
  split_ifs <;> cases w.fault <;> rfl

theorem quiet_of_error {e : AuthorityError} (h : w.answer (x.decide w) = .error e) :
    (x.apply w).inner.pendingResolutions = w.inner.pendingResolutions ∧
      (x.apply w).emitted = w.emitted := by
  have hEffects : w.effectsOf (x.decide w) = [] := by
    cases hDecide : x.decide w with
    | refuse e | abort e snapshot => rfl
    | commit c =>
      rw [hDecide] at h
      simp only [RuntimeAuthority.answer] at h
      simp only [RuntimeAuthority.effectsOf]
      cases hFails : w.failsWith c with
      | none =>
        rw [hFails] at h
        cases h
      | some error => rfl
  refine ⟨(x.handoff_none (by simp [hEffects])).1, ?_⟩
  rw [x.emitted_apply, hEffects]
  exact List.append_nil _

theorem leavesNoTrace_iff : x.LeavesNoTrace w ↔ ∀ e, w.answer (x.decide w) = .error e →
    (x.decide w).snapshot w.inner.snapshot = w.inner.snapshot ∧
      (x.decide w).taskTrees w.inner.taskTrees = w.inner.taskTrees := by
  refine forall_congr' fun e => forall_congr' fun hError => ?_
  rw [x.snapshot_apply, x.taskTrees_apply]
  simp [quiet_of_error hError]

theorem Writes.leavesNoTrace_iff (h : Writes w idle ignores (x.decide w)) :
    x.LeavesNoTrace w ↔ w.fault = none ∨ idle ∨ ignores := by
  rw [Authority.leavesNoTrace_iff]
  generalize hDecide : x.decide w = d at h
  have hAnswer {c : Commit} (hd : d = .commit c) := answer_of_fault (hDecide.trans hd)
  rw [hDecide] at hAnswer
  cases h with
  | refuse h => exact iff_of_true (fun _ _ => ⟨rfl, rfl⟩) (.inr (.inl h))
  | keep hNever hSame h =>
    rw [hAnswer rfl, hNever, if_neg nofun]
    exact iff_of_true nofun (.inr (.inl h))
  | ignored hSaves h =>
    rw [hAnswer rfl, hSaves, if_neg nofun]
    exact iff_of_true nofun (.inr (.inr rfl))
  | checked hSaves h =>
    rw [hAnswer rfl, hSaves, if_pos rfl]
    cases hFault : w.fault with
    | none => exact iff_of_true nofun (.inl rfl)
    | some error =>
      simp only [Option.elim, reduceCtorEq, Bool.false_eq_true, or_false, false_or]
      exact ⟨fun hSame => h.mp (hSame _ rfl), fun hIdle _ _ => h.mpr hIdle⟩

theorem Writes.inStep_iff (h : Writes w idle ignores (x.decide w)) (hStep : w.InStep) :
    x.LeavesNoTrace w ∧ (x.apply w).InStep ↔ w.fault = none ∨ idle := by
  rw [h.leavesNoTrace_iff, RuntimeAuthority.InStep, x.snapshot_apply, saved_apply]
  have hStep : w.saved = w.inner.snapshot := hStep.symm
  generalize x.decide w = d at h ⊢
  cases h with
  | refuse h => exact iff_of_true ⟨.inr (.inl h), hStep.symm⟩ (.inr h)
  | keep hNever hSame h =>
    refine iff_of_true ⟨.inr (.inl h), ?_⟩ (.inr h)
    simp [Decision.snapshot, RuntimeAuthority.savedAfter, hNever, hSame, hStep]
  | checked hSaves h =>
    cases hFault : w.fault with
    | none => simp [Decision.snapshot, RuntimeAuthority.savedAfter, hSaves, hFault]
    | some error =>
      simp only [Decision.snapshot, RuntimeAuthority.savedAfter, hFault, hStep, reduceCtorEq,
        Bool.false_eq_true, or_false, false_or, Option.isSome_some, or_true, if_true]
      exact and_iff_left_of_imp fun hIdle => (h.mpr hIdle).1
  | ignored hSaves h =>
    cases hFault : w.fault with
    | none => simp [Decision.snapshot, RuntimeAuthority.savedAfter, hSaves, hFault]
    | some error =>
      simp only [Decision.snapshot, RuntimeAuthority.savedAfter, hFault, hStep, reduceCtorEq,
        or_true, false_or, Option.isSome_some, if_true, true_and]
      exact h

end Sections

section Operations

variable {w : RuntimeAuthority} {idle : Prop} {ignores : Bool}

theorem writes_put {snapshot : Snapshot} {effects : List Effect} {reply : Reply}
    (h : snapshot = w.inner.snapshot ↔ idle) :
    Writes w idle false (w.put snapshot .checked effects reply) :=
  .checked rfl ((and_iff_left rfl).trans h)

theorem writes_ignored {snapshot : Snapshot} {effects : List Effect} {reply : Reply}
    (h : snapshot = w.inner.snapshot ↔ idle) :
    Writes w idle true (w.put snapshot .ignored effects reply) :=
  .ignored rfl h

theorem writes_keep {effects : List Effect} {reply : Reply} (h : idle) :
    Writes w idle ignores (w.keep effects reply) :=
  .keep rfl rfl h

theorem setRun_eq {runId : RunId} {run run' : Run} (hRun : w.run? runId = some run) :
    w.inner.snapshot.setRun runId run' = w.inner.snapshot ↔ run' = run := by
  rw [← Table.insert_eq_of_lookup (show w.inner.snapshot.runs.lookup runId = some run from hRun)]
  exact ⟨congrArg Snapshot.runs, fun h => by rw [Snapshot.setRun, h]⟩

theorem setSession_eq {sessionId : SessionId} {session session' : Session}
    (hSession : w.session? sessionId = some session) :
    w.inner.snapshot.setSession sessionId session' = w.inner.snapshot ↔ session' = session := by
  rw [← Table.insert_eq_of_lookup
    (show w.inner.snapshot.sessions.lookup sessionId = some session from hSession)]
  exact ⟨congrArg Snapshot.sessions, fun h => by rw [Snapshot.setSession, h]⟩

theorem transitionRun_writes {runId : RunId} {t : Transition}
    (h : ∀ status ∈ w.status? runId, t.next status ≠ some status) :
    Writes w (w.Refuses runId t) false (w.transitionRun runId t) := by
  unfold RuntimeAuthority.Refuses RuntimeAuthority.transitionRun
  split
  · rename_i hRun
    exact .refuse (by simp [status_of_no_run hRun])
  · rename_i run hRun
    have hStatus := status_of_run hRun
    rw [hStatus] at h ⊢
    split
    · rename_i hNext
      exact .refuse (by simp [hNext])
    · rename_i next hNext
      refine writes_put ((setRun_eq hRun).trans (iff_of_false (fun hSame => ?_) fun hRefused => ?_))
      · refine h run.status rfl ?_
        rw [hNext, ← congrArg Run.status hSame]
      · rw [hRefused run.status rfl] at hNext
        cases hNext

theorem attachRun_session_eq {session : Session} {runId : RunId} {now : Int} :
    session.attachRun runId now = session ↔ runId ∈ session.runIds := by
  unfold Session.attachRun
  split
  · rename_i hIn
    exact iff_of_true rfl hIn
  · rename_i hNew
    refine iff_of_false (fun hSame => ?_) hNew
    have hIds := congrArg Session.runIds hSame
    simp at hIds

theorem attachRun_eq {sessionId : Option SessionId} {runId : RunId} {now : Int}
    {sessions : Table SessionId Session} : attachRun sessionId runId now sessions = sessions ↔
      ∀ sid ∈ sessionId, ∀ session ∈ sessions.lookup sid, runId ∈ session.runIds := by
  unfold attachRun
  split
  · simp only [Table.modify_eq_self, attachRun_session_eq, Option.mem_some_iff, forall_eq']
  · simp

theorem startRun_writes (spaceId : SpaceId) (agentId : Option AgentId) (spec : Value)
    (sessionId : Option SessionId) (drawn : RunId) :
    Writes w (Operation.Idle w (.startRunWithSession spaceId agentId spec sessionId drawn)) false
      (w.startRunWithSession spaceId agentId spec sessionId drawn) := by
  unfold RuntimeAuthority.startRunWithSession
  dsimp only [Operation.Idle, RuntimeAuthority.accepts]
  split
  · rename_i hSpace
    exact .refuse (by simp [hSpace])
  · rename_i space hSpace
    split
    · rename_i hAgent
      exact .refuse (by simp [hAgent])
    · rename_i hAgent
      rw [hSpace, eq_false_of_ne_true hAgent]
      refine writes_put ⟨fun hSame _ => ⟨?_, ?_⟩, fun hIdle => ?_⟩
      · exact Table.insert_eq_self.mp (congrArg Snapshot.runs hSame)
      · exact attachRun_eq.mp (congrArg Snapshot.sessions hSame)
      · obtain ⟨hRun, hAttached⟩ := hIdle rfl
        rw [Snapshot.setRun, Table.insert_eq_self.mpr hRun, attachRun_eq.mpr hAttached]

theorem openReview_writes (runId : RunId) (request : Value) (drawn : ReviewId) :
    Writes w (Operation.Idle w (.openReview runId request drawn)) false
      (w.openReview runId request drawn) := by
  unfold RuntimeAuthority.openReview
  dsimp only [Operation.Idle, RuntimeAuthority.opens]
  split
  · rename_i hRun
    exact .refuse (by simp [status_of_no_run hRun])
  · rename_i run hRun
    rw [status_of_run hRun]
    split
    · rename_i hTerminal
      exact .refuse (by simp [hTerminal])
    · rename_i hLive
      simp only [hRun, Option.any_some, eq_false_of_ne_true hLive, Bool.not_false, true_imp_iff,
        Option.mem_some_iff, forall_eq']
      refine writes_put ⟨fun hSame => ⟨?_, ?_⟩, fun ⟨hReview, hStatus, hNow⟩ => ?_⟩
      · exact Table.insert_eq_self.mp (congrArg Snapshot.reviews hSame)
      · have hRuns : w.inner.snapshot.runs.insert runId _ = w.inner.snapshot.runs :=
          congrArg Snapshot.runs hSame
        have hEdit := (Table.insert_eq_of_lookup hRun).mp hRuns
        exact ⟨(congrArg Run.status hEdit).symm, (congrArg Run.updatedAtMs hEdit).symm⟩
      · have hEdit : { run with status := .awaitingReview, updatedAtMs := w.now } = run := by
          rw [← hStatus, ← hNow]
        rw [hEdit, (setRun_eq hRun).mpr rfl, Snapshot.setReview, Table.insert_eq_self.mpr hReview]

theorem resolve_ne {runId : RunId} {reviewId : ReviewId} {decision : PermissionState}
    {review : PendingReview} (hReview : w.review? reviewId = some review)
    (hDecides : w.decides runId reviewId decision) (notes : Option String) :
    review.resolve decision notes w.now ≠ review := by
  intro hSame
  have hState : decision = review.state := congrArg PendingReview.state hSame
  simp only [RuntimeAuthority.decides, RuntimeAuthority.awaits, hReview, Option.any_some,
    Bool.and_eq_true, decide_eq_true_eq] at hDecides
  exact hDecides.1 (hState.trans hDecides.2.2)

theorem resolveReview_writes (runId : RunId) (reviewId : ReviewId) (decision : PermissionState)
    (notes : Option String)
    (h : ¬Operation.Orphaned w (.resolveReview runId reviewId decision notes)) :
    Writes w (Operation.Idle w (.resolveReview runId reviewId decision notes)) false
      (w.resolveReview runId reviewId decision notes) := by
  dsimp only [Operation.Idle]
  rcases resolveReview_cases (w := w) runId reviewId decision notes with
    ⟨hNot, e, hDecision⟩ | ⟨hDecides, review, hReview, ⟨hRun, hDecision⟩ |
      ⟨run, run', effects, -, -, hDecision⟩⟩
  · rw [hDecision]
    exact .refuse hNot
  · exact absurd ⟨hDecides, hRun⟩ h
  · have hChanged := resolve_ne hReview hDecides notes
    rw [hDecision, hDecides]
    refine writes_put (iff_of_false (fun hSame => hChanged ?_) nofun)
    exact (Table.insert_eq_of_lookup hReview).mp (congrArg Snapshot.reviews hSame)

theorem putMemory_writes (namespaceId : MemoryNamespaceId) (entry : MemoryEntry) :
    Writes w (Operation.Idle w (.putMemory namespaceId entry)) false
      (w.putMemory namespaceId entry) := by
  have hMemory : w.inner.snapshot.memory.insert namespaceId
      { (w.inner.snapshot.memory.lookup namespaceId).getD ⟨namespaceId, ∅⟩ with
        entries := ((w.inner.snapshot.memory.lookup namespaceId).getD ⟨namespaceId, ∅⟩).entries.insert
          entry.key entry } = w.inner.snapshot.memory ↔
        ∃ ns ∈ w.inner.snapshot.memory.lookup namespaceId,
          ns.entries.lookup entry.key = some entry := by
    cases hSpace : w.inner.snapshot.memory.lookup namespaceId with
    | none =>
      rw [Table.insert_eq_self, hSpace]
      exact iff_of_false nofun nofun
    | some ns =>
      rw [Table.insert_eq_of_lookup hSpace]
      simp only [Option.getD_some, Option.mem_some_iff, exists_eq_left', ← Table.insert_eq_self]
      exact ⟨congrArg MemoryNamespace.entries, fun h => by rw [h]⟩
  exact writes_put (Iff.trans ⟨congrArg Snapshot.memory,
    congrArg fun memory => { w.inner.snapshot with memory }⟩ hMemory)

theorem addTask_eq {runId : RunId} {task : Task} {trees : Table RunId TaskTree} :
    addTask runId task trees = trees ↔
      ∃ tree ∈ trees.lookup runId, tree.tasks.lookup task.id = some task := by
  unfold addTask
  cases hTree : trees.lookup runId with
  | none =>
    rw [Table.insert_eq_self, hTree]
    exact iff_of_false nofun nofun
  | some tree =>
    rw [Table.insert_eq_of_lookup hTree]
    simp only [Option.elim, Option.mem_some_iff, exists_eq_left', ← Table.insert_eq_self]
    exact ⟨congrArg TaskTree.tasks, fun h => by rw [h]⟩

theorem endTask_eq {runId : RunId} {taskId : TaskId} {output : Option Value} {success : Bool}
    {trees : Table RunId TaskTree} : endTask runId taskId output success trees = trees ↔
      ∀ tree ∈ trees.lookup runId, ∀ task ∈ tree.tasks.lookup taskId,
        task.status = (if success then .completed else .failed) ∧ task.output = output := by
  unfold endTask
  rw [Table.modify_eq_self]
  refine forall_congr' fun tree => forall_congr' fun _ => ?_
  have hTree (tasks : Table TaskId Task) : TaskTree.mk tasks = tree ↔ tasks = tree.tasks :=
    ⟨congrArg TaskTree.tasks, fun h => by rw [h]⟩
  rw [hTree, Table.modify_eq_self]
  refine forall_congr' fun task => forall_congr' fun _ => ?_
  constructor
  · intro h
    exact ⟨(congrArg Task.status h).symm, (congrArg Task.output h).symm⟩
  · rintro ⟨hStatus, rfl⟩
    rw [← hStatus]

theorem editTasks_writes {edit : Table RunId TaskTree → Table RunId TaskTree}
    {P : Table RunId TaskTree → Prop} (h : ∀ trees, edit trees = trees ↔ P trees)
    (effects : List Effect) (reply : Reply) :
    Writes w (∀ trees ∈ w.forests, P trees) false (w.editTasks edit effects reply) := by
  refine .checked rfl ?_
  simp only [RuntimeAuthority.forests, List.mem_cons, List.not_mem_nil, or_false, forall_eq_or_imp,
    forall_eq, ← h]
  exact and_congr_left' ⟨congrArg Snapshot.taskTrees, fun hSame => by rw [hSame]⟩

theorem forall_of_none {α : Type} {o : Option α} {P : α → Prop} (h : o = none) : ∀ a ∈ o, P a := by
  rw [h]
  exact nofun

theorem forall_of_some {α : Type} {o : Option α} {a : α} {P : α → Prop} (h : o = some a) :
    (∀ a ∈ o, P a) ↔ P a := by
  simp only [h, Option.mem_some_iff, forall_eq']

theorem transition_writes {runId : RunId} {t : Transition}
    (h : t = .cancel ∨ t = .pause ∨ t = .resume) :
    Writes w (w.Refuses runId t) false (w.transitionRun runId t) := by
  refine transitionRun_writes fun status _ hNext => ?_
  rcases h with rfl | rfl | rfl <;> cases status <;> cases hNext

theorem upsertSpace_writes (space : Space) :
    Writes w (Operation.Idle w (.upsertSpace space)) false (w.upsertSpace space) := by
  refine writes_put ⟨fun hSame => ?_, fun hSame => ?_⟩
  · exact Table.insert_eq_self.mp (congrArg Snapshot.spaces hSame)
  · rw [Table.insert_eq_self.mpr hSame]

theorem upsertAgent_writes (agent : Agent) :
    Writes w (Operation.Idle w (.upsertAgent agent)) false (w.upsertAgent agent) := by
  unfold RuntimeAuthority.upsertAgent
  dsimp only [Operation.Idle, RuntimeAuthority.knowsSpace]
  split
  · rename_i hSpace
    exact .refuse (by simp [hSpace])
  · rename_i space hSpace
    rw [hSpace]
    refine writes_put ⟨fun hSame _ => ?_, fun hSame => ?_⟩
    · exact Table.insert_eq_self.mp (congrArg Snapshot.agents hSame)
    · rw [Table.insert_eq_self.mpr (hSame rfl)]

theorem getOrCreateSession_writes (sessionId : SessionId) (spaceId : SpaceId)
    (name : Option String) :
    Writes w (Operation.Idle w (.getOrCreateSession sessionId spaceId name)) false
      (w.getOrCreateSession sessionId spaceId name) := by
  unfold RuntimeAuthority.getOrCreateSession
  dsimp only [Operation.Idle, RuntimeAuthority.knowsSpace]
  split
  · rename_i hSpace
    exact .refuse (by simp [hSpace])
  · rename_i space hSpace
    rw [hSpace]
    split
    · rename_i session hSession
      exact writes_put (iff_of_true rfl fun _ => by rw [RuntimeAuthority.session?, hSession]; rfl)
    · rename_i hSession
      rw [RuntimeAuthority.session?, hSession]
      refine writes_put (iff_of_false (fun hSame => ?_) fun hIdle => nomatch hIdle rfl)
      have hLookup := Table.insert_eq_self.mp (congrArg Snapshot.sessions hSame)
      rw [hSession] at hLookup
      cases hLookup

theorem attachRun_writes (sessionId : SessionId) (runId : RunId) :
    Writes w (Operation.Idle w (.attachRunToSession sessionId runId)) false
      (w.attachRunToSession sessionId runId) := by
  have hSame : attachRun (some sessionId) runId w.now w.inner.snapshot.sessions =
      w.inner.snapshot.sessions ↔ ∀ session ∈ w.session? sessionId, runId ∈ session.runIds := by
    rw [attachRun_eq]
    simp [RuntimeAuthority.session?]
  exact writes_put (Iff.trans ⟨congrArg Snapshot.sessions,
    congrArg fun sessions => { w.inner.snapshot with sessions }⟩ hSame)

theorem attachFlowRun_writes (sessionId : SessionId) (flowRunId : String) :
    Writes w (Operation.Idle w (.attachFlowRunToSession sessionId flowRunId)) true
      (w.attachFlowRunToSession sessionId flowRunId) := by
  unfold RuntimeAuthority.attachFlowRunToSession
  dsimp only [Operation.Idle, RuntimeAuthority.session?]
  split
  · rename_i hSession
    exact writes_keep (forall_of_none hSession)
  · rename_i session hSession
    rw [forall_of_some hSession]
    split
    · rename_i hIn
      exact writes_keep hIn
    · rename_i hNew
      refine writes_ignored ((setSession_eq hSession).trans (iff_of_false (fun hSame => ?_) hNew))
      simpa using congrArg Session.flowRunIds hSame

theorem renameSession_writes (sessionId : SessionId) (name : String) :
    Writes w (Operation.Idle w (.renameSession sessionId name)) false
      (w.renameSession sessionId name) := by
  unfold RuntimeAuthority.renameSession
  dsimp only [Operation.Idle, RuntimeAuthority.session?]
  split
  · rename_i hSession
    exact .refuse (forall_of_none hSession)
  · rename_i session hSession
    rw [forall_of_some hSession]
    refine writes_put ((setSession_eq hSession).trans ?_)
    constructor
    · intro hSame
      exact ⟨(congrArg Session.name hSame).symm, (congrArg Session.manuallyNamed hSame).symm,
        (congrArg Session.updatedAtMs hSame).symm⟩
    · rintro ⟨hName, hNamed, hNow⟩
      rw [← hName, ← hNamed, ← hNow]

theorem autoNameSession_writes (sessionId : SessionId) (name : String) :
    Writes w (Operation.Idle w (.autoNameSession sessionId name)) true
      (w.autoNameSession sessionId name) := by
  unfold RuntimeAuthority.autoNameSession
  dsimp only [Operation.Idle, RuntimeAuthority.session?]
  split
  · rename_i hSession
    exact writes_keep (forall_of_none hSession)
  · rename_i session hSession
    rw [forall_of_some hSession]
    split
    · rename_i hNamed
      exact writes_keep (.inl hNamed)
    · rename_i hNamed
      refine writes_ignored ((setSession_eq hSession).trans ?_)
      rw [or_iff_right hNamed]
      constructor
      · intro hSame
        exact ⟨(congrArg Session.name hSame).symm, (congrArg Session.updatedAtMs hSame).symm⟩
      · rintro ⟨hName, hNow⟩
        rw [← hName, ← hNow]

theorem setSessionForkPoint_writes (sessionId parentSessionId : SessionId) (forkPoint : ForkPoint) :
    Writes w (Operation.Idle w (.setSessionForkPoint sessionId parentSessionId forkPoint)) true
      (w.setSessionForkPoint sessionId parentSessionId forkPoint) := by
  unfold RuntimeAuthority.setSessionForkPoint
  dsimp only [Operation.Idle, RuntimeAuthority.session?]
  split
  · rename_i hSession
    exact writes_keep (forall_of_none hSession)
  · rename_i session hSession
    rw [forall_of_some hSession]
    refine writes_ignored ((setSession_eq hSession).trans ?_)
    constructor
    · intro hSame
      exact ⟨(congrArg Session.parentSessionId hSame).symm, (congrArg Session.forkPoint hSame).symm,
        (congrArg Session.updatedAtMs hSame).symm⟩
    · rintro ⟨hParent, hFork, hNow⟩
      rw [← hParent, ← hFork, ← hNow]

theorem flushThread_writes (sessionId : SessionId) (thread : List ChatMessage) :
    Writes w (Operation.Idle w (.flushThread sessionId thread)) false
      (w.flushThread sessionId thread) := by
  unfold RuntimeAuthority.flushThread
  dsimp only [Operation.Idle, RuntimeAuthority.session?]
  split
  · rename_i hSession
    exact writes_keep (forall_of_none hSession)
  · rename_i session hSession
    rw [forall_of_some hSession]
    refine writes_put ((setSession_eq hSession).trans ?_)
    constructor
    · intro hSame
      exact ⟨(congrArg Session.thread hSame).symm, (congrArg Session.updatedAtMs hSame).symm⟩
    · rintro ⟨rfl, hNow⟩
      rw [← hNow]

theorem updateSessionNamespaces_writes (sessionId : SessionId) (target : String)
    (namespaceId : MemoryNamespaceId) :
    Writes w (Operation.Idle w (.updateSessionNamespaces sessionId target namespaceId)) true
      (w.updateSessionNamespaces sessionId target namespaceId) := by
  unfold RuntimeAuthority.updateSessionNamespaces
  dsimp only [Operation.Idle, RuntimeAuthority.session?]
  split
  · rename_i hSession
    exact writes_keep (forall_of_none hSession)
  · rename_i session hSession
    rw [forall_of_some hSession]
    refine writes_ignored ((setSession_eq hSession).trans ?_)
    clear hSession
    cases session
    split
    · simp [eq_comm]
    · simp [eq_comm]
    · rename_i hRead hWrite
      simp [show target ≠ "read" from hRead, show target ≠ "write" from hWrite, eq_comm]

theorem setRunFlowId_writes (runId : RunId) (flowRunId : String) :
    Writes w (Operation.Idle w (.setRunFlowId runId flowRunId)) true
      (w.setRunFlowId runId flowRunId) := by
  unfold RuntimeAuthority.setRunFlowId
  dsimp only [Operation.Idle]
  split
  · rename_i hRun
    exact writes_keep (forall_of_none hRun)
  · rename_i run hRun
    rw [forall_of_some hRun]
    refine writes_ignored ((setRun_eq hRun).trans ?_)
    constructor
    · intro hSame
      exact ⟨(congrArg Run.flowRunId hSame).symm, (congrArg Run.updatedAtMs hSame).symm⟩
    · rintro ⟨hFlow, hNow⟩
      rw [← hFlow, ← hNow]

theorem setRunGoal_writes (runId : RunId) (goal : Option String) :
    Writes w (Operation.Idle w (.setRunGoal runId goal)) false (w.setRunGoal runId goal) := by
  unfold RuntimeAuthority.setRunGoal
  dsimp only [Operation.Idle]
  split
  · rename_i hRun
    exact .refuse (forall_of_none hRun)
  · rename_i run hRun
    rw [forall_of_some hRun]
    refine writes_put ((setRun_eq hRun).trans ?_)
    constructor
    · intro hSame
      exact ⟨(congrArg Run.goal hSame).symm, (congrArg Run.updatedAtMs hSame).symm⟩
    · rintro ⟨rfl, hNow⟩
      rw [← hNow]

theorem appendProducedDoc_writes (runId : RunId) (doc : ProducedDoc) :
    Writes w (Operation.Idle w (.appendProducedDoc runId doc)) true
      (w.appendProducedDoc runId doc) := by
  unfold RuntimeAuthority.appendProducedDoc
  dsimp only [Operation.Idle]
  split
  · rename_i hRun
    exact writes_keep hRun
  · rename_i run hRun
    rw [hRun]
    refine writes_ignored ((setRun_eq hRun).trans (iff_of_false (fun hSame => ?_) nofun))
    simpa using congrArg Run.produces hSame

theorem appendHistory_writes (runId : RunId) (payload : Value) :
    Writes w (Operation.Idle w (.appendHistory runId payload)) false
      (w.appendHistory runId payload) := by
  unfold RuntimeAuthority.appendHistory
  dsimp only [Operation.Idle]
  split
  · rename_i hRun
    exact .refuse hRun
  · rename_i run hRun
    rw [hRun]
    refine writes_put ((setRun_eq hRun).trans (iff_of_false (fun hSame => ?_) nofun))
    simpa using congrArg Run.history hSame

theorem postInput_writes (runId : RunId) (payload : Value) :
    Writes w (Operation.Idle w (.postInput runId payload)) false (w.postInput runId payload) := by
  unfold RuntimeAuthority.postInput
  dsimp only [Operation.Idle]
  split
  · rename_i hRun
    exact .refuse (forall_of_none hRun)
  · rename_i run hRun
    rw [forall_of_some hRun]
    split
    · rename_i hTerminal
      exact .refuse hTerminal
    · rename_i hLive
      refine writes_put ((setRun_eq hRun).trans (iff_of_false (fun hSame => ?_) hLive))
      simpa using congrArg Run.history hSame

theorem startChildTask_writes (runId : RunId) (parentId : Option TaskId) (label : String)
    (agentId : Option AgentId) (flowId : Option String) (drawn : TaskId) :
    Writes w (Operation.Idle w (.startChildTask runId parentId label agentId flowId drawn)) false
      (w.startChildTask runId parentId label agentId flowId drawn) := by
  have hSame (trees : Table RunId TaskTree) : addTask runId
      ⟨drawn, parentId, label, agentId, flowId, .running, none, w.now⟩ trees = trees ↔ _ := addTask_eq
  exact editTasks_writes hSame _ _

theorem completeChildTask_writes (runId : RunId) (taskId : TaskId) (output : Option Value)
    (success : Bool) :
    Writes w (Operation.Idle w (.completeChildTask runId taskId output success)) false
      (w.completeChildTask runId taskId output success) := by
  have hSame (trees : Table RunId TaskTree) :
      endTask runId taskId output success trees = trees ↔ _ := endTask_eq
  exact editTasks_writes hSame _ _

theorem Operation.decide_writes (o : Operation) (h : ¬o.Orphaned w) :
    Writes w (o.Idle w) o.ignoresSave (o.decide w) := by
  cases o with
  | subscribe topic drawn | unsubscribe id | emitForRun runId payload | emit topic payload
  | emitMany topics payload | emitLog target level message => exact writes_keep trivial
  | bindSession flowRunId sessionId | seedFlowSessions pairs => exact .keep rfl rfl trivial
  | upsertSpace space => exact upsertSpace_writes space
  | upsertAgent agent => exact upsertAgent_writes agent
  | getOrCreateSession sessionId spaceId name => exact getOrCreateSession_writes ..
  | attachRunToSession sessionId runId => exact attachRun_writes sessionId runId
  | attachFlowRunToSession sessionId flowRunId => exact attachFlowRun_writes sessionId flowRunId
  | renameSession sessionId name => exact renameSession_writes sessionId name
  | autoNameSession sessionId name => exact autoNameSession_writes sessionId name
  | setSessionForkPoint sessionId parentSessionId forkPoint => exact setSessionForkPoint_writes ..
  | flushThread sessionId thread => exact flushThread_writes sessionId thread
  | updateSessionNamespaces sessionId target namespaceId =>
    exact updateSessionNamespaces_writes sessionId target namespaceId
  | startRunWithSession spaceId agentId spec sessionId drawn => exact startRun_writes ..
  | setRunFlowId runId flowRunId => exact setRunFlowId_writes runId flowRunId
  | setRunGoal runId goal => exact setRunGoal_writes runId goal
  | appendProducedDoc runId doc => exact appendProducedDoc_writes runId doc
  | appendHistory runId payload => exact appendHistory_writes runId payload
  | cancelRun runId => exact transition_writes (.inl rfl)
  | pauseRun runId => exact transition_writes (.inr (.inl rfl))
  | resumeRun runId => exact transition_writes (.inr (.inr rfl))
  | postInput runId payload => exact postInput_writes runId payload
  | openReview runId request drawn => exact openReview_writes ..
  | resolveReview runId reviewId decision notes => exact resolveReview_writes _ _ _ _ h
  | putMemory namespaceId entry => exact putMemory_writes namespaceId entry
  | startChildTask runId parentId label agentId flowId drawn => exact startChildTask_writes ..
  | completeChildTask runId taskId output success => exact completeChildTask_writes ..

end Operations

end Cronymax.Authority
