import Cronymax.Atomic.Triple
import Cronymax.Flow.Comments
import Cronymax.Flow.Cycles

/-! The feedback of a review.  A verdict writes its comments under the port of the document, and the
context in which the author is invoked again carries the comments that the port's JSON pointer
reaches.  Neither looks at the node. -/

namespace Cronymax.Flow

open Atomic FlowRuntime

variable {flow : FlowDefinition} {flowId runId : String} {K : String → List ReviewComment}

/-- File operations succeed, the run is there, and `K` is what is on file for each document. -/
structure OnFile (flowId runId : String) (K : String → List ReviewComment) (w : FlowRuntime) :
    Prop where
  healthy : w.Healthy
  run : ∃ s, w.getRun runId = some s ∧ s.flowId = flowId
  comments : ∀ doc, (w.reviews flowId runId).commentsOf doc = K doc

/-- The section neither writes the review file nor registers a run. -/
def Act.leavesReviews : Act → Bool
  | .writeReviewsTmp _ _ _ | .renameReviews _ _ | .register _ => false
  | _ => true

theorem Act.flowId_change {a : Act} (h : ∀ state, a ≠ .register state) (now : String)
    (s : FlowRunState) : (a.change now s).flowId = s.flowId := by
  cases a with
  | register state => exact absurd rfl (h state)
  | markPortStatus runId' node port status =>
    obtain ⟨nodes, hNodes⟩ := s.markPort_eq node port status
    rw [change, hNodes]
  | transition runId' status reason =>
    simp only [change, FlowRunState.transition]
    split <;> rfl
  | _ => rfl

theorem flowId_apply {a : Act} (h : ∀ state, a ≠ .register state) {w : FlowRuntime}
    (hRun : ∃ s, w.getRun runId = some s ∧ s.flowId = flowId) :
    ∃ s, (a.apply w).getRun runId = some s ∧ s.flowId = flowId := by
  obtain ⟨s, hRun, hFlow⟩ := hRun
  exact ⟨_, a.getRun_apply hRun,
    (Act.onRun_view (·.flowId) (a.flowId_change h w.now s)).trans hFlow⟩

theorem OnFile.apply {a : Act} (ha : a.leavesReviews = true) (w : FlowRuntime)
    (h : OnFile flowId runId K w) : OnFile flowId runId K (Acts.apply a w) := by
  have hStep : a.fileStep = none ∨ a.fileStep = some .read := by
    cases a <;> first | exact .inl rfl | exact .inr rfl | cases ha
  refine ⟨h.healthy.apply a, flowId_apply ?_ h.run, fun doc => ?_⟩
  · rintro state rfl
    cases ha
  · rw [← h.comments doc]
    exact congrArg (·.commentsOf doc) (reviews_apply hStep w flowId runId).1

theorem OnFile.of_only {α : Type} {p : Op α} (hp : p.Only (·.leavesReviews = true)) :
    Prog.Keeps (OnFile flowId runId K) p fun _ => True :=
  .of_only hp fun _ ha => OnFile.apply ha

theorem OnFile.perform {α : Type} {a : Act} {f : FlowRuntime → Op α} {L : α → Prop}
    (ha : a.leavesReviews = true)
    (h : ∀ w, OnFile flowId runId K w → Prog.Keeps (OnFile flowId runId K) (f w) L) :
    Prog.Keeps (OnFile flowId runId K) (Prog.perform a >>= f) L :=
  .perform (OnFile.apply ha) h

theorem ReviewEdit.op_onFile (e : ReviewEdit) :
    Prog.Triple (OnFile flowId runId K) (e.op flowId runId)
      (fun _ => OnFile flowId runId fun doc => K doc ++ e.commentsFor doc) fun _ => False := by
  have hWrite (now : String) (reviews : Reviews) (hReviews : ∀ doc, reviews.commentsOf doc = K doc) :
      Prog.Triple (OnFile flowId runId K) (writeReviews flowId runId (e.edit now reviews))
        (fun _ => OnFile flowId runId fun doc => K doc ++ e.commentsFor doc) fun _ => False := by
    intro w hw
    have hTmp := reviews_apply_write hw.healthy flowId runId (e.edit now reviews)
    have hHealthy := hw.healthy.apply (.writeReviewsTmp flowId runId (e.edit now reviews))
    have hRun := flowId_apply (a := .writeReviewsTmp flowId runId (e.edit now reviews)) (by simp) hw.run
    simp only [writeReviews, Prog.perform_bind, Prog.run, hw.healthy.fault]
    have hApply : (Acts.apply (Act.writeReviewsTmp flowId runId (e.edit now reviews)) w) =
        Act.apply (.writeReviewsTmp flowId runId (e.edit now reviews)) w := rfl
    rw [hApply]
    generalize Act.apply (.writeReviewsTmp flowId runId (e.edit now reviews)) w = w1
      at hTmp hHealthy hRun
    have hRename : w1.renameFault flowId runId = none := by
      rw [renameFault, hHealthy.fault, hTmp.2]
    rw [hRename]
    refine ⟨hHealthy.apply _, flowId_apply (by simp) hRun, fun doc => ?_⟩
    have hFile := (reviews_apply_rename hHealthy flowId runId).1
    rw [hTmp.2, Option.getD_some] at hFile
    rw [← hReviews doc, ← Reviews.commentsOf_edit reviews now e doc, ← hFile]
    rfl
  have hRead {f : Reviews → Op Unit}
      (hf : ∀ reviews : Reviews, (∀ doc, reviews.commentsOf doc = K doc) →
        Prog.Triple (OnFile flowId runId K) (f reviews)
          (fun _ => OnFile flowId runId fun doc => K doc ++ e.commentsFor doc) fun _ => False) :
      Prog.Triple (OnFile flowId runId K) (readReviews flowId runId >>= f)
        (fun _ => OnFile flowId runId fun doc => K doc ++ e.commentsFor doc) fun _ => False := by
    rw [readReviews, bind_assoc]
    refine .perform fun w hw => ?_
    rw [hw.healthy.fault]
    rintro _ rfl
    exact hf (w.reviews flowId runId) hw.comments _ (OnFile.apply rfl w hw)
  have hNow {f : String → Op Unit}
      (hf : ∀ now, Prog.Triple (OnFile flowId runId K) (f now)
          (fun _ => OnFile flowId runId fun doc => K doc ++ e.commentsFor doc) fun _ => False) :
      Prog.Triple (OnFile flowId runId K) (utcNowIso >>= f)
        (fun _ => OnFile flowId runId fun doc => K doc ++ e.commentsFor doc) fun _ => False := by
    rw [utcNowIso, bind_assoc]
    refine .perform fun w hw => ?_
    rintro _ rfl
    exact hf w.now _ (OnFile.apply rfl w hw)
  cases e with
  | write port reviewer comments =>
    exact hRead fun reviews hReviews => hNow fun now => hWrite now reviews hReviews
  | upsert doc node sha revision status =>
    refine hRead fun reviews hReviews => ?_
    by_cases hRevision : revision > 0
    · rw [if_pos hRevision]
      exact hNow fun now => hWrite now reviews hReviews
    · rw [if_neg hRevision]
      exact hWrite "" reviews hReviews

theorem noteReview_onFile (doc node sha : String) (revision : UInt32) (status : String) :
    Prog.Keeps (OnFile flowId runId K) (noteReview runId doc node sha revision status)
      fun _ => True := by
  refine OnFile.perform rfl fun w hw => ?_
  obtain ⟨s, hRun, rfl⟩ := hw.run
  rw [hRun]
  have hUpsert : Prog.Triple (OnFile s.flowId runId K)
      (upsertReviewState s.flowId runId doc node sha revision status)
      (fun _ => OnFile s.flowId runId fun doc => K doc ++ []) fun _ => False :=
    (ReviewEdit.upsert doc node sha revision status).op_onFile
  simp only [List.append_nil] at hUpsert
  have hKeeps : Prog.Keeps (OnFile s.flowId runId K)
      (upsertReviewState s.flowId runId doc node sha revision status) fun _ => True :=
    hUpsert.mono (fun _ h => h) (fun _ _ h => ⟨h, trivial⟩) fun _ h => h.elim
  exact hKeeps.attempt.bind fun _ _ => .done trivial

theorem persistRun_leaves (s : FlowRunState) : (persistRun s).Only (·.leavesReviews = true) := by
  refine .perform rfl fun w => ?_
  split <;> trivial

theorem updateRun_leaves {act : Act} (hAct : act.leavesReviews = true)
    (f : FlowRunState → FlowRunState) : (updateRun act runId f).Only (·.leavesReviews = true) := by
  refine .perform hAct fun w => ?_
  split
  · trivial
  · exact (persistRun_leaves _).bind fun _ => trivial

theorem markPortStatus_leaves (node port : String) (status : PortStatus) :
    (markPortStatus runId node port status).Only (·.leavesReviews = true) := by
  refine .perform rfl fun w => ?_
  split
  · trivial
  · split
    · exact persistRun_leaves _
    · trivial

theorem markPortStatusUnchecked_leaves (node port : String) (status : PortStatus) :
    (markPortStatusUnchecked runId node port status).Only (·.leavesReviews = true) :=
  (updateRun_leaves rfl _).bind fun _ => trivial

theorem recordInvocation_leaves (nodeId : String) (trigger : InvocationTrigger) :
    (recordInvocation runId nodeId trigger).Only (·.leavesReviews = true) :=
  (updateRun_leaves rfl _).bind fun _ => trivial

theorem transitionRun_leaves (status : FlowRunStatus) (reason : Option String) :
    (transitionRun runId status reason).Only (·.leavesReviews = true) := by
  refine .perform rfl fun w => ?_
  split
  · trivial
  · split
    · trivial
    · exact persistRun_leaves _

theorem publishOutput_leaves (node port : String) :
    (publishOutput runId node port flow).Only (·.leavesReviews = true) := by
  unfold publishOutput
  split
  · trivial
  · refine .perform rfl fun w => ?_
    dsimp only
    split
    · trivial
    · exact .perform rfl fun _ => trivial

theorem checkCycleLimit_leaves (node port : String) :
    (checkCycleLimit runId node port flow).Only (·.leavesReviews = true) := by
  obtain ⟨_, hCheck⟩ := checkCycleLimit_eq runId flow node port
  rw [hCheck]
  have hIncrement : (incrementPortCycles runId node port).Only (·.leavesReviews = true) :=
    (updateRun_leaves rfl _).bind fun _ => trivial
  split
  · trivial
  · exact hIncrement.bind fun _ => trivial

/-- The comments that `read_review_comments` finds for the port. -/
def reaches (K : String → List ReviewComment) (port : String) : List ReviewComment :=
  ((Reviews.pointed port).map K).getD []

/-- A context goes to `nodeId` for `trigger`, and one that requeues a rejected document carries the
comments on file. -/
structure Carries (K : String → List ReviewComment) (nodeId : String) (trigger : InvocationTrigger)
    (ctx : InvocationContext) : Prop where
  key : ctx.key = (nodeId, trigger)
  comments : ∀ port, trigger = rejectedRequeueTrigger port → ctx.reviewComments = some (reaches K port)

theorem readReviewComments_onFile (port : String) :
    Prog.Keeps (OnFile flowId runId K) (readReviewComments flowId runId port) (· = reaches K port) := by
  rw [readReviewComments, readReviews, bind_assoc]
  refine OnFile.perform rfl fun w hw => ?_
  rw [hw.healthy.fault]
  refine .done ?_
  have hComments : (w.reviews flowId runId).commentsOf = K := funext hw.comments
  rw [reaches, ← hComments]
  exact Reviews.commentsAt_eq _ port

theorem buildInvocationContext_onFile (nodeId : String) (trigger : InvocationTrigger) :
    Prog.Keeps (OnFile flowId runId K) (buildInvocationContext runId nodeId trigger flow)
      fun ctx => ∀ c ∈ ctx, Carries K nodeId trigger c := by
  refine OnFile.perform rfl fun w hw => ?_
  obtain ⟨s, hRun, rfl⟩ := hw.run
  rw [hRun]
  cases flow.node nodeId with
  | none => exact .done (by simp)
  | some n =>
    have hFeedback : Prog.Keeps (OnFile s.flowId runId K) (feedbackFor s.flowId runId trigger)
        fun comments => ∀ port, trigger = rejectedRequeueTrigger port →
          comments = some (reaches K port) := by
      unfold feedbackFor
      split
      · rename_i port hKind hPort
        refine (readReviewComments_onFile port).bind fun comments h => .done fun port' hTrigger => ?_
        obtain rfl : port = port' := by simpa [hTrigger, rejectedRequeueTrigger] using hPort.symm
        rw [h]
      · rename_i hNot
        refine .done fun port hTrigger => ?_
        exact (hNot port (by rw [hTrigger]; rfl) (by rw [hTrigger]; rfl)).elim
    refine hFeedback.bind fun comments h => .done ?_
    rintro c ⟨⟩
    exact ⟨rfl, h⟩

theorem scheduleNodeWithContext_onFile (nodeId : String) (trigger : InvocationTrigger) :
    Prog.Keeps (OnFile flowId runId K) (scheduleNodeWithContext runId nodeId trigger flow)
      fun ctx => ∀ c ∈ ctx, Carries K nodeId trigger c :=
  (buildInvocationContext_onFile nodeId trigger).bind fun _ h =>
    (OnFile.of_only (recordInvocation_leaves nodeId trigger)).bind fun _ _ => .done h

theorem onRejectedRequeue_onFile (node port : String) :
    Prog.Keeps (OnFile flowId runId K) (onRejectedRequeue runId node port flow)
      fun ctx => ∀ c ∈ ctx, Carries K node (rejectedRequeueTrigger port) c :=
  (OnFile.of_only (markPortStatusUnchecked_leaves node port .pending)).bind fun _ _ =>
    (noteReview_onFile port node "" 0 "CHANGES_REQUESTED").bind fun _ _ =>
      scheduleNodeWithContext_onFile node (rejectedRequeueTrigger port)

/-- The context requeues no rejected document. -/
def Forward (ctx : InvocationContext) : Prop := ctx.trigger.kind ≠ .rejectedRequeue

theorem Carries.forward {nodeId : String} {trigger : InvocationTrigger} {ctx : InvocationContext}
    (h : Carries K nodeId trigger ctx) (hKind : trigger.kind ≠ .rejectedRequeue) : Forward ctx := by
  rw [Forward, show ctx.trigger = trigger from congrArg Prod.snd h.key]
  exact hKind

theorem Forward.key_ne {ctx : InvocationContext} (h : Forward ctx) (node port : String) :
    ctx.key ≠ (node, rejectedRequeueTrigger port) := by
  intro hKey
  refine h ?_
  rw [show ctx.trigger = rejectedRequeueTrigger port from congrArg Prod.snd hKey]
  rfl

/-- The operation adds no comment to the file and requeues no rejected document. -/
abbrev Forwards (runId : String) (p : Op (List InvocationContext)) : Prop :=
  ∀ flowId K, Prog.Keeps (OnFile flowId runId K) p fun ctxs => ∀ ctx ∈ ctxs, Forward ctx

theorem schedule_forwards (nodeId : String) {trigger : InvocationTrigger}
    (hKind : trigger.kind ≠ .rejectedRequeue) :
    Forwards runId (do
      let ctx ← scheduleNodeWithContext runId nodeId trigger flow
      pure ctx.toList) := by
  intro flowId K
  refine (scheduleNodeWithContext_onFile nodeId trigger).bind fun ctx h => .done fun c hc => ?_
  exact (h c (Option.mem_toList.mp hc)).forward hKind

theorem activateNode_forwards (nodeId : String) {trigger : InvocationTrigger}
    (hKind : trigger.kind ≠ .rejectedRequeue) :
    Forwards runId (activateNode runId flow nodeId trigger) := by
  intro flowId K
  unfold activateNode
  split
  · exact .done (by simp)
  · split
    · refine .collect _ fun output _ => ?_
      exact (OnFile.of_only (markPortStatusUnchecked_leaves _ _ _)).bind fun _ _ => .done (by simp)
    · exact schedule_forwards nodeId hKind flowId K

theorem activateNodes_forwards (nodes : List String) {trigger : InvocationTrigger}
    (hKind : trigger.kind ≠ .rejectedRequeue) :
    Forwards runId (activateNodes runId flow trigger nodes) :=
  fun flowId K => .collect _ fun nodeId _ => activateNode_forwards nodeId hKind flowId K

theorem fireAndJoinFor_forwards (node port : String) :
    Forwards runId (fireAndJoinFor node port runId flow) := by
  intro flowId K
  rw [fireAndJoinFor_eq]
  split
  · exact .done (by simp)
  · refine OnFile.perform rfl fun w _ => ?_
    split
    · exact .done (by simp)
    · exact activateNodes_forwards _ (by simp [andJoinTrigger]) flowId K

theorem reinvokeProducer_forwards (node port : String) :
    Forwards runId (reinvokeProducer runId node port flow) := by
  intro flowId K
  unfold reinvokeProducer
  split
  · exact .done (by simp)
  · split
    · exact .done (by simp)
    · refine OnFile.perform rfl fun w _ => ?_
      split
      · exact .done (by simp)
      · split
        · exact .done (by simp)
        · exact schedule_forwards node (by simp [implicitReinvokeTrigger]) flowId K

theorem onDocumentApproved_forwards (node port : String) :
    Forwards runId (onDocumentApproved runId node port flow) := by
  intro flowId K
  have hApprove : Prog.Keeps (OnFile flowId runId K) (approvePort runId node port flow)
      fun _ => True :=
    (OnFile.of_only (markPortStatus_leaves node port .approved)).bind fun _ _ =>
      (OnFile.of_only (publishOutput_leaves node port)).bind fun _ _ => noteReview_onFile _ _ _ _ _
  have hFollow (joined : List InvocationContext) (hJoined : ∀ ctx ∈ joined, Forward ctx) :
      Prog.Keeps (OnFile flowId runId K) (followApproval runId node port flow joined)
        fun ctxs => ∀ ctx ∈ ctxs, Forward ctx := by
    refine (activateNodes_forwards _ (by simp [cycleRetriggerTrigger]) flowId K).bind
      fun retriggered h1 => (reinvokeProducer_forwards node port flowId K).bind
        fun reinvoked h2 => .done fun ctx hctx => ?_
    rcases List.mem_append.mp hctx with h | h
    · exact (List.mem_append.mp h).elim (hJoined ctx) (h1 ctx)
    · exact h2 ctx h
  have hCascade : Prog.Keeps (OnFile flowId runId K) (cascadeApproval runId node port flow)
      fun ctxs => ∀ ctx ∈ ctxs, Forward ctx :=
    hApprove.bind fun _ _ => (fireAndJoinFor_forwards node port flowId K).bind hFollow
  refine OnFile.perform rfl fun w _ => ?_
  dsimp only [Prog.pure_eq]
  split
  · exact .done (by simp)
  · exact hCascade

theorem receiveDocument_forwards (node port : String) :
    Forwards runId (receiveDocument runId node port flow) := by
  intro flowId K
  unfold receiveDocument
  dsimp only
  split
  · exact onDocumentApproved_forwards node port flowId K
  · refine (OnFile.of_only (markPortStatus_leaves node port .inReview)).bind fun _ _ => ?_
    refine OnFile.perform rfl fun w _ => .done fun ctx hctx => ?_
    unfold reviewContexts at hctx
    rcases List.mem_append.mp hctx with h | h
    · obtain ⟨_, _, rfl⟩ := List.mem_map.mp h
      simp [Forward]
    · split at h
      · obtain rfl := List.mem_singleton.mp h
        simp [Forward]
      · cases h

theorem onDocumentSubmitted_forwards (node port sha : String) (revision : UInt32) :
    Forwards runId (onDocumentSubmitted runId node port flow sha revision) := by
  intro flowId K
  refine (OnFile.of_only (checkCycleLimit_leaves node port)).bind fun action _ => ?_
  cases action with
  | some action => exact .fail
  | none =>
    exact (noteReview_onFile port node sha revision "IN_REVIEW").bind fun _ _ =>
      receiveDocument_forwards node port flowId K

theorem applySeededEntries_forwards (seeds : List (String × BlackboardEntry)) :
    Forwards runId (applySeededEntries runId flow seeds) := by
  intro flowId K
  refine .collect _ fun seed _ => OnFile.perform rfl fun w _ => ?_
  dsimp only [Prog.pure_eq, Prog.done_bind]
  split
  · exact .done (by simp)
  · exact (OnFile.of_only (markPortStatusUnchecked_leaves _ _ _)).bind fun _ _ =>
      fireAndJoinFor_forwards _ _ flowId K

namespace Call

/-- The comments that a call writes for the document. -/
@[grind =] def commentsFor (doc : String) : Call → List ReviewComment
  | .verdict _ port _ _ comments => if port = doc then comments else []
  | _ => []

/-- The comments of verdicts on exactly this port of this node. -/
def commentsOn (node port : String) : Call → List ReviewComment
  | .verdict node' port' _ _ comments => if node' = node ∧ port' = port then comments else []
  | _ => []

end Call

theorem keepComments_onFile (port reviewer : String) (comments : List ReviewComment) :
    Prog.Triple (OnFile flowId runId K) (keepComments flowId runId port reviewer comments)
      (fun _ => OnFile flowId runId fun doc => K doc ++ if port = doc then comments else [])
      fun _ => False := by
  unfold keepComments
  split
  · rename_i hEmpty
    obtain rfl := List.isEmpty_iff.mp hEmpty
    exact .done fun w hw => by simpa using hw
  · exact (ReviewEdit.write port reviewer comments).op_onFile

theorem settleVerdict_onFile (node port : String) (verdicts : List (String × ReviewVerdict)) :
    Prog.Keeps (OnFile flowId runId K) (settleVerdict runId node port flow verdicts)
      fun ctxs => ∀ ctx ∈ ctxs.getD [], Forward ctx ∨
        Carries K node (rejectedRequeueTrigger port) ctx := by
  unfold settleVerdict
  split
  · refine (onRejectedRequeue_onFile node port).bind fun ctx h => .done fun c hc => .inr ?_
    exact h c (Option.mem_toList.mp hc)
  · split
    · split
      · refine .done fun ctx hctx => .inl ?_
        obtain rfl := List.mem_singleton.mp hctx
        simp [Forward, humanReviewPending]
      · exact (onDocumentApproved_forwards node port flowId K).bind fun ctxs h =>
          .done fun ctx hctx => .inl (h ctx hctx)
    · exact .done (by simp)

theorem Call.op_onFile (flow : FlowDefinition) (c : Call) :
    Prog.Triple (OnFile flowId runId K) (c.op flow runId)
      (fun ctxs w => OnFile flowId runId (fun doc => K doc ++ c.commentsFor doc) w ∧
        ∀ ctx ∈ ctxs, Forward ctx ∨ ∃ node port, c.document = some (node, port) ∧
          Carries (fun doc => K doc ++ c.commentsFor doc) node (rejectedRequeueTrigger port) ctx)
      (OnFile flowId runId fun doc => K doc ++ c.commentsFor doc) := by
  have hForward {c : Call} (h : Forwards runId (c.op flow runId))
      (hNone : ∀ doc, c.commentsFor doc = []) :
      Prog.Triple (OnFile flowId runId K) (c.op flow runId)
        (fun ctxs w => OnFile flowId runId (fun doc => K doc ++ c.commentsFor doc) w ∧
          ∀ ctx ∈ ctxs, Forward ctx ∨ ∃ node port, c.document = some (node, port) ∧
            Carries (fun doc => K doc ++ c.commentsFor doc) node (rejectedRequeueTrigger port) ctx)
        (OnFile flowId runId fun doc => K doc ++ c.commentsFor doc) := by
    have hSame : (fun doc => K doc ++ c.commentsFor doc) = K := funext fun doc => by simp [hNone doc]
    rw [hSame]
    exact Prog.Triple.mono (h flowId K) (fun _ hw => hw)
      (fun _ _ hAll => ⟨hAll.1, fun ctx hctx => .inl (hAll.2 ctx hctx)⟩) fun _ hw => hw
  have hQuiet {p : Op Unit} (hp : p.Only (·.leavesReviews = true)) :
      Forwards runId (p >>= fun _ => pure []) := fun _ _ =>
    (OnFile.of_only hp).bind fun _ _ => .done (by simp)
  cases c with
  | submitted node port sha revision =>
    exact hForward (onDocumentSubmitted_forwards node port sha revision) fun _ => rfl
  | approved node port => exact hForward (onDocumentApproved_forwards node port) fun _ => rfl
  | seeded seeds => exact hForward (applySeededEntries_forwards seeds) fun _ => rfl
  | mark node port status => exact hForward (hQuiet (markPortStatus_leaves _ _ _)) fun _ => rfl
  | cancel | complete | fail reason =>
    exact hForward (hQuiet (transitionRun_leaves _ _)) fun _ => rfl
  | rejected node port =>
    have hSame : (fun doc => K doc ++ (rejected node port).commentsFor doc) = K :=
      funext fun doc => by simp [commentsFor]
    rw [hSame]
    have hRequeue : Prog.Keeps (OnFile flowId runId K) ((rejected node port).op flow runId)
        fun ctxs => ∀ ctx ∈ ctxs, Carries K node (rejectedRequeueTrigger port) ctx :=
      (onRejectedRequeue_onFile node port).bind fun ctx h => .done fun c hc =>
        h c (Option.mem_toList.mp hc)
    exact Prog.Triple.mono hRequeue (fun _ hw => hw)
      (fun _ _ hAll => ⟨hAll.1, fun ctx hctx => .inr ⟨node, port, rfl, hAll.2 ctx hctx⟩⟩)
      fun _ hw => hw
  | verdict node port reviewer vote comments =>
    have hRest (K : String → List ReviewComment) : Prog.Keeps (OnFile flowId runId K) (do
        let verdicts ← countVerdict runId node port reviewer vote
        persistVerdicts runId
        let ctxs ← settleVerdict runId node port flow verdicts
        pure (ctxs.getD [])) fun ctxs => ∀ ctx ∈ ctxs, Forward ctx ∨
          Carries K node (rejectedRequeueTrigger port) ctx := by
      have hCount : (countVerdict runId node port reviewer vote).Only (·.leavesReviews = true) := by
        refine .perform rfl fun w => ?_
        split <;> trivial
      have hPersist : (persistVerdicts runId).Only (·.leavesReviews = true) := by
        refine .perform rfl fun w => ?_
        split
        · trivial
        · exact (persistRun_leaves _).attempt.bind fun _ => trivial
      exact (OnFile.of_only hCount).bind fun verdicts _ => (OnFile.of_only hPersist).bind fun _ _ =>
        (settleVerdict_onFile node port verdicts).bind fun ctxs h => .done h
    have hDoc : (fun doc => K doc ++ (verdict node port reviewer vote comments).commentsFor doc) =
        fun doc => K doc ++ if port = doc then comments else [] := rfl
    rw [hDoc]
    simp only [op, onReviewerVerdict]
    rw [bind_assoc]
    refine .perform fun w hw => ?_
    obtain ⟨s, hRun, rfl⟩ := hw.run
    rw [hRun]
    dsimp only
    rw [bind_assoc]
    intro w' hw'
    refine (Prog.Triple.bind ((keepComments_onFile port reviewer comments).mono (fun _ h => h)
      (fun _ _ h => h) fun _ h => h.elim) fun _ => ?_) w' (hw' ▸ OnFile.apply rfl w hw)
    simp only [bind_assoc]
    exact Prog.Triple.mono (hRest _) (fun _ h => h)
      (fun _ _ hAll => ⟨hAll.1, fun ctx hctx => (hAll.2 ctx hctx).imp_right fun h =>
        ⟨node, port, rfl, h⟩⟩) fun _ h => h

theorem Call.step_onFile (flow : FlowDefinition) {w : FlowRuntime} (hw : OnFile flowId runId K w) (c : Call) :
    OnFile flowId runId (fun doc => K doc ++ c.commentsFor doc) (c.step flow runId w) := by
  have hRun := c.op_onFile flow w hw
  unfold Call.step
  cases hEnd : (c.op flow runId).run w with
  | mk r t =>
    rw [hEnd] at hRun
    cases r with
    | ok ctxs => exact hRun.1
    | error e => exact hRun

theorem Call.contexts_onFile (flow : FlowDefinition) {w : FlowRuntime} (hw : OnFile flowId runId K w) (c : Call) :
    ∀ ctx ∈ c.contexts flow runId w, Forward ctx ∨ ∃ node port, c.document = some (node, port) ∧
      Carries (fun doc => K doc ++ c.commentsFor doc) node (rejectedRequeueTrigger port) ctx := by
  have hRun := c.op_onFile flow w hw
  unfold Call.contexts
  cases hEnd : (c.op flow runId).run w with
  | mk r t =>
    rw [hEnd] at hRun
    cases r with
    | ok ctxs => exact hRun.2
    | error e =>
      intro ctx hctx
      cases hctx

theorem play_onFile (flow : FlowDefinition) {w : FlowRuntime} (hw : OnFile flowId runId K w) (calls : List Call) :
    OnFile flowId runId (fun doc => K doc ++ calls.flatMap (·.commentsFor doc))
      (History.play (Call.step flow runId) w calls) := by
  induction calls generalizing w K with
  | nil => simpa using hw
  | cons c calls ih => simpa using ih (c.step_onFile flow hw)

theorem startRun_onFile (flow : FlowDefinition) (runId initialInput : String) {w : FlowRuntime}
    (hw : w.Healthy) (hFresh : w.reviewFiles.lookup (flow.name, runId) = none) :
    OnFile flow.name runId (fun _ => []) ((startRun runId flow initialInput).run w).2 := by
  have hFile (t : FlowRuntime) (ht : t.reviewFiles = w.reviewFiles) :
      t.reviewFiles.lookup (flow.name, runId) = none := ht ▸ hFresh
  have hStart : Prog.Triple (fun t => t.Healthy ∧ t.reviewFiles = w.reviewFiles)
      (startRun runId flow initialInput) (fun _ => OnFile flow.name runId fun _ => [])
      (OnFile flow.name runId fun _ => []) := by
    simp only [startRun, utcNowIso, persistRun, bind_assoc]
    refine .perform fun t hStarted => ?_
    obtain ⟨hHealthy, hSame⟩ := hStarted
    dsimp only [Prog.pure_eq, Prog.done_bind]
    refine .perform fun t1 ht1 => ?_
    have hHealthy1 : t1.Healthy := ht1 ▸ hHealthy.apply .utcNowIso
    have hSame1 : t1.reviewFiles = w.reviewFiles := ht1 ▸ hSame
    rw [hHealthy1.fault]
    dsimp only [Prog.pure_eq, Prog.done_bind]
    refine .perform fun t2 ht2 => ?_
    have hHealthy2 : t2.Healthy := ht2 ▸ hHealthy1.apply (.persistRun _)
    have hSame2 : t2.reviewFiles = w.reviewFiles := ht2 ▸ hSame1
    have hRegistered : OnFile flow.name runId (fun _ => [])
        (Act.apply (.register (startState runId flow initialInput t.now)) t2) := by
      refine ⟨hHealthy2.apply _, ⟨_, AList.lookup_insert _, rfl⟩, fun doc => ?_⟩
      simp only [FlowRuntime.reviews, Act.apply, hFile t2 hSame2]
      rfl
    have hFire : Prog.Keeps (OnFile flow.name runId fun _ => [])
        (fireAndJoinFor "__chat__" "initial-brief" runId flow >>= fun ctxs => pure (runId, ctxs))
        fun _ => True :=
      (fireAndJoinFor_forwards "__chat__" "initial-brief" flow.name fun _ => []).bind
        fun _ _ => .done trivial
    exact Prog.Triple.mono hFire (fun t3 ht3 => ht3 ▸ hRegistered) (fun _ _ h => h.1) fun _ h => h
  have hRun := hStart w ⟨hw, rfl⟩
  cases hEnd : (startRun runId flow initialInput).run w with
  | mk r t =>
    rw [hEnd] at hRun
    cases r with
    | ok _ => exact hRun
    | error e => exact hRun

/-- The port of a verdict is one that the flow declares. -/
def Call.Declared (flow : FlowDefinition) : Call → Prop
  | .verdict node port _ _ _ => (flow.output node port).isSome = true
  | _ => True

/-- Every context that a rejection requeues carries all comments written so far. -/
def FeedbackKept (flow : FlowDefinition) (runId node port : String) (w : FlowRuntime)
    (written : List ReviewComment) (c : Call) : Prop :=
  ∀ ctx ∈ c.contexts flow runId w, ctx.key = (node, rejectedRequeueTrigger port) →
    ctx.reviewComments = some (written ++ c.commentsOn node port)

variable {node port : String}

theorem Call.commentsFor_eq (hAlone : ∀ node', (flow.output node' port).isSome = true → node' = node)
    {c : Call} (h : c.Declared flow) : c.commentsFor port = c.commentsOn node port := by
  cases c with
  | verdict node' port' reviewer vote comments =>
    simp only [commentsFor, commentsOn]
    by_cases hPort : port' = port
    · subst hPort
      simp [hAlone node' h]
    · simp [hPort]
  | _ => rfl

theorem Carries.comments_of_key {nodeId nodeId' : String} {trigger trigger' : InvocationTrigger}
    {ctx : InvocationContext} (h : Carries K nodeId trigger ctx) (hKey : ctx.key = (nodeId', trigger'))
    {port : String} (hTrigger : trigger' = rejectedRequeueTrigger port) :
    ctx.reviewComments = some (reaches K port) :=
  h.comments port ((Prod.mk.inj (h.key.symm.trans hKey)).2.trans hTrigger)

theorem rejected_contexts (node port : String) {w : FlowRuntime} (hw : OnFile flowId runId K w)
    (hNode : (flow.node node).isSome = true) :
    ∃ ctx ∈ (Call.rejected node port).contexts flow runId w,
      ctx.key = (node, rejectedRequeueTrigger port) ∧ ctx.reviewComments = some (reaches K port) := by
  obtain ⟨s, hRun, -⟩ := hw.run
  have hGood : w.Good runId := ⟨hw.healthy, by rw [hRun]; rfl⟩
  obtain ⟨n, hn⟩ := Option.isSome_iff_exists.mp hNode
  obtain ⟨ctx, hOk, -, hKey⟩ := (onRejectedRequeue_achieves node port flow).run Good.apply hGood
  rw [hn, Option.map_some] at hKey
  obtain ⟨ctx, rfl, hSame⟩ := Option.map_eq_some_iff.mp hKey
  have hContexts : (Call.rejected node port).contexts flow runId w = [ctx] := by
    unfold Call.contexts Call.op
    simp only
    rw [Prog.run_bind_of_ok hOk]
    rfl
  have hMem : ctx ∈ (Call.rejected node port).contexts flow runId w := by
    rw [hContexts]
    exact List.mem_singleton.mpr rfl
  refine ⟨ctx, hMem, hSame, ?_⟩
  rcases (Call.rejected node port).contexts_onFile flow hw ctx hMem with h | ⟨node', port', -, hCarries⟩
  · exact absurd hSame (h.key_ne node port)
  · have hNone : (fun doc => K doc ++ (Call.rejected node port).commentsFor doc) = K :=
      funext fun doc => by simp [Call.commentsFor]
    exact hNone ▸ hCarries.comments_of_key hSame rfl

/-- In the runs of a flow every requeued document of a port carries the comments that were written for
that port of that node, if and only if the port's JSON pointer reaches the port's own entry and no
other node declares an output of that name. -/
theorem feedback_kept_iff (flow : FlowDefinition) (runId initialInput node port : String)
    (w : FlowRuntime) (hw : w.Healthy) (hFresh : w.reviewFiles.lookup (flow.name, runId) = none)
    (hOutput : (flow.output node port).isSome = true) :
    (∀ (calls : List Call) (c : Call), (∀ c' ∈ calls, c'.Declared flow) → c.Declared flow →
      FeedbackKept flow runId node port (afterCalls flow runId initialInput w calls)
        (calls.flatMap (·.commentsOn node port)) c) ↔
      Reviews.pointed port = some port ∧
        ∀ node', (flow.output node' port).isSome = true → node' = node := by
  have hStart := startRun_onFile flow runId initialInput hw hFresh
  have hNode : (flow.node node).isSome = true := by
    cases h : flow.node node with
    | none => simp [FlowDefinition.output, h] at hOutput
    | some n => rfl
  have hAfter (calls : List Call) : OnFile flow.name runId
      (fun doc => calls.flatMap (·.commentsFor doc)) (afterCalls flow runId initialInput w calls) := by
    have hPlay := play_onFile flow hStart calls
    simp only [List.nil_append] at hPlay
    exact hPlay
  constructor
  · intro hKept
    let note : ReviewComment := ⟨"error", "revise", none⟩
    -- one comment on a declared output of the name, and then a requeue
    have hOne (node' : String) (hDeclared : (flow.output node' port).isSome = true) :
        reaches (fun doc => if port = doc then [note] else []) port =
          if node' = node then [note] else [] := by
      have hAll : ∀ c ∈ [Call.verdict node' port "critic" .approve [note]], c.Declared flow := by
        intro c hc
        obtain rfl := List.mem_singleton.mp hc
        exact hDeclared
      obtain ⟨ctx, hMem, hKey, hComments⟩ := rejected_contexts node port
        (hAfter [.verdict node' port "critic" .approve [note]]) hNode
      have hOwn := hKept [.verdict node' port "critic" .approve [note]] (.rejected node port) hAll
        trivial ctx hMem hKey
      rw [hComments] at hOwn
      simpa [Call.commentsFor, Call.commentsOn] using hOwn
    have hPointed : Reviews.pointed port = some port := by
      have hSelf := hOne node hOutput
      rw [if_pos rfl, reaches] at hSelf
      cases hPort : Reviews.pointed port with
      | none => simp [hPort] at hSelf
      | some doc =>
        by_cases hDoc : port = doc
        · rw [← hDoc]
        · simp [hPort, hDoc] at hSelf
    refine ⟨hPointed, fun node' hDeclared => ?_⟩
    by_contra hOther
    have hSelf := hOne node' hDeclared
    rw [if_neg hOther, reaches, hPointed] at hSelf
    simp at hSelf
  · rintro ⟨hPointed, hAlone⟩ calls c hCalls hDeclared ctx hMem hKey
    rcases c.contexts_onFile flow (hAfter calls) ctx hMem with h | ⟨node', port', -, hCarries⟩
    · exact absurd hKey (h.key_ne node port)
    · rw [hCarries.comments_of_key hKey rfl, reaches, hPointed, Option.map_some, Option.getD_some,
        Call.commentsFor_eq hAlone hDeclared]
      have hSame : calls.flatMap (·.commentsFor port) = calls.flatMap (·.commentsOn node port) :=
        List.flatMap_congr fun c' hc' => Call.commentsFor_eq hAlone (hCalls c' hc')
      rw [hSame]

/-- A rejection by a reviewer, and the human's after it. -/
theorem draft_feedback_kept :
    FeedbackKept loopFlow "run" "writer" "draft"
      (afterCalls loopFlow "run" "brief" emptyRuntime
        [.verdict "writer" "draft" "critic" .reject [⟨"error", "show the totals", none⟩]])
      [⟨"error", "show the totals", none⟩] (.rejected "writer" "draft") := by
  have hOnly : ∀ n ∈ loopFlow.nodes, (n.outputs.find? (·.port == "draft")).isSome = true →
      n.id = "writer" := by decide
  have hAlone : ∀ node', (loopFlow.output node' "draft").isSome = true → node' = "writer" := by
    intro node' h
    obtain ⟨output, hOutput⟩ := Option.isSome_iff_exists.mp h
    obtain ⟨n, hNode, hFind⟩ := Option.bind_eq_some_iff.mp hOutput
    rw [← loopFlow.node_id hNode]
    exact hOnly n (List.mem_of_find?_eq_some hNode) (by rw [hFind]; rfl)
  have hDeclared : ∀ c ∈ [Call.verdict "writer" "draft" "critic" .reject
      [⟨"error", "show the totals", none⟩]], c.Declared loopFlow := by
    intro c hc
    obtain rfl := List.mem_singleton.mp hc
    exact (by decide : (loopFlow.output "writer" "draft").isSome = true)
  exact (feedback_kept_iff loopFlow "run" "brief" "writer" "draft" emptyRuntime (by decide) rfl
    (by decide)).mpr ⟨by decide, hAlone⟩ _ (.rejected "writer" "draft") hDeclared trivial

/-- The document of `api` goes back with the comments on that of `ui`. -/
theorem spec_feedback_mixed :
    ¬FeedbackKept twoSpecsFlow "run" "api" "spec"
      (afterCalls twoSpecsFlow "run" "brief" emptyRuntime
        [.verdict "ui" "spec" "critic" .reject [⟨"error", "show the totals", none⟩]])
      [] (.rejected "api" "spec") := by
  have hFound : ∃ ctx ∈ (Call.rejected "api" "spec").contexts twoSpecsFlow "run"
      (afterCalls twoSpecsFlow "run" "brief" emptyRuntime
        [.verdict "ui" "spec" "critic" .reject [⟨"error", "show the totals", none⟩]]),
      ctx.key = ("api", rejectedRequeueTrigger "spec") ∧ ctx.reviewComments ≠ some [] := by
    decide
  obtain ⟨ctx, hMem, hKey, hComments⟩ := hFound
  exact fun h => hComments (h ctx hMem hKey)

end Cronymax.Flow
