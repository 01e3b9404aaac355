import Cronymax.Atomic.Snapshots
import Cronymax.Flow.Footprint
import Cronymax.Flow.PendingPorts

/-! The file `state.json` of a run and the run in memory.  An operation changes the run in one section
and writes the snapshot that it took there after it has left the section, so the writes of
different operations may come in another order than their sections; an entry on the blackboard and
a registered chat session are not written at all. -/

namespace Cronymax.Flow

open Atomic FlowRuntime

variable {flowId runId : String} {flow : FlowDefinition}

/-- What a node of a run holds, its maps by their lookups: the order of their entries does not
count. -/
def NodeRunState.contents (ns : NodeRunState) :
    (String → Option PortStatus) × List InvocationTrigger × (String → Option UInt32) :=
  (ns.ports.lookup, ns.invocations, ns.portCycles.lookup)

/-- A run as its maps are looked up, whatever their order. -/
structure Contents where
  record : FlowRunState
  nodes : String → Option ((String → Option PortStatus) × List InvocationTrigger ×
    (String → Option UInt32))
  verdicts : String → Option (List (String × ReviewVerdict))
  blackboard : String → Option BlackboardEntry

def FlowRunState.contents (s : FlowRunState) : Contents where
  record := { s with nodeStates := ∅, reviewerVerdicts := ∅, blackboard := ∅ }
  nodes node := (s.nodeStates.lookup node).map (·.contents)
  verdicts := s.reviewerVerdicts.lookup
  blackboard := s.blackboard.lookup

/-- The record of one run in memory and in its `state.json`. -/
def runSaving (flowId runId : String) : Saving Act FlowRuntime (Option Contents) where
  memory w := (w.getRun runId).map (·.contents)
  snapshot
    | .persistRun s =>
      if (s.flowId, s.runId) = (flowId, runId) then some (some s.contents) else none
    | _ => none

/-- What `state.json` holds for the run. -/
def FlowRuntime.onDisk (w : FlowRuntime) (flowId runId : String) : Option FlowRunState :=
  w.stateFiles.lookup (flowId, runId)

abbrev SavesRun {α : Type} (flowId runId : String) (p : Op α) : Prop :=
  (runSaving flowId runId).Saves p

theorem onDisk_apply (a : Act) {w : FlowRuntime} (hw : w.Healthy) :
    ((a.apply w).onDisk flowId runId).map (·.contents) =
      ((runSaving flowId runId).snapshot a).getD ((w.onDisk flowId runId).map (·.contents)) := by
  have hModify (runId' : String) (f : FlowRunState → FlowRunState) :
      (w.modifyRun runId' f).onDisk flowId runId = w.onDisk flowId runId := by
    unfold modifyRun
    split <;> rfl
  cases a with
  | persistRun s =>
    simp only [Act.apply, FlowRuntime.onDisk, hw.fault, runSaving]
    by_cases hKey : (s.flowId, s.runId) = (flowId, runId)
    · rw [if_pos hKey, hKey]
      simp
    · rw [if_neg hKey]
      simp [AList.lookup_insert_ne (Ne.symm hKey)]
  | renameReviews =>
    simp only [Act.apply]
    split <;> rfl
  | transition runId' status reason =>
    exact congrArg (Option.map FlowRunState.contents) (hModify runId' _)
  | _ => first | exact congrArg (Option.map FlowRunState.contents) (hModify _ _) | rfl

def Act.isPersist : Act → Bool
  | .persistRun _ => true
  | _ => false

theorem snapshot_of_not_persist {a : Act} (h : a.isPersist = false) (flowId runId : String) :
    (runSaving flowId runId).snapshot a = none := by
  cases a <;> first | rfl | cases h

theorem savesRun_of_review {α : Type} {p : Op α} (hp : p.Only (·.isReview = true)) :
    SavesRun flowId runId p :=
  Saving.saves_of_only (hp.mono fun a ha =>
    snapshot_of_not_persist (by cases a <;> first | rfl | cases ha) flowId runId)

theorem savesLast_persistRun (s : FlowRunState) :
    (runSaving flowId runId).SavesLast (some s.contents) (persistRun s) := by
  refine ⟨fun d hd => ?_, fun w => ?_⟩
  · simp only [runSaving] at hd
    split at hd
    · exact (Option.some.inj hd).symm
    · cases hd
  · simp only [Prog.bind]
    split <;> trivial

theorem getRun_apply_self (a : Act) {w : FlowRuntime} {s : FlowRunState}
    (hRun : w.getRun runId = some s) (hTarget : a.target = some runId) :
    (runSaving flowId runId).memory (Acts.apply a w) = some (a.change w.now s).contents := by
  refine (congrArg (Option.map FlowRunState.contents) (a.getRun_apply hRun)).trans ?_
  rw [Act.onRun, if_pos hTarget, Option.map_some]

theorem updateRun_saves {act : Act} {f : FlowRunState → FlowRunState}
    (hTarget : act.target = some runId) (hChange : ∀ now s, act.change now s = f s)
    (hSnapshot : act.isPersist = false) : SavesRun flowId runId (updateRun act runId f) := by
  refine .perform (snapshot_of_not_persist hSnapshot _ _) fun w => ?_
  cases hRun : w.getRun runId with
  | none => trivial
  | some s =>
    rw [getRun_apply_self act hRun hTarget, hChange]
    exact (savesLast_persistRun (f s)).bind fun _ => Saving.saves_done _

theorem markPortStatus_saves (node port : String) (status : PortStatus) :
    SavesRun flowId runId (markPortStatus runId node port status) := by
  refine .perform rfl fun w => ?_
  cases hRun : w.getRun runId with
  | none => trivial
  | some s =>
    rw [getRun_apply_self _ hRun rfl]
    simp only [Act.change, FlowRunState.markPort]
    by_cases hMarks : s.marks node port status = true
    · rw [if_pos hMarks, if_pos hMarks]
      exact savesLast_persistRun _
    · rw [if_neg hMarks, if_neg hMarks]
      trivial

theorem transitionRun_saves (status : FlowRunStatus) (reason : Option String) :
    SavesRun flowId runId (transitionRun runId status reason) := by
  refine .perform rfl fun w => ?_
  cases hRun : w.getRun runId with
  | none => trivial
  | some s =>
    rw [getRun_apply_self _ hRun rfl]
    by_cases hTerminal : s.status.isTerminal = true
    · simp only [hTerminal, if_true]
      trivial
    · simp only [hTerminal]
      exact savesLast_persistRun _

theorem persistVerdicts_saves : SavesRun flowId runId (persistVerdicts runId) := by
  refine .perform rfl fun w => ?_
  cases hRun : w.getRun runId with
  | none => trivial
  | some s =>
    have hMemory : (runSaving flowId runId).memory (Acts.apply (Act.getRun runId) w) =
        some s.contents := congrArg (Option.map FlowRunState.contents) hRun
    rw [hMemory]
    exact (savesLast_persistRun s).attempt.bind fun _ => Saving.saves_done _

theorem markPortStatusUnchecked_saves (node port : String) (status : PortStatus) :
    SavesRun flowId runId (markPortStatusUnchecked runId node port status) :=
  (updateRun_saves rfl (fun _ _ => rfl) rfl).bind fun _ => Saving.saves_done _

theorem recordInvocation_saves (node : String) (trigger : InvocationTrigger) :
    SavesRun flowId runId (recordInvocation runId node trigger) :=
  (updateRun_saves rfl (fun _ _ => rfl) rfl).bind fun _ => Saving.saves_done _

theorem incrementPortCycles_saves (node port : String) :
    SavesRun flowId runId (incrementPortCycles runId node port) :=
  (updateRun_saves rfl (fun _ _ => rfl) rfl).bind fun _ => Saving.saves_done _

theorem writeBlackboardEntry_saves (key : String) (entry : BlackboardEntry) :
    SavesRun flowId runId (writeBlackboardEntry runId key entry) :=
  .perform rfl fun _ => trivial

theorem registerChatSession_saves (sessionId : String) :
    SavesRun flowId runId (registerChatSession runId sessionId) :=
  .perform rfl fun _ => ⟨nofun, fun _ => trivial⟩

theorem noteReview_saves (doc node sha : String) (revision : UInt32) (status : String) :
    SavesRun flowId runId (noteReview runId doc node sha revision status) := by
  refine .perform rfl fun w => ?_
  split
  · trivial
  · exact (savesRun_of_review (upsertReviewState_only _ _ _ _ _ _ _).attempt).bind
      (fun _ => Saving.saves_done _) _

theorem buildInvocationContext_saves (nodeId : String) (trigger : InvocationTrigger)
    (flow : FlowDefinition) :
    SavesRun flowId runId (buildInvocationContext runId nodeId trigger flow) := by
  refine .perform rfl fun w => ?_
  split
  · refine Saving.Saves.bind ?_ (fun _ => Saving.saves_done _) _
    unfold feedbackFor
    split
    · exact ((savesRun_of_review (readReviews_only _ _)).bind fun _ => Saving.saves_done _).bind
        fun _ => Saving.saves_done _
    · exact Saving.saves_done _
  · trivial

theorem scheduleNodeWithContext_saves (nodeId : String) (trigger : InvocationTrigger)
    (flow : FlowDefinition) :
    SavesRun flowId runId (scheduleNodeWithContext runId nodeId trigger flow) :=
  (buildInvocationContext_saves nodeId trigger flow).bind fun _ =>
    (recordInvocation_saves nodeId trigger).bind fun _ => Saving.saves_done _

theorem activateNodes_saves (flow : FlowDefinition) (trigger : InvocationTrigger)
    (nodes : List String) : SavesRun flowId runId (activateNodes runId flow trigger nodes) := by
  refine .collect nodes fun nodeId _ => ?_
  unfold activateNode
  split
  · exact Saving.saves_done _
  · split
    · exact .collect _ fun output _ =>
        (markPortStatusUnchecked_saves _ _ _).bind fun _ => Saving.saves_done _
    · exact (scheduleNodeWithContext_saves _ _ _).bind fun _ => Saving.saves_done _

theorem fireAndJoinFor_saves (node port : String) (flow : FlowDefinition) :
    SavesRun flowId runId (fireAndJoinFor node port runId flow) := by
  rw [fireAndJoinFor_eq]
  split
  · exact Saving.saves_done _
  · refine .perform rfl fun w => ?_
    split
    · trivial
    · exact activateNodes_saves _ _ _ _

theorem publishOutput_saves (node port : String) (flow : FlowDefinition) :
    SavesRun flowId runId (publishOutput runId node port flow) := by
  unfold publishOutput
  split
  · exact Saving.saves_done _
  · refine .perform rfl fun w => ?_
    simp only
    split
    · trivial
    · exact writeBlackboardEntry_saves _ _ _

theorem reinvokeProducer_saves (node port : String) (flow : FlowDefinition) :
    SavesRun flowId runId (reinvokeProducer runId node port flow) := by
  unfold reinvokeProducer
  split
  · exact Saving.saves_done _
  · split
    · exact Saving.saves_done _
    · refine .perform rfl fun w => ?_
      split
      · trivial
      · split
        · trivial
        · exact (scheduleNodeWithContext_saves _ _ _).bind (fun _ => Saving.saves_done _) _

theorem onDocumentApproved_saves (node port : String) (flow : FlowDefinition) :
    SavesRun flowId runId (onDocumentApproved runId node port flow) := by
  refine .perform rfl fun w => ?_
  simp only [Prog.pure_eq]
  split
  · trivial
  · refine Saving.Saves.bind ((markPortStatus_saves _ _ _).bind fun _ =>
      (publishOutput_saves _ _ _).bind fun _ => noteReview_saves _ _ _ _ _) (fun _ => ?_) _
    exact (fireAndJoinFor_saves _ _ _).bind fun _ => (activateNodes_saves _ _ _).bind fun _ =>
      (reinvokeProducer_saves _ _ _).bind fun _ => Saving.saves_done _

theorem onReviewerVerdict_saves (node port reviewer : String) (vote : ReviewVerdict)
    (comments : List ReviewComment) (flow : FlowDefinition) :
    SavesRun flowId runId (onReviewerVerdict runId node port reviewer vote comments flow) := by
  refine .perform rfl fun w => ?_
  split
  · trivial
  · refine Saving.Saves.bind ?keep (fun _ => Saving.Saves.bind ?count fun verdicts =>
      persistVerdicts_saves.bind fun _ => ?settle) _
    case keep =>
      unfold keepComments
      split
      · exact Saving.saves_done _
      · exact savesRun_of_review (writeReviewComments_only _ _ _ _ _)
    case count =>
      refine .perform rfl fun w => ?_
      split <;> trivial
    case settle =>
      unfold settleVerdict
      split
      · refine Saving.Saves.bind ?_ fun _ => Saving.saves_done _
        exact (markPortStatusUnchecked_saves _ _ _).bind fun _ =>
          (noteReview_saves _ _ _ _ _).bind fun _ => scheduleNodeWithContext_saves _ _ _
      · split
        · split
          · exact Saving.saves_done _
          · exact (onDocumentApproved_saves _ _ _).bind fun _ => Saving.saves_done _
        · exact Saving.saves_done _

/-- An operation that changes the record of a run and saves it. -/
inductive RunOperation where
  | markPortStatus (node port : String) (status : PortStatus)
  | markPortStatusUnchecked (node port : String) (status : PortStatus)
  | recordInvocation (node : String) (trigger : InvocationTrigger)
  | incrementPortCycles (node port : String)
  | transitionRun (status : FlowRunStatus) (reason : Option String)
  | onReviewerVerdict (node port reviewer : String) (vote : ReviewVerdict)
      (comments : List ReviewComment) (flow : FlowDefinition)
  | writeBlackboardEntry (key : String) (entry : BlackboardEntry)
  | registerChatSession (sessionId : String)

def RunOperation.op (runId : String) : RunOperation → Op Unit
  | .markPortStatus node port status => FlowRuntime.markPortStatus runId node port status
  | .markPortStatusUnchecked node port status =>
    FlowRuntime.markPortStatusUnchecked runId node port status
  | .recordInvocation node trigger => FlowRuntime.recordInvocation runId node trigger
  | .incrementPortCycles node port => do
    let _ ← FlowRuntime.incrementPortCycles runId node port
    pure ()
  | .transitionRun status reason => FlowRuntime.transitionRun runId status reason
  | .onReviewerVerdict node port reviewer vote comments flow => do
    let _ ← FlowRuntime.onReviewerVerdict runId node port reviewer vote comments flow
    pure ()
  | .writeBlackboardEntry key entry => FlowRuntime.writeBlackboardEntry runId key entry
  | .registerChatSession sessionId => FlowRuntime.registerChatSession runId sessionId

theorem RunOperation.op_saves (c : RunOperation) (flowId runId : String) :
    SavesRun flowId runId (c.op runId) := by
  cases c with
  | markPortStatus => exact markPortStatus_saves _ _ _
  | markPortStatusUnchecked => exact markPortStatusUnchecked_saves _ _ _
  | recordInvocation => exact recordInvocation_saves _ _
  | incrementPortCycles =>
    exact (incrementPortCycles_saves _ _).bind fun _ => Saving.saves_done _
  | transitionRun => exact transitionRun_saves _ _
  | onReviewerVerdict =>
    exact (onReviewerVerdict_saves _ _ _ _ _ _).bind fun _ => Saving.saves_done _
  | writeBlackboardEntry => exact writeBlackboardEntry_saves _ _
  | registerChatSession => exact registerChatSession_saves _

/-- Operations on one run whose sections interleave. -/
def runOperations {ι : Type} (runId : String) (calls : ι → RunOperation) (w : FlowRuntime) :
    Pool ι Act FlowRuntime FlowError Unit where
  state := w
  prog i := (calls i).op runId

/-- `state.json` holds what the run in memory holds. -/
def FlowRuntime.AtRest (flowId runId : String) (w : FlowRuntime) : Prop :=
  (w.onDisk flowId runId).map (·.contents) = (w.getRun runId).map (·.contents)

/-- The section changes something in a run that it finds as `s`. -/
def Act.alters (s : FlowRunState) : Act → Bool
  | .markPortStatus _ node port status =>
    s.marks node port status || (s.nodeStates.lookup node).isNone
  | .markPortStatusUnchecked _ node port status =>
    (s.nodeState node).ports.lookup port ≠ some status
  | .recordInvocation _ _ _ | .incrementPortCycles _ _ _ => true
  | .recordVerdict _ key reviewer _ => !(s.verdicts key).any (·.1 == reviewer)
  | .writeBlackboardEntry _ key entry => s.blackboard.lookup key ≠ some entry
  | .transition _ status reason =>
    !s.status.isTerminal && (s.status ≠ status || reason.or s.failureReason ≠ s.failureReason)
  | .setOriginatingSession _ sessionId => s.originatingSessionId ≠ some sessionId
  | _ => false

/-- The section of the schedule alters the run. -/
def altersRun (runId : String) (e : Act × FlowRuntime) : Bool :=
  e.1.target = some runId && (e.2.getRun runId).any (e.1.alters ·)

theorem lookup_insert_iff {V : Type} (m : AList fun _ : String => V) (key : String) (v : V) :
    (m.insert key v).lookup = m.lookup ↔ m.lookup key = some v := by
  constructor
  · intro h
    rw [← congrFun h key, AList.lookup_insert]
  · intro h
    funext key'
    by_cases hKey : key' = key
    · rw [hKey, AList.lookup_insert, h]
    · exact AList.lookup_insert_ne hKey

namespace FlowRunState

variable {s : FlowRunState}

theorem contents_modifyNode_iff (node : String) (f : NodeRunState → NodeRunState) :
    (s.modifyNode node f).contents = s.contents ↔
      ∃ ns, s.nodeStates.lookup node = some ns ∧ (f ns).contents = ns.contents := by
  constructor
  · intro h
    have hNode := congrFun (congrArg Contents.nodes h) node
    simp only [contents, modifyNode, AList.lookup_insert, Option.map_some] at hNode
    obtain ⟨ns, hLookup, hContents⟩ := Option.map_eq_some_iff.mp hNode.symm
    rw [nodeState, hLookup] at hContents
    exact ⟨ns, hLookup, hContents.symm⟩
  · rintro ⟨ns, hLookup, hContents⟩
    have hNodes : (s.modifyNode node f).contents.nodes = s.contents.nodes := by
      funext node'
      by_cases hNode : node' = node
      · subst node'
        simp [contents, modifyNode, nodeState, hLookup, hContents]
      · simp [contents, modifyNode, AList.lookup_insert_ne hNode]
    rw [contents, contents, Contents.mk.injEq]
    exact ⟨rfl, hNodes, rfl, rfl⟩

theorem contents_setPort_iff (node port : String) (status : PortStatus) :
    (s.setPort node port status).contents = s.contents ↔
      (s.nodeState node).ports.lookup port = some status := by
  rw [setPort, contents_modifyNode_iff, nodeState]
  cases s.nodeStates.lookup node with
  | none =>
    refine iff_of_false ?_ fun h => ?_
    · rintro ⟨_, h, _⟩
      cases h
    · rw [Option.getD_none, show (default : NodeRunState).ports = ∅ from rfl, AList.lookup_empty] at h
      cases h
  | some ns =>
    simp only [Option.some.injEq, exists_eq_left', NodeRunState.contents, Prod.mk.injEq, and_true,
      Option.getD_some]
    exact lookup_insert_iff _ _ _

theorem contents_markPort_iff (node port : String) (status : PortStatus) :
    (s.markPort node port status).contents = s.contents ↔
      (s.marks node port status || (s.nodeStates.lookup node).isNone) = false := by
  unfold markPort openNode
  by_cases hMarks : s.marks node port status = true
  · have hOther : s.portStatus node port ≠ status := by simp_all [marks]
    rw [if_pos hMarks, contents_setPort_iff, hMarks]
    refine iff_of_false (fun h => hOther ?_) (by simp)
    rw [portStatus, h, Option.getD_some]
  · rw [if_neg hMarks, Bool.not_eq_true _ |>.mp hMarks, Bool.false_or]
    cases hLookup : s.nodeStates.lookup node with
    | some ns => simp
    | none => simp [contents_modifyNode_iff, hLookup]

theorem contents_recordVerdict_iff (key reviewer : String) (vote : ReviewVerdict) :
    (s.recordVerdict key reviewer vote).contents = s.contents ↔
      (s.verdicts key).any (·.1 == reviewer) = true := by
  have hSame : (s.recordVerdict key reviewer vote).contents = s.contents ↔
      s.reviewerVerdicts.lookup key = some (Ballot.record (s.verdicts key) reviewer vote) := by
    rw [← lookup_insert_iff, contents, contents, Contents.mk.injEq]
    exact ⟨fun h => h.2.2.1, fun h => ⟨rfl, rfl, h, rfl⟩⟩
  rw [hSame, Ballot.record, verdicts]
  cases s.reviewerVerdicts.lookup key with
  | none => simp
  | some tally =>
    simp only [Option.some.injEq, Option.getD_some]
    by_cases hVoted : tally.any (·.1 == reviewer) = true
    · simp [hVoted]
    · simp [hVoted]

theorem contents_transition_iff (status : FlowRunStatus) (reason : Option String) (now : String) :
    (s.transition status reason now).contents = s.contents ↔ (!s.status.isTerminal &&
      (s.status ≠ status || reason.or s.failureReason ≠ s.failureReason)) = false := by
  unfold transition
  by_cases hTerminal : s.status.isTerminal = true
  · simp [hTerminal]
  · rw [if_neg hTerminal, Bool.not_eq_true _ |>.mp hTerminal]
    simp only [contents, Contents.mk.injEq, FlowRunState.mk.injEq, and_true, true_and,
      Bool.not_false, Bool.true_and, Bool.or_eq_false_iff, decide_eq_false_iff_not, not_not]
    constructor
    · rintro ⟨hStatus, _, hReason⟩
      exact ⟨hStatus.symm, hReason⟩
    · rintro ⟨rfl, hReason⟩
      exact ⟨rfl, by simp [hTerminal], hReason⟩

end FlowRunState

theorem Act.contents_change_iff {a : Act} (h : ∀ state, a ≠ .register state) (now : String)
    (s : FlowRunState) : (a.change now s).contents = s.contents ↔ a.alters s = false := by
  cases a with
  | register state => exact absurd rfl (h state)
  | markPortStatus => exact FlowRunState.contents_markPort_iff _ _ _
  | markPortStatusUnchecked runId node port status =>
    refine (FlowRunState.contents_setPort_iff node port status).trans ?_
    simp [Act.alters]
  | recordInvocation =>
    simp [Act.change, Act.alters, FlowRunState.recordInvocation,
      FlowRunState.contents_modifyNode_iff, NodeRunState.contents]
  | incrementPortCycles runId node port =>
    simp [Act.change, Act.alters, FlowRunState.incrementPortCycles,
      FlowRunState.contents_modifyNode_iff, NodeRunState.contents, lookup_insert_iff]
    intro ns _ hCount
    cases hLookup : ns.portCycles.lookup port <;> simp [hLookup] at hCount
  | recordVerdict runId key reviewer vote =>
    refine (FlowRunState.contents_recordVerdict_iff key reviewer vote).trans ?_
    simp [Act.alters]
  | writeBlackboardEntry runId key entry =>
    rw [Act.change, FlowRunState.contents, FlowRunState.contents, Contents.mk.injEq]
    refine Iff.trans ⟨fun h => h.2.2.2, fun h => ⟨rfl, rfl, rfl, h⟩⟩
      ((lookup_insert_iff s.blackboard key entry).trans ?_)
    simp [Act.alters]
  | transition => exact FlowRunState.contents_transition_iff _ _ _
  | setOriginatingSession runId sessionId =>
    rw [Act.alters, decide_eq_false_iff_not, not_not, Act.change]
    constructor
    · intro h
      exact (congrArg (fun held => held.record.originatingSessionId) h).symm
    · intro h
      rw [← h]
  | _ => simp [Act.change, Act.alters]

theorem contents_apply (runId : String) {a : Act} (h : ∀ state, a ≠ .register state) (w : FlowRuntime) :
    ((a.apply w).getRun runId).map (·.contents) = (w.getRun runId).map (·.contents) ↔
      altersRun runId (a, w) = false := by
  cases hRun : w.getRun runId with
  | none => simp [Act.getRun_apply_none h hRun, altersRun, hRun]
  | some s =>
    rw [a.getRun_apply hRun, Option.map_some, Option.map_some, Option.some.injEq, altersRun, hRun,
      Option.any_some, Act.onRun]
    by_cases hTarget : a.target = some runId
    · simp [hTarget, a.contents_change_iff h]
    · simp [hTarget]

theorem contents_after (runId : String) {w : FlowRuntime} {tr : List (Act × FlowRuntime)}
    (hChained : Prog.Chained w tr) (hRegister : ∀ e ∈ tr, ∀ state, e.1 ≠ .register state) :
    (tr.countP (altersRun runId) = 0 → ((Prog.after w tr).getRun runId).map (·.contents) =
        (w.getRun runId).map (·.contents)) ∧
      (tr.countP (altersRun runId) = 1 → ((Prog.after w tr).getRun runId).map (·.contents) ≠
        (w.getRun runId).map (·.contents)) := by
  induction tr generalizing w with
  | nil => exact ⟨fun _ => rfl, fun h => by simp at h⟩
  | cons e tr ih =>
    obtain ⟨a, t⟩ := e
    obtain ⟨rfl, hChained⟩ := hChained
    have hFirst := contents_apply runId (hRegister _ List.mem_cons_self) t
    obtain ⟨hNone, hOne⟩ := ih hChained fun e he => hRegister e (List.mem_cons_of_mem _ he)
    rw [Prog.after_cons, List.countP_cons]
    by_cases hAlters : altersRun runId (a, t) = true
    · rw [if_pos hAlters]
      refine ⟨fun h => by omega, fun h => ?_⟩
      rw [hNone (by omega)]
      exact fun hSame => by simp [hFirst.mp hSame] at hAlters
    · rw [if_neg hAlters, ← hFirst.mpr (by simpa using hAlters)]
      exact ⟨hNone, hOne⟩

theorem RunOperation.op_not_register (c : RunOperation) (runId : String) :
    (c.op runId).Only fun a => ∀ state, a ≠ .register state := by
  have hQuiet {a : Act} (h : a.Quiet) (state : FlowRunState) : a ≠ .register state := by
    rintro rfl
    cases h
  cases c with
  | markPortStatus =>
    refine (markPortStatus_only _ _ _ _).mono fun a ha => ?_
    rcases ha with ha | rfl
    · exact hQuiet ha
    · simp
  | markPortStatusUnchecked =>
    refine (markPortStatusUnchecked_only _ _ _ _).mono fun a ha => ?_
    rcases ha with ha | rfl
    · exact hQuiet ha
    · simp
  | recordInvocation =>
    refine (recordInvocation_only _ _ _).mono fun a ha => ?_
    rcases ha with ha | rfl
    · exact hQuiet ha
    · simp
  | incrementPortCycles =>
    refine ((incrementPortCycles_only _ _ _).mono fun a ha => ?_).bind fun _ => trivial
    rcases ha with ha | rfl
    · exact hQuiet ha
    · simp
  | transitionRun =>
    refine (transitionRun_only _ _ _).mono fun a ha => ?_
    rcases ha with ha | rfl
    · exact hQuiet ha
    · simp
  | onReviewerVerdict =>
    refine ((onReviewerVerdict_only _ _ _ _ _ _ _).mono fun a ha => ?_).bind fun _ => trivial
    rcases ha with ha | rfl | ha | ha | rfl | rfl
    · exact hQuiet ha
    · simp
    · exact ha.not_register
    · exact hQuiet ha
    · simp
    · simp
  | writeBlackboardEntry => exact .perform (by simp) fun _ => trivial
  | registerChatSession => exact .perform (by simp) fun _ => .perform (by simp) fun _ => trivial

/-- The sections of the schedule after the one whose snapshot is written last: what they change is
not on disk. -/
def unsavedSections {ι : Type} [DecidableEq ι] (flowId runId : String) (calls : ι → RunOperation)
    (w : FlowRuntime) (turns : List ι) : List (Act × FlowRuntime) :=
  ((runSaving flowId runId).unsaved ((runOperations runId calls w).events turns)).map (·.2)

/-- Under every schedule, so also once all operations have returned: where no section after the one
whose snapshot is written last alters the run, `state.json` holds the run as it is in memory, and
where just one of them does, it does not. -/
theorem atRest_of_saved {ι : Type} [DecidableEq ι] (flowId runId : String)
    (calls : ι → RunOperation) (w : FlowRuntime) (turns : List ι) (hw : w.Healthy)
    (hRest : w.AtRest flowId runId) :
    ((unsavedSections flowId runId calls w turns).countP (altersRun runId) = 0 →
        ((runOperations runId calls w).play turns).state.AtRest flowId runId) ∧
      ((unsavedSections flowId runId calls w turns).countP (altersRun runId) = 1 →
        ¬((runOperations runId calls w).play turns).state.AtRest flowId runId) := by
  let es := (runOperations runId calls w).events turns
  have hDisk : (((runOperations runId calls w).play turns).state.onDisk flowId runId).map
      (·.contents) = ((Prog.after w (((runSaving flowId runId).saved es).map (·.2))).getRun
        runId).map (·.contents) :=
    Saving.file_play (m := runSaving flowId runId) (c := runOperations runId calls w)
      (fun w => (w.onDisk flowId runId).map FlowRunState.contents)
      (fun a t (ht : t.Healthy) => ht.apply a) (fun a _ ht => onDisk_apply a ht) hw hRest
      (fun i => (calls i).op_saves flowId runId) turns
  have hSplit : ((runSaving flowId runId).saved es).map (·.2) ++
      unsavedSections flowId runId calls w turns = es.map (·.2) := by
    rw [unsavedSections, ← List.map_append, Saving.saved, Saving.unsaved, List.take_append_drop]
  have hMemory : ((runOperations runId calls w).play turns).state = Prog.after
      (Prog.after w (((runSaving flowId runId).saved es).map (·.2)))
      (unsavedSections flowId runId calls w turns) := by
    rw [← Prog.after_append, hSplit]
    exact Pool.play_state turns (runOperations runId calls w)
  have hChained := Pool.events_chained turns (runOperations runId calls w)
  rw [← hSplit] at hChained
  have hRegister : ∀ e ∈ unsavedSections flowId runId calls w turns, ∀ state,
      e.1 ≠ .register state := fun e he => by
    have hMem : e ∈ es.map (·.2) := hSplit ▸ List.mem_append_right _ he
    obtain ⟨⟨i, e⟩, hEvent, rfl⟩ := List.mem_map.mp hMem
    exact Pool.events_only (fun i => (calls i).op_not_register runId) turns _ hEvent
  obtain ⟨hNone, hOne⟩ := contents_after runId (Prog.chained_append.mp hChained).2 hRegister
  rw [FlowRuntime.AtRest, hDisk, hMemory]
  exact ⟨fun h => (hNone h).symm, fun h hSame => hOne h hSame.symm⟩

def draftsStarted : FlowRuntime := afterCalls twoDrafts "run" "brief" emptyRuntime []

inductive Marker where
  | spec
  | design
  | again
deriving DecidableEq

def draftMarks : Marker → RunOperation
  | .spec | .again => .markPortStatus "writer" "spec" .inReview
  | .design => .markPortStatus "writer" "design" .inReview

/-- The writes come in the order of the sections, and the last mark finds what it would write. -/
theorem marks_at_rest : ((runOperations "run" draftMarks draftsStarted).play
    [.spec, .design, .spec, .design, .again]).state.AtRest "two-drafts" "run" :=
  (atRest_of_saved "two-drafts" "run" draftMarks draftsStarted
    [.spec, .design, .spec, .design, .again] (by decide) rfl).1 (by decide)

/-- The writes come in the other order, and the second mark is not on disk. -/
theorem marks_not_at_rest :
    (∀ i, ((runOperations "run" draftMarks draftsStarted).play
      [.spec, .design, .design, .spec, .again]).prog i = .done ()) ∧
    ¬((runOperations "run" draftMarks draftsStarted).play
      [.spec, .design, .design, .spec, .again]).state.AtRest "two-drafts" "run" := by
  refine ⟨fun i => by cases i <;> rfl, fun h => ?_⟩
  have hStatus := congrArg (Option.map fun held =>
    (held.nodes "writer").bind fun ns => ns.1 "design") h
  revert hStatus
  decide

end Cronymax.Flow
