import Cronymax.Flow.Runtime

/-! What the sections of the runtime change.  `Act.onRun` is the change that a section makes to one
run; the views of a run that the operations are about (the status of a port, the verdicts, the
counted submissions, the lifecycle) change only by the sections named for them. -/

namespace Cronymax.Flow

open Atomic

namespace FlowRuntime

variable (w : FlowRuntime)

theorem getRun_modifyRun (runId runId' : String) (f : FlowRunState → FlowRunState) :
    (w.modifyRun runId f).getRun runId' =
      if runId' = runId then (w.getRun runId).map f else w.getRun runId' := by
  unfold modifyRun
  split
  · rename_i s hRun
    split
    · subst runId'
      rw [hRun]
      exact AList.lookup_insert _
    · exact AList.lookup_insert_ne ‹_›
  · rename_i hRun
    split
    · subst runId'
      rw [hRun]
      rfl
    · rfl

end FlowRuntime

namespace Act

/-- The run whose record a section changes. -/
@[grind =] def target : Act → Option String
  | .markPortStatus runId _ _ _ | .markPortStatusUnchecked runId _ _ _
  | .recordInvocation runId _ _ | .incrementPortCycles runId _ _ | .recordVerdict runId _ _ _
  | .writeBlackboardEntry runId _ _ | .transition runId _ _
  | .setOriginatingSession runId _ => some runId
  | .register state => some state.runId
  | _ => none

/-- What a section does to the record. -/
@[grind =] def change (now : String) : Act → FlowRunState → FlowRunState
  | .markPortStatus _ node port status, s => s.markPort node port status
  | .markPortStatusUnchecked _ node port status, s => s.setPort node port status
  | .recordInvocation _ node trigger, s => s.recordInvocation node trigger
  | .incrementPortCycles _ node port, s => s.incrementPortCycles node port
  | .recordVerdict _ key reviewer verdict, s => s.recordVerdict key reviewer verdict
  | .writeBlackboardEntry _ key entry, s => s.writeBlackboard key entry
  | .transition _ status reason, s => s.transition status reason now
  | .setOriginatingSession _ sessionId, s => { s with originatingSessionId := some sessionId }
  | .register state, _ => state
  | _, s => s

/-- What a section does to the record of one run. -/
@[grind =] def onRun (a : Act) (runId now : String) (s : FlowRunState) : FlowRunState :=
  if a.target = some runId then a.change now s else s

theorem getRun_apply (a : Act) {w : FlowRuntime} {runId : String} {s : FlowRunState}
    (h : w.getRun runId = some s) : (a.apply w).getRun runId = some (a.onRun runId w.now s) := by
  have hModify : ∀ runId' f, (w.modifyRun runId' f).getRun runId =
      some (if some runId' = some runId then f s else s) := fun runId' f => by
    rw [FlowRuntime.getRun_modifyRun]
    by_cases hRun : runId = runId'
    · subst runId'
      simp [h]
    · simp [h, hRun, Ne.symm hRun]
  cases a with
  | register state =>
    simp only [apply, onRun, target, Option.some.injEq]
    split
    · subst runId
      exact AList.lookup_insert _
    · exact (AList.lookup_insert_ne (Ne.symm ‹_›)).trans h
  | renameReviews flowId runId' =>
    simp only [apply]
    split <;> exact h
  | transition runId' status reason => exact hModify runId' (·.transition status reason w.now)
  | _ =>
    first
    | exact hModify _ _
    | exact h

theorem getRun_apply_none {a : Act} (ha : ∀ state, a ≠ .register state) {w : FlowRuntime}
    {runId : String} (h : w.getRun runId = none) : (a.apply w).getRun runId = none := by
  have hModify : ∀ runId' f, (w.modifyRun runId' f).getRun runId = none := fun runId' f => by
    rw [FlowRuntime.getRun_modifyRun, h]
    split
    · rename_i hRun
      rw [← hRun, h]
      rfl
    · rfl
  cases a with
  | register state => exact absurd rfl (ha state)
  | renameReviews flowId runId' =>
    simp only [apply]
    split <;> exact h
  | transition runId' status reason => exact hModify runId' (·.transition status reason w.now)
  | _ =>
    first
    | exact hModify _ _
    | exact h

theorem isSome_apply (a : Act) {w : FlowRuntime} {runId : String}
    (h : (w.getRun runId).isSome = true) : ((a.apply w).getRun runId).isSome = true := by
  obtain ⟨s, hs⟩ := Option.isSome_iff_exists.mp h
  rw [a.getRun_apply hs]
  rfl

theorem onRun_view {δ : Type} (view : FlowRunState → δ) {a : Act} {runId now : String}
    {s : FlowRunState} (h : view (a.change now s) = view s) :
    view (a.onRun runId now s) = view s := by
  unfold onRun
  split
  · exact h
  · rfl

/-- A section that leaves every run alone. -/
def Quiet (a : Act) : Prop := a.target = none

theorem getRun_of_quiet {a : Act} (h : a.Quiet) (w : FlowRuntime) (runId : String) :
    (a.apply w).getRun runId = w.getRun runId := by
  cases a with
  | renameReviews flowId runId' =>
    simp only [apply]
    split <;> rfl
  | _ => first | rfl | cases h

/-- The section is about the review file. -/
def isReview : Act → Bool
  | .readReviews _ _ | .utcNowIso | .writeReviewsTmp _ _ _ | .renameReviews _ _ => true
  | _ => false

theorem quiet_of_isReview {a : Act} (h : a.isReview = true) : a.Quiet := by
  cases a <;> first | rfl | cases h

/-- The section marks a status, invokes or registers. -/
def isDeed : Act → Bool
  | .markPortStatus _ _ _ _ | .markPortStatusUnchecked _ _ _ _ | .recordInvocation _ _ _
  | .register _ => true
  | _ => false

theorem Quiet.not_deed {a : Act} (h : a.Quiet) : a.isDeed = false := by
  cases a <;> first | rfl | cases h

/-- The status of the port after the section. -/
def changeStatus (node port : String) (old : PortStatus) : Act → PortStatus
  | .markPortStatus _ node' port' status =>
    if node = node' ∧ port = port' ∧ old ≠ .approved then status else old
  | .markPortStatusUnchecked _ node' port' status =>
    if node = node' ∧ port = port' then status else old
  | .register state => state.portStatus node port
  | _ => old

def newStatus (a : Act) (runId node port : String) (old : PortStatus) : PortStatus :=
  if a.target = some runId then a.changeStatus node port old else old

theorem portStatus_change (a : Act) (now : String) (s : FlowRunState) (node port : String) :
    (a.change now s).portStatus node port = a.changeStatus node port (s.portStatus node port) := by
  cases a with
  | markPortStatus runId' node' port' status =>
    rw [change, changeStatus, FlowRunState.portStatus_markPort]
    refine if_congr (and_congr_right fun hn => and_congr_right fun hp => ?_) rfl rfl
    rw [hn, hp]
  | markPortStatusUnchecked runId' node' port' status =>
    rw [change, changeStatus, FlowRunState.portStatus_setPort]
  | setOriginatingSession runId' sessionId => rfl
  | _ => simp [change, changeStatus]

theorem portStatus_onRun (a : Act) (runId now : String) (s : FlowRunState) (node port : String) :
    (a.onRun runId now s).portStatus node port =
      a.newStatus runId node port (s.portStatus node port) := by
  unfold onRun newStatus
  split
  · exact a.portStatus_change now s node port
  · rfl

@[simp] theorem newStatus_markPortStatus (runId' node' port' : String) (status : PortStatus)
    (runId node port : String) (old : PortStatus) :
    (markPortStatus runId' node' port' status).newStatus runId node port old =
      if runId' = runId ∧ node = node' ∧ port = port' ∧ old ≠ .approved then status else old := by
  by_cases h : runId' = runId <;> simp [newStatus, target, changeStatus, h]

@[simp] theorem newStatus_markPortStatusUnchecked (runId' node' port' : String)
    (status : PortStatus) (runId node port : String) (old : PortStatus) :
    (markPortStatusUnchecked runId' node' port' status).newStatus runId node port old =
      if runId' = runId ∧ node = node' ∧ port = port' then status else old := by
  by_cases h : runId' = runId <;> simp [newStatus, target, changeStatus, h]

@[simp] theorem newStatus_recordInvocation (runId' node' : String) (trigger : InvocationTrigger)
    (runId node port : String) (old : PortStatus) :
    (recordInvocation runId' node' trigger).newStatus runId node port old = old :=
  ite_self _

theorem newStatus_of_not_deed {a : Act} (h : a.isDeed = false) (runId node port : String)
    (old : PortStatus) : a.newStatus runId node port old = old := by
  cases a <;> first | exact ite_self _ | cases h

theorem portStatus_apply (a : Act) {w : FlowRuntime} {runId : String}
    (h : (w.getRun runId).isSome = true) (node port : String) :
    (a.apply w).portStatus runId node port =
      a.newStatus runId node port (w.portStatus runId node port) := by
  obtain ⟨s, hs⟩ := Option.isSome_iff_exists.mp h
  simp only [FlowRuntime.portStatus, a.getRun_apply hs, hs, portStatus_onRun]

theorem portStatus_apply_of_not_deed {a : Act} (h : a.isDeed = false) (w : FlowRuntime)
    (runId node port : String) :
    (a.apply w).portStatus runId node port = w.portStatus runId node port := by
  cases hRun : w.getRun runId with
  | none =>
    have ha : ∀ state, a ≠ .register state := by
      rintro state rfl
      cases h
    rw [FlowRuntime.portStatus, getRun_apply_none ha hRun, FlowRuntime.portStatus, hRun]
  | some s =>
    rw [a.portStatus_apply (by rw [hRun]; rfl), newStatus_of_not_deed h]

/-- The invocation that a section adds for the node. -/
def invoked (node : String) : Act → List InvocationTrigger
  | .recordInvocation _ node' trigger => if node' = node then [trigger] else []
  | _ => []

theorem invocations_change {a : Act} (h : ∀ state, a ≠ .register state) (now : String)
    (s : FlowRunState) (node : String) :
    (a.change now s).invocations node = s.invocations node ++ a.invoked node := by
  cases a with
  | register state => exact absurd rfl (h state)
  | markPortStatus runId' node' port status =>
    exact (s.invocations_markPort node' port status node).trans (List.append_nil _).symm
  | recordInvocation runId' node' trigger => exact s.invocations_recordInvocation node' trigger node
  | transition runId' status reason =>
    simp only [change, FlowRunState.transition, invoked, List.append_nil]
    split <;> rfl
  | markPortStatusUnchecked | incrementPortCycles =>
    exact (s.invocations_modifyNode (by intro _; rfl) node).trans (List.append_nil _).symm
  | _ => exact (List.append_nil _).symm

def isVerdict : Act → Bool
  | .recordVerdict _ _ _ _ | .register _ => true
  | _ => false

theorem verdicts_onRun {a : Act} (h : a.isVerdict = false) (runId now : String)
    (s : FlowRunState) (key : String) : (a.onRun runId now s).verdicts key = s.verdicts key := by
  refine onRun_view (·.verdicts key) ?_
  cases a with
  | markPortStatus runId' node port status =>
    obtain ⟨nodes, hNodes⟩ := s.markPort_eq node port status
    rw [change, hNodes]
    rfl
  | transition runId' status reason =>
    simp only [change, FlowRunState.transition]
    split <;> rfl
  | _ => first | rfl | cases h

def isCycle : Act → Bool
  | .incrementPortCycles _ _ _ | .register _ => true
  | _ => false

theorem portCycles_onRun {a : Act} (h : a.isCycle = false) (runId now : String)
    (s : FlowRunState) (node port : String) :
    (a.onRun runId now s).portCycles node port = s.portCycles node port := by
  refine onRun_view (·.portCycles node port) ?_
  cases a with
  | markPortStatus runId' node' port' status =>
    simp only [change, FlowRunState.markPort]
    split
    · exact s.portCycles_modifyNode (by intro _; rfl) node port
    · rw [FlowRunState.portCycles, FlowRunState.nodeState_openNode, FlowRunState.portCycles]
  | markPortStatusUnchecked | recordInvocation =>
    exact s.portCycles_modifyNode (by intro _; rfl) node port
  | transition runId' status reason =>
    simp only [change, FlowRunState.transition]
    split <;> rfl
  | _ => first | rfl | cases h

def isLifecycle : Act → Bool
  | .transition _ _ _ | .register _ => true
  | _ => false

def isPlain : Act → Bool
  | .incrementPortCycles _ _ _ | .recordVerdict _ _ _ _ | .transition _ _ _ | .register _ => false
  | _ => true

theorem isPlain_iff (a : Act) : a.isPlain = true ↔
    a.isVerdict = false ∧ a.isCycle = false ∧ a.isLifecycle = false := by
  cases a <;> simp [isPlain, isVerdict, isCycle, isLifecycle]

theorem Quiet.plain {a : Act} (h : a.Quiet) : a.isPlain = true := by
  cases a <;> first | rfl | cases h

theorem lifecycle_onRun {a : Act} (h : a.isLifecycle = false) (runId now : String)
    (s : FlowRunState) : (a.onRun runId now s).lifecycle = s.lifecycle := by
  refine onRun_view (·.lifecycle) ?_
  cases a with
  | markPortStatus runId' node port status =>
    obtain ⟨nodes, hNodes⟩ := s.markPort_eq node port status
    rw [change, hNodes]
    rfl
  | _ => first | rfl | cases h

end Act

end Cronymax.Flow
