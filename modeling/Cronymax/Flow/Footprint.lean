import Cronymax.Flow.Calls

/-! The sections that each call may perform, in whatever state its sections find, and what follows
for the parts of a run that only some of the calls change. -/

namespace Cronymax.Flow

open Atomic FlowRuntime

variable {flow : FlowDefinition} {runId node port : String}

/-- The sections of one seeded entry. -/
def Seeds (runId : String) (flow : FlowDefinition) (seed : String × BlackboardEntry) (a : Act) :
    Prop :=
  a.Quiet ∨ a = .writeBlackboardEntry runId seed.1 seed.2 ∨
    ∃ node port, flow.findOutputByBlackboardKey seed.1 = some (node, port) ∧
      (a = .markPortStatusUnchecked runId node port .seeded ∨
        ∃ nodeId, Activates runId flow nodeId (andJoinTrigger node port) a)

theorem applySeededEntry_only (runId : String) (flow : FlowDefinition)
    (seed : String × BlackboardEntry) :
    (applySeededEntry runId flow seed).Only (Seeds runId flow seed) := by
  refine .perform (.inr (.inl rfl)) fun _ => ?_
  simp only [Prog.pure_eq]
  split
  · trivial
  · rename_i node port hKey
    refine Prog.Only.bind ?_ fun _ => ?_
    · refine (markPortStatusUnchecked_only _ _ _ _).mono fun a ha => ?_
      exact ha.imp id fun ha => .inr ⟨node, port, hKey, .inl ha⟩
    · refine (fireAndJoinFor_only _ _ _ _).mono fun a ha => ?_
      exact ha.imp id fun ⟨nodeId, _, ha⟩ => .inr ⟨node, port, hKey, .inr ⟨nodeId, ha⟩⟩

theorem transitionRun_only (runId : String) (status : FlowRunStatus) (reason : Option String) :
    (transitionRun runId status reason).Only fun a =>
      a.Quiet ∨ a = .transition runId status reason := by
  refine .perform (.inr rfl) fun w => ?_
  split
  · trivial
  · split
    · trivial
    · exact (persistRun_quiet _).mono fun _ h => .inl h

theorem settleVerdict_only_any (runId node port : String) (flow : FlowDefinition)
    (verdicts : List (String × ReviewVerdict)) :
    (settleVerdict runId node port flow verdicts).Only fun a =>
      Cascades runId node port flow a ∨ Requeues runId node port a := by
  unfold settleVerdict
  split
  · exact ((onRejectedRequeue_only _ _ _ _).mono fun _ ha => .inr ha).bind fun _ => trivial
  · split
    · split
      · trivial
      · exact ((onDocumentApproved_only _ _ _ _).mono fun _ ha => .inl ha).bind fun _ => trivial
    · trivial

theorem onReviewerVerdict_only (runId node port reviewer : String) (vote : ReviewVerdict)
    (comments : List ReviewComment) (flow : FlowDefinition) :
    (onReviewerVerdict runId node port reviewer vote comments flow).Only fun a =>
      a.Quiet ∨ a = .recordVerdict runId (verdictKey runId node port) reviewer vote ∨
        Cascades runId node port flow a ∨ Requeues runId node port a := by
  refine .perform (.inl rfl) fun w => ?_
  split
  · trivial
  · refine ((keepComments_quiet _ _ _ _ _).mono fun _ ha => .inl ha).bind fun _ =>
      Prog.Only.bind ?_ fun verdicts =>
        ((persistVerdicts_quiet _).mono fun _ ha => .inl ha).bind fun _ =>
          (settleVerdict_only_any runId node port flow verdicts).mono fun _ ha => .inr (.inr ha)
    refine .perform (.inr (.inl rfl)) fun w => ?_
    split <;> trivial

theorem onDocumentSubmitted_only (runId node port : String) (flow : FlowDefinition) (sha : String)
    (revision : UInt32) :
    (onDocumentSubmitted runId node port flow sha revision).Only fun a =>
      a.Quiet ∨ a = .incrementPortCycles runId node port ∨ Cascades runId node port flow a ∨
        a = .markPortStatus runId node port .inReview := by
  refine Prog.Only.bind ?_ fun action => ?_
  · obtain ⟨_, hCheck⟩ := checkCycleLimit_eq runId flow node port
    rw [hCheck]
    split
    · trivial
    · refine ((incrementPortCycles_only _ _ _).mono fun _ ha => ?_).bind fun _ => trivial
      exact ha.imp id .inl
  · split
    · trivial
    · exact ((noteReview_quiet _ _ _ _ _ _).mono fun _ ha => .inl ha).bind fun _ =>
        (receiveDocument_only _ _ _ _).mono fun _ ha => .inr (.inr ha)

/-- Which sections a call can perform. -/
def Call.Performs (flow : FlowDefinition) (runId : String) : Call → Act → Prop
  | .submitted node port _ _, a =>
    a.Quiet ∨ a = .incrementPortCycles runId node port ∨ Cascades runId node port flow a ∨
      a = .markPortStatus runId node port .inReview
  | .approved node port, a => Cascades runId node port flow a
  | .verdict node port reviewer vote _, a =>
    a.Quiet ∨ a = .recordVerdict runId (verdictKey runId node port) reviewer vote ∨
      Cascades runId node port flow a ∨ Requeues runId node port a
  | .rejected node port, a => Requeues runId node port a
  | .seeded seeds, a => ∃ seed ∈ seeds, Seeds runId flow seed a
  | .mark node port status, a => a.Quiet ∨ a = .markPortStatus runId node port status
  | .cancel, a => a.Quiet ∨ a = .transition runId .cancelled none
  | .complete, a => a.Quiet ∨ a = .transition runId .completed none
  | .fail reason, a => a.Quiet ∨ a = .transition runId .failed (some reason)

theorem Call.op_only (flow : FlowDefinition) (runId : String) (c : Call) :
    (c.op flow runId).Only (c.Performs flow runId) := by
  cases c with
  | submitted node port sha revision => exact onDocumentSubmitted_only _ _ _ _ _ _
  | approved node port => exact onDocumentApproved_only _ _ _ _
  | verdict node port reviewer vote comments =>
    exact (onReviewerVerdict_only _ _ _ _ _ _ _).bind fun _ => trivial
  | rejected node port => exact (onRejectedRequeue_only _ _ _ _).bind fun _ => trivial
  | seeded seeds =>
    exact .collect _ fun seed hSeed => (applySeededEntry_only _ _ _).mono fun _ ha =>
      ⟨seed, hSeed, ha⟩
  | mark node port status => exact (markPortStatus_only _ _ _ _).bind fun _ => trivial
  | cancel => exact (transitionRun_only _ _ _).bind fun _ => trivial
  | complete => exact (transitionRun_only _ _ _).bind fun _ => trivial
  | fail reason => exact (transitionRun_only _ _ _).bind fun _ => trivial

theorem Activates.plain {nodeId : String} {trigger : InvocationTrigger} {a : Act}
    (h : Activates runId flow nodeId trigger a) : a.isPlain = true := by
  obtain ⟨_, _, ⟨_, _, _, rfl⟩ | ⟨_, rfl⟩⟩ := h <;> rfl

theorem Seeds.plain {seed : String × BlackboardEntry} {a : Act} (h : Seeds runId flow seed a) :
    a.isPlain = true := by
  rcases h with h | rfl | ⟨_, _, _, rfl | ⟨_, h⟩⟩
  · exact h.plain
  · rfl
  · rfl
  · exact h.plain

namespace Call

/-- The port that a call is about. -/
def document : Call → Option PortRef
  | .submitted node port _ _ | .approved node port | .verdict node port _ _ _
  | .rejected node port => some (node, port)
  | _ => none

/-- The call ends the run. -/
def isLifecycle : Call → Bool
  | .cancel | .complete | .fail _ => true
  | _ => false

/-- The call submits a document of the port. -/
@[grind =] def submits (node port : String) : Call → Bool
  | .submitted node' port' _ _ => node' = node && port' = port
  | _ => false

variable {c : Call} {a : Act}

theorem Performs.cases (h : c.Performs flow runId a) : a.isPlain = true ∨
    (∃ node port, c.submits node port = true ∧ a = .incrementPortCycles runId node port) ∨
    (∃ key reviewer vote, a = .recordVerdict runId key reviewer vote) ∨
    c.isLifecycle = true ∧ ∃ status reason, a = .transition runId status reason := by
  cases c with
  | submitted node port sha revision =>
    rcases h with h | rfl | h | rfl
    · exact .inl h.plain
    · exact .inr (.inl ⟨node, port, by simp [submits], rfl⟩)
    · exact .inl h.plain
    · exact .inl rfl
  | approved node port => exact .inl (Cascades.plain h)
  | verdict node port reviewer vote comments =>
    rcases h with h | rfl | h | h
    · exact .inl h.plain
    · exact .inr (.inr (.inl ⟨_, _, _, rfl⟩))
    · exact .inl h.plain
    · exact .inl h.plain
  | rejected node port => exact .inl (Requeues.plain h)
  | seeded seeds =>
    obtain ⟨_, _, h⟩ := h
    exact .inl h.plain
  | mark node port status =>
    rcases h with h | rfl
    · exact .inl h.plain
    · exact .inl rfl
  | cancel | complete | fail =>
    rcases h with h | rfl
    · exact .inl h.plain
    · exact .inr (.inr (.inr ⟨rfl, _, _, rfl⟩))

theorem Performs.not_register (h : c.Performs flow runId a) (state : FlowRunState) :
    a ≠ .register state := by
  rintro rfl
  rcases h.cases with h | ⟨_, _, _, h⟩ | ⟨_, _, _, h⟩ | ⟨_, _, _, h⟩ <;> cases h

theorem Performs.newStatus_other {document : PortRef} (h : c.Performs flow runId a)
    (hDocument : c.document = some document) (hOther : (node, port) ≠ document) (old : PortStatus) :
    a.newStatus runId node port old = old ∨
      HumanOwned flow node port ∧ a.newStatus runId node port old = .awaitingOwner := by
  obtain ⟨node', port'⟩ := document
  have hOther : ¬(node = node' ∧ port = port') := fun h => hOther (by rw [h.1, h.2])
  have hCascades (h : Cascades runId node' port' flow a) : a.newStatus runId node port old = old ∨
      HumanOwned flow node port ∧ a.newStatus runId node port old = .awaitingOwner :=
    (h.newStatus node port old).imp_right fun h => h.resolve_left fun h => hOther h.1
  have hRequeues (h : Requeues runId node' port' a) : a.newStatus runId node port old = old :=
    (h.newStatus node port old).resolve_right fun h => hOther h.1
  have hIdle (h : a.isDeed = false) : a.newStatus runId node port old = old :=
    Act.newStatus_of_not_deed h runId node port old
  cases c with
  | submitted =>
    obtain ⟨rfl, rfl⟩ := Prod.mk.inj (Option.some.inj hDocument)
    rcases h with h | rfl | h | rfl
    · exact .inl (hIdle h.not_deed)
    · exact .inl (hIdle rfl)
    · exact hCascades h
    · exact .inl (by rw [Act.newStatus_markPortStatus, if_neg fun h => hOther ⟨h.2.1, h.2.2.1⟩])
  | approved =>
    obtain ⟨rfl, rfl⟩ := Prod.mk.inj (Option.some.inj hDocument)
    exact hCascades h
  | verdict =>
    obtain ⟨rfl, rfl⟩ := Prod.mk.inj (Option.some.inj hDocument)
    rcases h with h | rfl | h | h
    · exact .inl (hIdle h.not_deed)
    · exact .inl (hIdle rfl)
    · exact hCascades h
    · exact .inl (hRequeues h)
  | rejected =>
    obtain ⟨rfl, rfl⟩ := Prod.mk.inj (Option.some.inj hDocument)
    exact .inl (hRequeues h)
  | _ => cases hDocument

end Call

variable {w : FlowRuntime} {s : FlowRunState}

theorem status_other (flow : FlowDefinition) (c : Call) {document : PortRef}
    (hDocument : c.document = some document) (hOther : (node, port) ≠ document)
    (hRun : (w.getRun runId).isSome = true) :
    (c.step flow runId w).portStatus runId node port = w.portStatus runId node port ∨
      HumanOwned flow node port ∧
        (c.step flow runId w).portStatus runId node port = .awaitingOwner := by
  refine portStatus_run_of_only (c.op_only flow runId) (I := fun status =>
    status = w.portStatus runId node port ∨ HumanOwned flow node port ∧ status = .awaitingOwner)
    (fun a ha old hOld => ?_) hRun (.inl rfl)
  rcases ha.newStatus_other hDocument hOther old with h | h
  · rwa [h]
  · exact .inr h

theorem portCycles_call (flow : FlowDefinition) (node port : String) (c : Call)
    (hRun : w.getRun runId = some s) : ∃ s', (c.step flow runId w).getRun runId = some s' ∧
      s'.portCycles node port = s.portCycles node port +
        if c.submits node port && (cycleLimit flow node port).isSome then 1 else 0 := by
  by_cases hSubmits : c.submits node port = true
  · cases c with
    | submitted node' port' sha revision =>
      obtain ⟨rfl, rfl⟩ : node' = node ∧ port' = port := by simpa [Call.submits] using hSubmits
      obtain ⟨w', hRun', hCases⟩ := onDocumentSubmitted_leads flow node' port' sha revision hRun
      have hCounted : (counted flow node' port' s).portCycles node' port' =
          s.portCycles node' port' +
            if (cycleLimit flow node' port').isSome then 1 else 0 := by
        unfold counted
        split <;> simp [FlowRunState.portCycles_incrementPortCycles]
      rw [hSubmits, Bool.true_and, ← hCounted]
      unfold Call.step Call.op
      simp only
      rcases hCases with ⟨e, _, hLeads⟩ | ⟨_, hLeads⟩
      · rw [hLeads.run]
        exact ⟨_, hRun', rfl⟩
      · rw [hLeads.run]
        exact view_run_of_only (·.portCycles node' port') (receiveDocument_plain runId node' port' flow)
          (fun a ha now s => a.portCycles_onRun (a.isPlain_iff.mp ha).2.1 runId now s node' port')
          hRun'
    | _ => cases hSubmits
  · have hStep (a : Act) (ha : c.Performs flow runId a) (now : String) (s : FlowRunState) :
        (a.onRun runId now s).portCycles node port = s.portCycles node port := by
      rcases ha.cases with h | ⟨node', port', h, rfl⟩ | ⟨_, _, _, rfl⟩ | ⟨_, _, _, rfl⟩
      · exact a.portCycles_onRun (a.isPlain_iff.mp h).2.1 runId now s node port
      · have hOther : ¬(node = node' ∧ port = port') := by
          rintro ⟨rfl, rfl⟩
          exact hSubmits h
        simp [Act.onRun, Act.target, Act.change, FlowRunState.portCycles_incrementPortCycles, hOther]
      · exact Act.portCycles_onRun rfl runId now s node port
      · exact Act.portCycles_onRun rfl runId now s node port
    obtain ⟨s', hs', hView⟩ :=
      view_run_of_only (·.portCycles node port) (c.op_only flow runId) hStep hRun
    exact ⟨s', hs', by simpa [hSubmits] using hView⟩

theorem portCycles_play (flow : FlowDefinition) (node port : String) (calls : List Call)
    (hRun : w.getRun runId = some s) (hLimit : (cycleLimit flow node port).isSome = true) :
    ∃ s', (History.play (Call.step flow runId) w calls).getRun runId = some s' ∧
      s'.portCycles node port = s.portCycles node port +
        UInt32.ofNat (calls.countP (·.submits node port)) := by
  induction calls generalizing w s with
  | nil => exact ⟨s, hRun, by simp⟩
  | cons c calls ih =>
    obtain ⟨s1, hRun1, hFirst⟩ := portCycles_call flow node port c hRun
    obtain ⟨s', hRun', hRest⟩ := ih hRun1
    refine ⟨s', hRun', ?_⟩
    rw [hRest, hFirst, hLimit, Bool.and_true, List.countP_cons, UInt32.ofNat_add]
    split
    · rw [UInt32.add_assoc, UInt32.add_comm 1]
      rfl
    · simp

/-- The record that `start_run` registers. -/
def startState (runId : String) (flow : FlowDefinition) (initialInput now : String) :
    FlowRunState :=
  (FlowRunState.new runId flow.name initialInput now).setPort "__chat__" "initial-brief" .approved

theorem startRun_cases (runId : String) (flow : FlowDefinition) (initialInput : String)
    (w : FlowRuntime) :
    (¬w.Healthy ∧ ((startRun runId flow initialInput).run w).2.getRun runId = w.getRun runId) ∨
      ∃ now w', (w.Healthy → w'.Healthy) ∧
        w'.getRun runId = some (startState runId flow initialInput now) ∧
        ((startRun runId flow initialInput).run w).2 =
          ((fireAndJoinFor "__chat__" "initial-brief" runId flow).run w').2 := by
  have hNow : (utcNowIso.run w).1 = .ok w.now := rfl
  have hNowRun := getRun_run_of_quiet utcNowIso_quiet w runId
  have hHealthy : w.Healthy → (utcNowIso.run w).2.Healthy := healthy_run utcNowIso
  rw [startRun, Prog.run_bind_of_ok hNow]
  generalize (utcNowIso.run w).2 = w1 at hNowRun hHealthy
  simp only
  have hPersistRun := getRun_run_of_quiet
    (persistRun_quiet (startState runId flow initialInput w.now)) w1 runId
  cases hPersist : ((persistRun (startState runId flow initialInput w.now)).run w1).1 with
  | error e =>
    refine .inl ⟨fun h => ?_, ?_⟩
    · have hFault := (hHealthy h).fault
      simp [persistRun, Prog.run, hFault] at hPersist
    · rw [Prog.run_bind_of_error (by exact hPersist)]
      exact hPersistRun.trans hNowRun
  | ok _ =>
    refine .inr ⟨w.now, (Act.register (startState runId flow initialInput w.now)).apply
      ((persistRun (startState runId flow initialInput w.now)).run w1).2, fun h => ?_, ?_, ?_⟩
    · exact (healthy_run _ (hHealthy h)).apply _
    · exact AList.lookup_insert _
    · refine (congrArg Prod.snd (Prog.run_bind_of_ok hPersist _)).trans ?_
      exact Prog.run_map_snd _ _ _

end Cronymax.Flow
