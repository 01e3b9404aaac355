import Cronymax.Flow.Footprint
import Cronymax.Flow.Rounds

/-! The life of a document.  A port is to be approved only after its document was submitted.  The
approval itself asks for neither: it takes any port in any state, and so does the verdict that
completes a quorum.  On a run whose approvals all find their port in review, and disturb no
document of a human-owned node, the documents live as they should. -/

namespace Cronymax.Flow

open Atomic FlowRuntime

variable {flow : FlowDefinition} {runId node port : String} {w : FlowRuntime} {s : FlowRunState}

/-- The port of the virtual chat node under which the initial brief is seeded. -/
def briefPort : PortRef := ("__chat__", "initial-brief")

/-- No document of the port is in: it is `Pending`, or `AwaitingOwner` where the owner is a human
who has been asked for it. -/
def PortStatus.waits : PortStatus → Bool
  | .pending | .awaitingOwner => true
  | _ => false

@[simp] theorem PortStatus.waits_iff {status : PortStatus} :
    status.waits = true ↔ status = .pending ∨ status = .awaitingOwner := by
  cases status <;> simp [waits]

/-- The ports of a node that ask for the approval of their owner. -/
def humanPorts (flow : FlowDefinition) (nodeId : String) : List PortRef :=
  match flow.node nodeId with
  | none => []
  | some n => if n.owner = "human" then n.outputs.map fun output => (nodeId, output.port) else []

theorem HumanOwned.of_mem {nodeId : String} (h : (node, port) ∈ humanPorts flow nodeId) :
    HumanOwned flow node port := by
  unfold humanPorts at h
  split at h
  · cases h
  · rename_i n hNode
    split at h
    · rename_i hHuman
      obtain ⟨output, hOutput, hPort⟩ := List.mem_map.mp h
      obtain ⟨rfl, rfl⟩ := Prod.mk.inj hPort
      exact ⟨n, hNode, hHuman, List.mem_map_of_mem hOutput⟩
    · cases h

/-- The ports of human-owned nodes that the approval of a port sets to `AwaitingOwner`: those of
the nodes whose last missing input it is, and those of the nodes that it retriggers. -/
def askedPorts (flow : FlowDefinition) (node port : String) (status : String → String → PortStatus) :
    List PortRef :=
  ((flow.graph.nodesAwaiting node port).filter (fun nodeId =>
      (flow.graph.requiredInputsFor nodeId).all fun input =>
        input = (node, port) || status input.1 input.2 = .approved) ++
    flow.graph.nodesRetriggeredBy node port).flatMap (humanPorts flow)

/-- The approval of the port takes no document back: none of the ports it asks for is the port
itself, or has a document. -/
def Undisturbing (flow : FlowDefinition) (node port : String)
    (status : String → String → PortStatus) : Prop :=
  status node port = .approved ∨ ∀ asked ∈ askedPorts flow node port status,
    asked = briefPort ∨ asked ≠ (node, port) ∧ (status asked.1 asked.2).waits = true

instance {status : String → String → PortStatus} : Decidable (Undisturbing flow node port status) :=
  inferInstanceAs (Decidable (_ ∨ _))

namespace Call

/-- The call submits a document of the port and is not stopped by the cycle limit. -/
def delivers (flow : FlowDefinition) (runId node port : String) (w : FlowRuntime) (c : Call) : Bool :=
  c.submits node port && !overLimit flow runId node port w

/-- The call rejects the document: a verdict that says so, or the requeue of a rejected one. -/
def rejects (node port : String) : Call → Bool
  | .verdict node' port' _ vote _ => node' = node && port' = port && vote = .reject
  | .rejected node' port' => node' = node && port' = port
  | _ => false

/-- The call approves the document, or is the verdict that completes its quorum. -/
def approves (flow : FlowDefinition) (runId node port : String) (w : FlowRuntime) : Call → Bool
  | .approved node' port' => node' = node && port' = port
  | .verdict node' port' reviewer vote _ =>
    let verdicts := Ballot.record (w.verdicts runId (verdictKey runId node port)) reviewer vote
    node' = node && port' = port && !Ballot.Vetoed .reject verdicts &&
      (agentReviewers flow node port).length ≤ verdicts.length && !hasHumanReviewer flow node port
  | _ => false

end Call

/-- The moves of a port: `Pending → InReview → Approved`, `Pending → Approved` by a submission that
nobody is to review, and back to `Pending` by a rejection.  Where a human owns the node, its
`Pending` port may be `AwaitingOwner`. -/
inductive PortStep (flow : FlowDefinition) (runId node port : String) (w : FlowRuntime) (c : Call) :
    PortStatus → PortStatus → Prop where
  | same (status : PortStatus) : PortStep flow runId node port w c status status
  | asked (hHuman : HumanOwned flow node port) :
      PortStep flow runId node port w c .pending .awaitingOwner
  | receives {old : PortStatus} (hOld : old.waits = true)
      (hDelivers : c.delivers flow runId node port w = true)
      (hReviewers : listedReviewers flow node port ≠ []) :
      PortStep flow runId node port w c old .inReview
  | autoApproves {old : PortStatus} (hOld : old.waits = true)
      (hDelivers : c.delivers flow runId node port w = true)
      (hReviewers : listedReviewers flow node port = []) :
      PortStep flow runId node port w c old .approved
  | approves (hApproves : c.approves flow runId node port w = true) :
      PortStep flow runId node port w c .inReview .approved
  | sentBack {old : PortStatus} (hBack : c.rejects node port = true) :
      PortStep flow runId node port w c old .pending

/-- Every port but that of the brief makes a move of its own machine, or none. -/
def PortSteps (flow : FlowDefinition) (runId : String) (w : FlowRuntime) (c : Call) : Prop :=
  ∀ node port, (node, port) ≠ briefPort → PortStep flow runId node port w c
    (w.portStatus runId node port) ((c.step flow runId w).portStatus runId node port)

/-- The flow declares the port, and its document is in review or approved already. -/
def Approvable (flow : FlowDefinition) (runId node port : String) (w : FlowRuntime) : Prop :=
  (flow.output node port).isSome = true ∧
    (w.portStatus runId node port = .inReview ∨ w.portStatus runId node port = .approved)

instance : Decidable (Approvable flow runId node port w) :=
  inferInstanceAs (Decidable (_ ∧ _))

/-- A submission is of a declared output, an approval finds its port in review, a verdict that
approves does not meet an older rejection, and no approval disturbs another document. -/
def Proper (flow : FlowDefinition) (runId : String) (w : FlowRuntime) : Call → Prop
  | .submitted node port _ _ =>
    ((node, port) = briefPort ∨ (flow.output node port).isSome = true) ∧
      (listedReviewers flow node port = [] → overLimit flow runId node port w = false →
        Undisturbing flow node port (w.portStatus runId))
  | .approved node port =>
    ((node, port) = briefPort ∨ Approvable flow runId node port w) ∧
      Undisturbing flow node port (w.portStatus runId)
  | .verdict node port reviewer vote comments =>
    if Ballot.Vetoed .reject
        (Ballot.record (w.verdicts runId (verdictKey runId node port)) reviewer vote) then
      (node, port) = briefPort ∨ vote = .reject ∨ w.portStatus runId node port = .pending
    else (Call.verdict node port reviewer vote comments).approves flow runId node port w = true →
      ((node, port) = briefPort ∨ Approvable flow runId node port w) ∧
        Undisturbing flow node port (w.portStatus runId)
  | _ => True

instance (c : Call) : Decidable (Proper flow runId w c) := by
  cases c <;> unfold Proper <;> infer_instance

theorem Activates.asks {nodeId : String} {trigger : InvocationTrigger} {a : Act}
    (h : Activates runId flow nodeId trigger a) (node port : String) (old : PortStatus) :
    a.newStatus runId node port old = old ∨
      (node, port) ∈ humanPorts flow nodeId ∧ a.newStatus runId node port old = .awaitingOwner := by
  obtain ⟨n, hNode, ⟨hHuman, output, hOutput, rfl⟩ | ⟨_, rfl⟩⟩ := h
  · by_cases hPort : node = nodeId ∧ port = output.port
    · obtain ⟨rfl, rfl⟩ := hPort
      refine .inr ⟨?_, by simp⟩
      simp only [humanPorts, hNode, if_pos hHuman]
      exact List.mem_map_of_mem hOutput
    · exact .inl (by simp [hPort])
  · exact .inl (by simp)

/-- What the approval of a port, in a run with these statuses, may make of a status. -/
def Cascaded (flow : FlowDefinition) (node port : String) (status : String → String → PortStatus)
    (node' port' : String) (new : PortStatus) : Prop :=
  new = status node' port' ∨ (node', port') = (node, port) ∧ new = .approved ∨
    (node', port') ∈ askedPorts flow node port status ∧ new = .awaitingOwner

theorem activateNodes_cascaded {status : String → String → PortStatus} {nodes : List String}
    (trigger : InvocationTrigger)
    (hAsked : ∀ nodeId ∈ nodes, ∀ p ∈ humanPorts flow nodeId, p ∈ askedPorts flow node port status)
    (hRun : (w.getRun runId).isSome = true) {node' port' : String}
    (h : Cascaded flow node port status node' port' (w.portStatus runId node' port')) :
    Cascaded flow node port status node' port'
      (((activateNodes runId flow trigger nodes).run w).2.portStatus runId node' port') := by
  refine portStatus_run_of_only (activateNodes_only runId flow trigger nodes) (fun a ha old hOld => ?_)
    hRun h
  rcases ha with ha | ⟨nodeId, hNode, ha⟩
  · rwa [Act.newStatus_of_not_deed ha.not_deed]
  · rcases ha.asks node' port' old with hSame | ⟨hMem, hNew⟩
    · rwa [hSame]
    · exact .inr (.inr ⟨hAsked nodeId hNode _ hMem, hNew⟩)

theorem portStatus_reinvokeProducer (flow : FlowDefinition) (node port : String)
    (hRun : (w.getRun runId).isSome = true) (node' port' : String) :
    ((reinvokeProducer runId node port flow).run w).2.portStatus runId node' port' =
      w.portStatus runId node' port' := by
  have hOnly : (reinvokeProducer runId node port flow).Only fun a =>
      a.Quiet ∨ a = .recordInvocation runId node (implicitReinvokeTrigger port) := by
    unfold reinvokeProducer
    split
    · trivial
    · split
      · trivial
      · refine .perform (.inl rfl) fun t => ?_
        split
        · trivial
        · split
          · trivial
          · exact (scheduleNodeWithContext_only _ _ _ _).bind fun _ => trivial
  refine portStatus_run_of_only hOnly (I := (· = w.portStatus runId node' port'))
    (fun a ha old hOld => ?_) hRun rfl
  rcases ha with ha | rfl
  · rwa [Act.newStatus_of_not_deed ha.not_deed]
  · simpa using hOld

theorem run_bind_leaves {α β : Type} {p : Op α} {f : α → Op β} {I : FlowRuntime → Prop}
    (hp : I (p.run w).2) (hf : ∀ a, I ((f a).run (p.run w).2).2) : I ((p >>= f).run w).2 := by
  cases h : (p.run w).1 with
  | ok a =>
    rw [Prog.run_bind_of_ok h]
    exact hf a
  | error e =>
    rw [Prog.run_bind_of_error h]
    exact hp

theorem approvePort_status (flow : FlowDefinition) (node port : String)
    (hRun : (w.getRun runId).isSome = true) (node' port' : String) :
    ((approvePort runId node port flow).run w).2.portStatus runId node' port' =
        w.portStatus runId node' port' ∨ (node', port') = (node, port) ∧
      ((approvePort runId node port flow).run w).2.portStatus runId node' port' = .approved := by
  refine portStatus_run_of_only (approvePort_only runId node port flow)
    (I := fun new => new = w.portStatus runId node' port' ∨
      (node', port') = (node, port) ∧ new = .approved) (fun a ha old hOld => ?_) hRun (.inl rfl)
  rcases ha with ha | rfl | ⟨key, entry, rfl⟩
  · rwa [Act.newStatus_of_not_deed ha.not_deed]
  · rw [Act.newStatus_markPortStatus]
    split
    · rename_i hPort
      exact .inr ⟨by rw [hPort.2.1, hPort.2.2.1], rfl⟩
    · exact hOld
  · rwa [Act.newStatus_of_not_deed rfl]

theorem fireAndJoinFor_cascaded {status : String → String → PortStatus}
    (hRun : (w.getRun runId).isSome = true)
    (h : ∀ node' port', w.portStatus runId node' port' = status node' port' ∨
      (node', port') = (node, port) ∧ w.portStatus runId node' port' = .approved)
    (node' port' : String) : Cascaded flow node port status node' port'
      (((fireAndJoinFor node port runId flow).run w).2.portStatus runId node' port') := by
  have hStart : Cascaded flow node port status node' port' (w.portStatus runId node' port') :=
    (h node' port').imp_right .inl
  obtain ⟨s, hs⟩ := Option.isSome_iff_exists.mp hRun
  rw [fireAndJoinFor_eq]
  split
  · exact hStart
  · rw [Prog.perform_bind, Prog.run]
    simp only [hs]
    refine activateNodes_cascaded _ (fun nodeId hNode p hp => ?_) hRun hStart
    obtain ⟨hAwaits, hOpen⟩ := List.mem_filter.mp hNode
    refine List.mem_flatMap.mpr ⟨nodeId, List.mem_append_left _ (List.mem_filter.mpr ⟨hAwaits, ?_⟩), hp⟩
    -- what the snapshot finds approved was approved before, or is the port itself
    refine List.all_eq_true.mpr fun input hInput => ?_
    have hApproved := List.all_eq_true.mp hOpen input hInput
    rw [decide_eq_true_eq, ← FlowRuntime.portStatus_of_getRun hs] at hApproved
    rcases h input.1 input.2 with hSame | ⟨hPort, _⟩
    · simp [← hSame, hApproved]
    · simp [show input = (node, port) from hPort]

theorem onDocumentApproved_cascaded (flow : FlowDefinition) (node port : String)
    (hRun : (w.getRun runId).isSome = true) (hNot : w.portStatus runId node port ≠ .approved)
    (node' port' : String) : Cascaded flow node port (w.portStatus runId) node' port'
      (((onDocumentApproved runId node port flow).run w).2.portStatus runId node' port') := by
  rw [(onDocumentApproved_of_not_approved flow hNot).1]
  have hRun1 := isSome_run (approvePort runId node port flow) hRun
  have hStatus1 := approvePort_status flow node port hRun
  refine run_bind_leaves (I := fun t => Cascaded flow node port (w.portStatus runId) node' port'
    (t.portStatus runId node' port')) ((hStatus1 node' port').imp_right .inl) fun _ => ?_
  have hRun2 := isSome_run (fireAndJoinFor node port runId flow) hRun1
  have hStatus2 : Cascaded flow node port (w.portStatus runId) node' port' _ :=
    fireAndJoinFor_cascaded hRun1 hStatus1 node' port'
  refine run_bind_leaves (I := fun t => Cascaded flow node port (w.portStatus runId) node' port'
    (t.portStatus runId node' port')) hStatus2 fun joined => ?_
  have hStatus3 := activateNodes_cascaded (cycleRetriggerTrigger node port)
    (fun nodeId (hNode : nodeId ∈ flow.graph.nodesRetriggeredBy node port) p hp =>
      List.mem_flatMap.mpr ⟨nodeId, List.mem_append_right _ hNode, hp⟩)
    hRun2 hStatus2
  refine run_bind_leaves (I := fun t => Cascaded flow node port (w.portStatus runId) node' port'
    (t.portStatus runId node' port')) hStatus3 fun retriggered => ?_
  refine run_bind_leaves (I := fun t => Cascaded flow node port (w.portStatus runId) node' port'
    (t.portStatus runId node' port')) ?_ fun reinvoked => ?_
  all_goals
    refine (congrArg (Cascaded _ _ _ _ _ _) (portStatus_reinvokeProducer flow node port
      (isSome_run (retriggerCycles runId node port flow) hRun2) node' port')).mpr hStatus3

theorem PortStep.cascades {c : Call} {w' : FlowRuntime} {node' port' : String}
    (hRun : (w'.getRun runId).isSome = true)
    (hCalm : Undisturbing flow node' port' (w'.portStatus runId)) (hBrief : (node, port) ≠ briefPort)
    (hApproves : (node, port) = (node', port') →
      PortStep flow runId node port w c (w'.portStatus runId node port) .approved) :
    PortStep flow runId node port w c (w'.portStatus runId node port)
      (((onDocumentApproved runId node' port' flow).run w').2.portStatus runId node port) := by
  by_cases hOld : w'.portStatus runId node' port' = .approved
  · rw [(onDocumentApproved_of_approved flow hOld).1]
    exact .same _
  rcases onDocumentApproved_cascaded flow node' port' hRun hOld node port with
    h | ⟨hPort, h⟩ | ⟨hAsked, h⟩
  · rw [h]
    exact .same _
  · rw [h]
    exact hApproves hPort
  · obtain ⟨_, hWaits⟩ := ((hCalm.resolve_left hOld) _ hAsked).resolve_left hBrief
    rw [h]
    rcases PortStatus.waits_iff.mp hWaits with hPending | hAwaiting
    · obtain ⟨_, _, hMem⟩ := List.mem_flatMap.mp hAsked
      simp only at hPending
      rw [hPending]
      exact .asked (.of_mem hMem)
    · simp only at hAwaiting
      rw [hAwaiting]
      exact .same _

theorem PortStep.requeues {α : Type} {p : Op α} {c : Call} {w' : FlowRuntime}
    {node' port' : String} (hp : p.Only (Requeues runId node' port'))
    (hRun : (w'.getRun runId).isSome = true)
    (hBack : (node, port) = (node', port') → c.rejects node port = true ∨
      w'.portStatus runId node port = .pending) :
    PortStep flow runId node port w c (w'.portStatus runId node port)
      ((p.run w').2.portStatus runId node port) := by
  refine portStatus_run_of_only hp (I := PortStep flow runId node port w c
    (w'.portStatus runId node port)) (fun a ha old hOld => ?_) hRun (.same _)
  rcases ha.newStatus node port old with h | ⟨hPort, h⟩
  · rwa [h]
  · rw [h]
    rcases hBack (by rw [hPort.1, hPort.2]) with hBack | hPending
    · exact .sentBack hBack
    · rw [hPending]
      exact .same _

theorem Approvable.step {c : Call} (h : Approvable flow runId node port w)
    (hApproves : c.approves flow runId node port w = true) :
    PortStep flow runId node port w c (w.portStatus runId node port) .approved := by
  rcases h.2 with h | h
  · rw [h]
    exact .approves hApproves
  · rw [h]
    exact .same _

theorem PortStep.verdict {node' port' reviewer : String} {vote : ReviewVerdict}
    {comments : List ReviewComment} (hRun : w.getRun runId = some s)
    (hBrief : (node, port) ≠ briefPort)
    (hProper : Proper flow runId w (.verdict node' port' reviewer vote comments)) :
    PortStep flow runId node port w (.verdict node' port' reviewer vote comments)
      (w.portStatus runId node port)
      (((Call.verdict node' port' reviewer vote comments).step flow runId w).portStatus runId node
        port) := by
  rw [step_verdict]
  rcases onReviewerVerdict_leads reviewer vote comments flow node' port' hRun with
    ⟨_, e, w', hRun', hLeads⟩ | ⟨w', hRun', hLeads⟩
  · rw [hLeads.run, FlowRuntime.portStatus_of_getRun hRun,
      ← FlowRuntime.portStatus_of_getRun hRun']
    exact .same _
  have hSame : w.portStatus runId = w'.portStatus runId := by
    funext n p
    exact (portStatus_of_recordVerdict hRun hRun' n p).symm
  have hSome : (w'.getRun runId).isSome = true := by rw [hRun']; rfl
  simp only [Proper] at hProper
  rw [hLeads.run, hSame]
  rw [FlowRuntime.verdicts_of_getRun hRun] at hProper
  by_cases hVeto : Ballot.Vetoed .reject
    (Ballot.record (s.verdicts (verdictKey runId node' port')) reviewer vote)
  · rw [settleVerdict_of_vetoed hVeto, Prog.run_map_snd]
    rw [if_pos hVeto] at hProper
    refine .requeues (onRejectedRequeue_only runId node' port' flow) hSome fun hPort => ?_
    obtain ⟨rfl, rfl⟩ := Prod.mk.inj hPort
    exact (hProper.resolve_left hBrief).imp (by simp [Call.rejects, ·]) (by simpa [hSame] using ·)
  · rw [if_neg hVeto] at hProper
    rw [settleVerdict, if_neg hVeto]
    split
    · rename_i hQuorum
      split
      · exact .same _
      · rename_i hAgents
        have hApproves : (Call.verdict node' port' reviewer vote comments).approves flow runId node'
            port' w = true := by
          simp [Call.approves, FlowRuntime.verdicts_of_getRun hRun, hVeto, hQuorum, hAgents]
        obtain ⟨hFound, hCalm⟩ := hProper hApproves
        rw [Prog.run_map_snd]
        refine .cascades hSome (hSame ▸ hCalm) hBrief fun hPort => ?_
        obtain ⟨rfl, rfl⟩ := Prod.mk.inj hPort
        exact hSame ▸ (hFound.resolve_left hBrief).step hApproves
    · exact .same _

theorem PortStep.submitted {node' port' sha : String} {revision : UInt32}
    (hRun : w.getRun runId = some s) (hBrief : (node, port) ≠ briefPort)
    (hSeeded : w.portStatus runId node port ≠ .seeded)
    (hReviewed : w.portStatus runId node port = .inReview → listedReviewers flow node port ≠ [])
    (hProper : Proper flow runId w (.submitted node' port' sha revision)) :
    PortStep flow runId node port w (.submitted node' port' sha revision)
      (w.portStatus runId node port)
      (((Call.submitted node' port' sha revision).step flow runId w).portStatus runId node port) := by
  obtain ⟨w', hRun', hCases⟩ := onDocumentSubmitted_leads flow node' port' sha revision hRun
  have hSame : w.portStatus runId = w'.portStatus runId := by
    funext n p
    exact (portStatus_of_counted hRun hRun' n p).symm
  have hSome : (w'.getRun runId).isSome = true := by rw [hRun']; rfl
  unfold Call.step Call.op
  simp only
  rcases hCases with ⟨e, _, hLeads⟩ | ⟨hWithin, hLeads⟩
  · rw [hLeads.run, hSame]
    exact .same _
  have hLimit : overLimit flow runId node' port' w = false := by simp [overLimit, hRun, hWithin]
  have hDelivers (hPort : (node, port) = (node', port')) :
      (Call.submitted node' port' sha revision).delivers flow runId node port w = true := by
    obtain ⟨rfl, rfl⟩ := Prod.mk.inj hPort
    simp [Call.delivers, Call.submits, hLimit]
  rw [hSame] at hSeeded hReviewed
  rw [hLeads.run, hSame, receiveDocument_eq]
  by_cases hReviewers : listedReviewers flow node' port' = []
  · rw [if_pos hReviewers]
    refine .cascades hSome (hSame ▸ hProper.2 hReviewers hLimit) hBrief fun hPort => ?_
    have hDelivers := hDelivers hPort
    obtain ⟨rfl, rfl⟩ := Prod.mk.inj hPort
    cases hOld : w'.portStatus runId node port with
    | pending => exact .autoApproves rfl hDelivers hReviewers
    | awaitingOwner => exact .autoApproves rfl hDelivers hReviewers
    | inReview => exact absurd hReviewers (hReviewed hOld)
    | approved => exact .same _
    | seeded => exact absurd hOld hSeeded
  · rw [if_neg hReviewers]
    rcases status_requestReviews node' port' (listedReviewers flow node' port') hSome node port with
      h | ⟨hPort, hNot, h⟩
    · rw [h]
      exact .same _
    · have hDelivers := hDelivers hPort
      obtain ⟨rfl, rfl⟩ := Prod.mk.inj hPort
      rw [h]
      cases hOld : w'.portStatus runId node port with
      | pending => exact .receives rfl hDelivers hReviewers
      | awaitingOwner => exact .receives rfl hDelivers hReviewers
      | inReview => exact .same _
      | approved => exact absurd hOld hNot
      | seeded => exact absurd hOld hSeeded

theorem PortStep.call {c : Call} (hDocument : c.document.isSome = true)
    (hRun : w.getRun runId = some s) (hProper : Proper flow runId w c)
    (hBrief : (node, port) ≠ briefPort) (hSeeded : w.portStatus runId node port ≠ .seeded)
    (hReviewed : w.portStatus runId node port = .inReview → listedReviewers flow node port ≠ []) :
    PortStep flow runId node port w c (w.portStatus runId node port)
      ((c.step flow runId w).portStatus runId node port) := by
  have hSome : (w.getRun runId).isSome = true := by rw [hRun]; rfl
  cases c with
  | submitted node' port' => exact .submitted hRun hBrief hSeeded hReviewed hProper
  | approved node' port' =>
    refine .cascades hSome hProper.2 hBrief fun hPort => ?_
    obtain ⟨rfl, rfl⟩ := Prod.mk.inj hPort
    exact (hProper.1.resolve_left hBrief).step (by simp [Call.approves])
  | verdict node' port' => exact .verdict hRun hBrief hProper
  | rejected node' port' =>
    have hOnly := (Call.rejected node' port').op_only flow runId
    refine .requeues hOnly hSome fun hPort => ?_
    obtain ⟨rfl, rfl⟩ := Prod.mk.inj hPort
    exact .inl (by simp [Call.rejects])
  | _ => cases hDocument

def submissionStep (flow : FlowDefinition) (runId : String)
    (t : FlowRuntime × (String → String → Bool)) (c : Call) :
    FlowRuntime × (String → String → Bool) :=
  (c.step flow runId t.1, fun node port =>
    (c.step flow runId t.1).portStatus runId node port ≠ .pending &&
      (t.2 node port || c.delivers flow runId node port t.1))

/-- The port has been submitted since it was last pending. -/
def submittedSincePending (flow : FlowDefinition) (runId : String) (w : FlowRuntime)
    (calls : List Call) (node port : String) : Bool :=
  (History.play (submissionStep flow runId) (w, fun _ _ => false) calls).2 node port

theorem play_submissionStep (flow : FlowDefinition) (runId : String)
    (t : FlowRuntime × (String → String → Bool)) (calls : List Call) :
    (History.play (submissionStep flow runId) t calls).1 =
      History.play (Call.step flow runId) t.1 calls := by
  induction calls generalizing t with
  | nil => rfl
  | cons c calls ih => exact ih _

/-- Every port in review or approved belongs to a declared output, and was submitted since it was
last pending; and somebody is to review what is in review. -/
structure Submitted (flow : FlowDefinition) (runId : String)
    (t : FlowRuntime × (String → String → Bool)) : Prop where
  unseeded : ∀ node port, (node, port) ≠ briefPort → t.1.portStatus runId node port ≠ .seeded
  received : ∀ node port, (node, port) ≠ briefPort →
    t.1.portStatus runId node port = .inReview ∨ t.1.portStatus runId node port = .approved →
      (flow.output node port).isSome = true ∧ t.2 node port = true
  reviewed : ∀ node port, (node, port) ≠ briefPort → t.1.portStatus runId node port = .inReview →
    listedReviewers flow node port ≠ []

variable {t : FlowRuntime × (String → String → Bool)}

theorem Proper.declared {c : Call} (h : Proper flow runId w c) (hBrief : (node, port) ≠ briefPort)
    (hDelivers : c.delivers flow runId node port w = true) :
    (flow.output node port).isSome = true := by
  have hSubmits := (Bool.and_eq_true_iff.mp hDelivers).1
  cases c with
  | submitted node' port' =>
    obtain ⟨rfl, rfl⟩ : node' = node ∧ port' = port := by simpa [Call.submits] using hSubmits
    exact h.1.resolve_left hBrief
  | _ => cases hSubmits

theorem PortStep.unseeded {c : Call} {old new : PortStatus}
    (h : PortStep flow runId node port w c old new) (hOld : old ≠ .seeded) : new ≠ .seeded := by
  cases h with
  | same => exact hOld
  | _ => simp

theorem PortStep.received {c : Call} {old new : PortStatus} {submitted : Bool}
    (h : PortStep flow runId node port w c old new) (hProper : Proper flow runId w c)
    (hBrief : (node, port) ≠ briefPort)
    (hOld : old = .inReview ∨ old = .approved →
      (flow.output node port).isSome = true ∧ submitted = true)
    (hNew : new = .inReview ∨ new = .approved) :
    (flow.output node port).isSome = true ∧
      (new ≠ .pending && (submitted || c.delivers flow runId node port w)) = true := by
  cases h with
  | same =>
    obtain ⟨hDeclared, rfl⟩ := hOld hNew
    refine ⟨hDeclared, ?_⟩
    rcases hNew with rfl | rfl <;> rfl
  | asked => simp at hNew
  | receives _ hDelivers => exact ⟨hProper.declared hBrief hDelivers, by simp [hDelivers]⟩
  | autoApproves _ hDelivers => exact ⟨hProper.declared hBrief hDelivers, by simp [hDelivers]⟩
  | approves =>
    obtain ⟨hDeclared, rfl⟩ := hOld (.inl rfl)
    exact ⟨hDeclared, rfl⟩
  | sentBack => simp at hNew

theorem PortStep.reviewed {c : Call} {old new : PortStatus}
    (h : PortStep flow runId node port w c old new)
    (hOld : old = .inReview → listedReviewers flow node port ≠ []) (hNew : new = .inReview) :
    listedReviewers flow node port ≠ [] := by
  cases h with
  | same => exact hOld hNew
  | receives _ _ hReviewers => exact hReviewers
  | _ => cases hNew

theorem Submitted.step (h : Submitted flow runId t) {c : Call} (hProper : Proper flow runId t.1 c)
    (hStep : PortSteps flow runId t.1 c) :
    Submitted flow runId (submissionStep flow runId t c) where
  unseeded node port hBrief := (hStep node port hBrief).unseeded (h.unseeded node port hBrief)
  received node port hBrief := (hStep node port hBrief).received hProper hBrief
    (h.received node port hBrief)
  reviewed node port hBrief := (hStep node port hBrief).reviewed (h.reviewed node port hBrief)

theorem portStatus_call_none (flow : FlowDefinition) (c : Call) (hRun : w.getRun runId = none) :
    (c.step flow runId w).getRun runId = none :=
  (c.op_only flow runId).run_preserves (I := fun t : FlowRuntime => t.getRun runId = none)
    (fun _ ha _ ht => Act.getRun_apply_none ha.not_register ht) hRun

theorem Submitted.portSteps (h : Submitted flow runId t) {c : Call}
    (hDocument : c.document.isSome = true) (hProper : Proper flow runId t.1 c) :
    PortSteps flow runId t.1 c := by
  intro node port hBrief
  cases hRun : t.1.getRun runId with
  | none =>
    rw [FlowRuntime.portStatus, FlowRuntime.portStatus, portStatus_call_none flow c hRun, hRun]
    exact .same _
  | some s =>
    exact .call hDocument hRun hProper hBrief (h.unseeded node port hBrief)
      (h.reviewed node port hBrief)

theorem startRun_status (runId : String) (flow : FlowDefinition) (initialInput : String)
    (hFresh : w.getRun runId = none) (hBrief : (node, port) ≠ briefPort) :
    ((startRun runId flow initialInput).run w).2.portStatus runId node port = .pending ∨
      ((startRun runId flow initialInput).run w).2.portStatus runId node port = .awaitingOwner := by
  rcases startRun_cases runId flow initialInput w with ⟨_, hSame⟩ | ⟨now, w', _, hRun', hSame⟩
  · rw [FlowRuntime.portStatus, hSame, hFresh]
    exact .inl rfl
  · rw [hSame]
    refine portStatus_run_of_only (fireAndJoinFor_only "__chat__" "initial-brief" runId flow)
      (I := fun status => status = .pending ∨ status = .awaitingOwner) (fun a ha old hOld => ?_)
      (by rw [hRun']; rfl) ?_
    · rcases ha with h | ⟨_, _, h⟩
      · rwa [Act.newStatus_of_not_deed h.not_deed]
      · rcases h.newStatus node port old with h | ⟨_, rfl⟩
        · rwa [h]
        · exact .inr (by simp)
    · have hOther : ¬(node = "__chat__" ∧ port = "initial-brief") :=
        fun h => hBrief (by rw [h.1, h.2]; rfl)
      rw [FlowRuntime.portStatus_of_getRun hRun', startState, FlowRunState.portStatus_setPort,
        if_neg hOther]
      exact .inl rfl

theorem Submitted.start (hStart : ∀ node port, (node, port) ≠ briefPort →
    w.portStatus runId node port = .pending ∨ w.portStatus runId node port = .awaitingOwner) :
    Submitted flow runId (w, fun _ _ => false) := by
  refine ⟨fun node port hBrief => ?_, fun node port hBrief hReceived => ?_,
    fun node port hBrief hReviewed => ?_⟩
  · rcases hStart node port hBrief with h | h <;> simp [h]
  · simp only at hReceived
    rcases hStart node port hBrief with h | h <;> simp [h] at hReceived
  · simp only at hReviewed
    rcases hStart node port hBrief with h | h <;> simp [h] at hReviewed

theorem Submitted.play (h : Submitted flow runId t) {calls : List Call}
    (hDocuments : ∀ c ∈ calls, c.document.isSome = true)
    (hProper : History.Each (Call.step flow runId) (Proper flow runId) t.1 calls) :
    History.Each (Call.step flow runId) (PortSteps flow runId) t.1 calls ∧
      Submitted flow runId (History.play (submissionStep flow runId) t calls) := by
  induction calls generalizing t with
  | nil => exact ⟨trivial, h⟩
  | cons c calls ih =>
    have hStep := h.portSteps (hDocuments c List.mem_cons_self) hProper.1
    obtain ⟨hSteps, hLast⟩ := ih (h.step hProper.1 hStep)
      (fun c' hc' => hDocuments c' (List.mem_cons_of_mem _ hc')) hProper.2
    exact ⟨⟨hStep, hSteps⟩, hLast⟩

/-- On a run that starts and then receives proper calls, every call makes at most one move of each
port but the brief, and every approved port belongs to a declared output and was submitted since it was
last pending. -/
theorem approved_submitted (flow : FlowDefinition) (runId initialInput : String) (w : FlowRuntime)
    (calls : List Call) (hFresh : w.getRun runId = none)
    (hDocuments : ∀ c ∈ calls, c.document.isSome = true)
    (hProper : History.Each (Call.step flow runId) (Proper flow runId)
      (afterCalls flow runId initialInput w []) calls) :
    History.Each (Call.step flow runId) (PortSteps flow runId)
        (afterCalls flow runId initialInput w []) calls ∧
      ∀ node port, (node, port) ≠ briefPort →
        (afterCalls flow runId initialInput w calls).portStatus runId node port = .approved →
          (flow.output node port).isSome = true ∧ submittedSincePending flow runId
            (afterCalls flow runId initialInput w []) calls node port = true := by
  have hStart : Submitted flow runId (afterCalls flow runId initialInput w [], fun _ _ => false) :=
    .start fun node port => startRun_status runId flow initialInput hFresh
  obtain ⟨hSteps, hLast⟩ := hStart.play hDocuments hProper
  refine ⟨hSteps, fun node port hBrief hApproved => hLast.received node port hBrief (.inr ?_)⟩
  rw [play_submissionStep]
  exact hApproved

def reviewedDraft : List Call :=
  [.submitted "writer" "draft" "" 1, verdictOn "draft" "critic" .approve,
    verdictOn "draft" "editor" .approve]

/-- A submission that both reviewers approve. -/
theorem reviewedDraft_submitted : submittedSincePending reviewFlow "run"
    (afterCalls reviewFlow "run" "brief" emptyRuntime []) reviewedDraft "writer" "draft" = true :=
  ((approved_submitted reviewFlow "run" "brief" emptyRuntime reviewedDraft (by decide) (by decide)
    (by decide)).2 "writer" "draft" (by decide)
    (by decide)).2

/-- Right after the start of a run, a port that no node declares can be approved. -/
theorem undeclared_approved :
    ¬∀ node port, (node, port) ≠ briefPort →
      (afterCalls reviewFlow "run" "brief" emptyRuntime [.approved "nobody" "nothing"]).portStatus
          "run" node port = .approved →
        (reviewFlow.output node port).isSome = true ∧ submittedSincePending reviewFlow "run"
          (afterCalls reviewFlow "run" "brief" emptyRuntime []) [.approved "nobody" "nothing"] node
            port = true := by
  intro h
  exact absurd (h "nobody" "nothing" (by decide) (by decide)).1 (by decide)

end Cronymax.Flow
