import Cronymax.Flow.AndJoin
import Cronymax.Flow.Calls

/-! Which ports a node is told to produce, and when the producer of an approved document is invoked
again.  The two filters differ: a node is told of every port that is neither approved nor seeded,
and its producer is invoked again for every port that is not approved.  Neither looks at whether a
port is in review. -/

namespace Cronymax.Flow

open Atomic FlowRuntime

variable {flow : FlowDefinition} {runId node port : String} {w : FlowRuntime} {s : FlowRunState}

/-- The ports of the outputs of a node. -/
def declaredPorts (flow : FlowDefinition) (node : String) : List String :=
  ((flow.node node).map fun n => n.outputs.map (·.port)).getD []

theorem pendingPortsFor_eq (approved : List String) :
    flow.pendingPortsFor node approved = (declaredPorts flow node).filter (· ∉ approved) := by
  unfold FlowDefinition.pendingPortsFor declaredPorts
  cases flow.node node <;> rfl

theorem FlowRunState.mem_portsWhere {test : PortStatus → Bool} (hPending : test .pending = false) :
    port ∈ s.portsWhere node test ↔ test (s.portStatus node port) = true := by
  unfold FlowRunState.portsWhere FlowRunState.portStatus
  rw [mem_keysWhere]
  cases hLookup : (s.nodeState node).ports.lookup port with
  | none => simp [hPending]
  | some status => simp

theorem pendingPortsFor_portsWhere {test : PortStatus → Bool} (hPending : test .pending = false)
    (hRun : w.getRun runId = some s) :
    flow.pendingPortsFor node (s.portsWhere node test) =
      (declaredPorts flow node).filter fun p => !test (w.portStatus runId node p) := by
  rw [pendingPortsFor_eq]
  refine List.filter_congr fun p _ => ?_
  rw [FlowRuntime.portStatus_of_getRun hRun, ← Bool.not_eq_eq_eq_not]
  simp only [s.mem_portsWhere hPending, decide_not, Bool.not_not, Bool.decide_eq_true]

/-- A node that is invoked is told exactly its pending ports. -/
def ToldPending (flow : FlowDefinition) (runId node : String) (w : FlowRuntime) : Prop :=
  ∀ trigger ctx, ((buildInvocationContext runId node trigger flow).run w).1 = .ok (some ctx) →
    ctx.pendingPorts =
      (declaredPorts flow node).filter fun p => w.portStatus runId node p = .pending

theorem feedbackFor_ok (flowId runId : String) (trigger : InvocationTrigger) (w : FlowRuntime) :
    ∃ comments, ((feedbackFor flowId runId trigger).run w).1 = .ok comments := by
  unfold feedbackFor
  split
  · rename_i port' _ _
    refine ⟨some (((readReviews flowId runId).run w).1.toOption.getD ∅ |>.commentsAt port'), ?_⟩
    simp only [readReviewComments, readReviews, Prog.perform_bind, Prog.act_bind, Prog.run]
    split <;> rfl
  · exact ⟨none, rfl⟩

theorem buildInvocationContext_run (trigger : InvocationTrigger) {n : FlowNode}
    (hRun : w.getRun runId = some s) (hNode : flow.node node = some n) :
    ∃ ctx, ((buildInvocationContext runId node trigger flow).run w).1 = .ok (some ctx) ∧
      ctx.trigger = trigger ∧ ctx.pendingPorts = (declaredPorts flow node).filter fun p =>
        !(w.portStatus runId node p = .approved || w.portStatus runId node p = .seeded) := by
  obtain ⟨comments, hComments⟩ := feedbackFor_ok s.flowId runId trigger
    (Acts.apply (Act.getRun runId) w)
  simp only [buildInvocationContext, Prog.perform_bind, Prog.run, hRun, hNode]
  exact ⟨_, congrArg Prod.fst (Prog.run_bind_of_ok hComments _), rfl,
    pendingPortsFor_portsWhere rfl hRun⟩

theorem buildInvocationContext_some {trigger : InvocationTrigger} {ctx : InvocationContext}
    (h : ((buildInvocationContext runId node trigger flow).run w).1 = .ok (some ctx)) :
    ∃ s n, w.getRun runId = some s ∧ flow.node node = some n := by
  cases hRun : w.getRun runId with
  | none => simp [buildInvocationContext, Prog.run, hRun] at h
  | some s =>
    cases hNode : flow.node node with
    | none => simp [buildInvocationContext, Prog.run, hNode] at h
    | some n => exact ⟨s, n, rfl, rfl⟩

theorem toldPending_iff : ToldPending flow runId node w ↔ ∀ p ∈ declaredPorts flow node,
    w.portStatus runId node p ≠ .inReview ∧ w.portStatus runId node p ≠ .awaitingOwner := by
  constructor
  · intro hTold p hp
    cases hRun : w.getRun runId with
    | none => simp [FlowRuntime.portStatus, hRun]
    | some s =>
      cases hNode : flow.node node with
      | none => simp [declaredPorts, hNode] at hp
      | some n =>
        obtain ⟨ctx, hOk, _, hPorts⟩ := buildInvocationContext_run ⟨.initial, none, none, none⟩
          hRun hNode
        have hSame := congrArg (p ∈ ·) ((hTold _ _ hOk).symm.trans hPorts)
        simp only [List.mem_filter, hp, true_and, eq_iff_iff] at hSame
        cases hStatus : w.portStatus runId node p <;> simp [hStatus] at hSame ⊢
  · intro hQuiet trigger ctx h
    obtain ⟨s, n, hRun, hNode⟩ := buildInvocationContext_some h
    obtain ⟨ctx', hOk, _, hPorts⟩ := buildInvocationContext_run trigger hRun hNode
    obtain rfl : ctx' = ctx := by simpa [hOk] using h
    rw [hPorts]
    refine List.filter_congr fun p hp => ?_
    have hp := hQuiet p hp
    cases hStatus : w.portStatus runId node p <;> simp [hStatus] at hp ⊢

/-- An agent owns the node. -/
def AgentOwned (flow : FlowDefinition) (node : String) : Prop :=
  ∃ n, flow.node node = some n ∧ n.owner ≠ "human"

theorem AgentOwned.not_humanOwned (h : AgentOwned flow node) (port : String) :
    ¬HumanOwned flow node port := by
  obtain ⟨n, hNode, hAgent⟩ := h
  rintro ⟨n', hNode', hHuman, _⟩
  obtain rfl : n' = n := by simpa [hNode] using hNode'.symm
  exact hAgent hHuman

theorem portStatus_of_activates {α : Type} {p : Op α}
    (hp : p.Only fun a => a.Quiet ∨ ∃ nodeId trigger, Activates runId flow nodeId trigger a)
    (hAgent : AgentOwned flow node) (hRun : (w.getRun runId).isSome = true) (port : String) :
    (p.run w).2.portStatus runId node port = w.portStatus runId node port := by
  refine portStatus_run_of_only hp (I := (· = w.portStatus runId node port))
    (fun a ha old hOld => ?_) hRun rfl
  rcases ha with ha | ⟨nodeId, trigger, ha⟩
  · rw [Act.newStatus_of_not_deed ha.not_deed, hOld]
  · rcases ha.newStatus node port old with h | ⟨hHuman, _⟩
    · rw [h, hOld]
    · exact absurd hHuman (hAgent.not_humanOwned port)

theorem portStatus_approvePort (hRun : (w.getRun runId).isSome = true) (port' : String) :
    ((approvePort runId node port flow).run w).2.portStatus runId node port' =
      if port' = port then .approved else w.portStatus runId node port' := by
  have hOnly := approvePort_only runId node port flow
  by_cases hPort : port' = port
  · subst port'
    rw [if_pos rfl]
    obtain ⟨next, hNext⟩ : ∃ next, approvePort runId node port flow =
        .act (.markPortStatus runId node port .approved) next := ⟨_, rfl⟩
    rw [hNext] at hOnly ⊢
    refine portStatus_run_of_only (hOnly.2 w) (I := (· = .approved)) (fun a ha old hOld => ?_)
      (Act.isSome_apply _ hRun) ?_
    · rcases ha with ha | rfl | ⟨key, entry, rfl⟩
      · rw [Act.newStatus_of_not_deed ha.not_deed, hOld]
      · simp [hOld]
      · rw [Act.newStatus_of_not_deed rfl, hOld]
    · refine (Act.portStatus_apply _ hRun node port).trans ?_
      by_cases h : w.portStatus runId node port = .approved <;> simp [h]
  · rw [if_neg hPort]
    refine portStatus_run_of_only hOnly (I := (· = w.portStatus runId node port'))
      (fun a ha old hOld => ?_) hRun rfl
    rcases ha with ha | rfl | ⟨key, entry, rfl⟩
    · rw [Act.newStatus_of_not_deed ha.not_deed, hOld]
    · simp [hPort, hOld]
    · rw [Act.newStatus_of_not_deed rfl, hOld]

theorem scheduleNodeWithContext_ok {trigger : InvocationTrigger} {n : FlowNode}
    {ctx : Option InvocationContext} (hRun : w.getRun runId = some s)
    (hNode : flow.node node = some n)
    (hOk : ((scheduleNodeWithContext runId node trigger flow).run w).1 = .ok ctx) :
    ∃ told, ctx = some told ∧ told.trigger = trigger := by
  obtain ⟨told, hBuild, hTrigger, _⟩ := buildInvocationContext_run trigger hRun hNode
  obtain ⟨built, hBuilt, hRest⟩ := Prog.run_bind_ok hOk
  obtain rfl : some told = built := by simpa [hBuild] using hBuilt
  rw [scheduleNodeWithContext, hRest] at hOk
  obtain ⟨_, _, hDone⟩ := Prog.run_bind_ok hOk
  rw [hDone] at hOk
  exact ⟨told, by simpa [Prog.run, eq_comm] using hOk, hTrigger⟩

theorem reinvokeProducer_ok {ctxs : List InvocationContext}
    (hRun : (w.getRun runId).isSome = true)
    (hOk : ((reinvokeProducer runId node port flow).run w).1 = .ok ctxs) :
    (∃ ctx ∈ ctxs, ctx.trigger.kind = .implicitReinvoke) ↔
      AgentOwned flow node ∧ ∃ p ∈ declaredPorts flow node, w.portStatus runId node p ≠ .approved := by
  obtain ⟨s, hs⟩ := Option.isSome_iff_exists.mp hRun
  unfold reinvokeProducer at hOk
  cases hNode : flow.node node with
  | none =>
    obtain rfl : ctxs = [] := by simpa [hNode, Prog.run, eq_comm] using hOk
    simp [AgentOwned, hNode]
  | some n =>
    by_cases hHuman : n.owner = "human"
    · obtain rfl : ctxs = [] := by simpa [hNode, hHuman, Prog.run, eq_comm] using hOk
      simp [AgentOwned, hNode, hHuman]
    · have hAgent : AgentOwned flow node := ⟨n, hNode, hHuman⟩
      simp only [hNode, hHuman, if_false, Prog.perform_bind, Prog.run, hs] at hOk
      rw [pendingPortsFor_portsWhere rfl hs] at hOk
      by_cases hNone : ((declaredPorts flow node).filter fun p =>
          !decide (w.portStatus runId node p = .approved)) = []
      · simp only [hNone, List.isEmpty_nil, if_true, Prog.pure_eq, Prog.run, Except.ok.injEq] at hOk
        subst hOk
        simpa [hAgent] using hNone
      · rw [if_neg (by simpa using hNone)] at hOk
        obtain ⟨ctx, hSchedule, hRest⟩ := Prog.run_bind_ok hOk
        obtain ⟨told, rfl, hTrigger⟩ := scheduleNodeWithContext_ok
          (w := Acts.apply (Act.getRun runId) w) hs hNode hSchedule
        rw [hRest] at hOk
        obtain rfl : ctxs = [told] := by simpa [Prog.run, eq_comm] using hOk
        obtain ⟨p, hp⟩ := List.exists_mem_of_ne_nil _ hNone
        rw [List.mem_filter] at hp
        refine iff_of_true ⟨told, by simp, by rw [hTrigger]; rfl⟩ ⟨hAgent, p, hp.1, ?_⟩
        simpa using hp.2

theorem isSome_of_approvePort (hOk : ((approvePort runId node port flow).run w).1 = .ok ()) :
    (w.getRun runId).isSome = true := by
  cases hRun : w.getRun runId with
  | some s => rfl
  | none => simp [approvePort, markPortStatus, Prog.run, hRun] at hOk

theorem retriggerCycles_trigger {ctxs : List InvocationContext}
    (hOk : ((retriggerCycles runId node port flow).run w).1 = .ok ctxs) :
    ∀ ctx ∈ ctxs, ctx.trigger = cycleRetriggerTrigger node port := by
  have hRecorded := activateNodes_ensures runId flow (cycleRetriggerTrigger node port)
    (flow.graph.nodesRetriggeredBy node port) _ _ (hOk ▸ Prog.trace_yields _ w)
  exact fun ctx hctx => (hRecorded ctx hctx).2.1

theorem onDocumentApproved_ok {ctxs : List InvocationContext}
    (hOk : ((onDocumentApproved runId node port flow).run w).1 = .ok ctxs)
    (hNot : w.portStatus runId node port ≠ .approved) :
    ((∃ ctx ∈ ctxs, ctx.trigger.kind = .implicitReinvoke) ↔ AgentOwned flow node ∧
      ∃ p ∈ declaredPorts flow node, p ≠ port ∧ w.portStatus runId node p ≠ .approved) ∧
    (AgentOwned flow node → ∀ p,
      ((onDocumentApproved runId node port flow).run w).2.portStatus runId node p =
        if p = port then .approved else w.portStatus runId node p) := by
  rw [(onDocumentApproved_of_not_approved flow hNot).1] at hOk ⊢
  obtain ⟨_, hApprove, h1⟩ := Prog.run_bind_ok hOk
  have hRun := isSome_of_approvePort hApprove
  have hStatus1 (p : String) : ((approvePort runId node port flow).run w).2.portStatus runId node p =
      if p = port then .approved else w.portStatus runId node p := portStatus_approvePort hRun p
  have hRun1 := isSome_run (approvePort runId node port flow) hRun
  rw [cascadeApproval, h1] at hOk ⊢
  generalize ((approvePort runId node port flow).run w).2 = w1 at *
  obtain ⟨joined, hJoin, h2⟩ := Prog.run_bind_ok hOk
  have hRun2 := isSome_run (fireAndJoinFor node port runId flow) hRun1
  have hStatus2 : AgentOwned flow node → ∀ p, ((fireAndJoinFor node port runId flow).run w1).2.portStatus
      runId node p = w1.portStatus runId node p := fun hAgent => portStatus_of_activates
    ((fireAndJoinFor_only node port runId flow).mono fun a ha =>
      ha.imp id fun ⟨nodeId, _, ha⟩ => ⟨nodeId, _, ha⟩) hAgent hRun1
  have hJoined : ∀ ctx ∈ joined, ctx.trigger = andJoinTrigger node port := fun ctx hctx =>
    (fireAndJoinFor_recorded hJoin ctx hctx).2.1
  rw [h2] at hOk ⊢
  generalize ((fireAndJoinFor node port runId flow).run w1).2 = w2 at *
  obtain ⟨retriggered, hRetrigger, h3⟩ := Prog.run_bind_ok hOk
  have hRun3 := isSome_run (retriggerCycles runId node port flow) hRun2
  have hStatus3 : AgentOwned flow node → ∀ p, ((retriggerCycles runId node port flow).run w2).2.portStatus
      runId node p = w2.portStatus runId node p := fun hAgent => portStatus_of_activates
    ((activateNodes_only runId flow _ _).mono fun a ha =>
      ha.imp id fun ⟨nodeId, _, ha⟩ => ⟨nodeId, _, ha⟩) hAgent hRun2
  have hRetriggered := retriggerCycles_trigger hRetrigger
  rw [followApproval, h3] at hOk ⊢
  generalize ((retriggerCycles runId node port flow).run w2).2 = w3 at *
  obtain ⟨reinvoked, hReinvoke, h4⟩ := Prog.run_bind_ok hOk
  have hStatus4 : AgentOwned flow node → ∀ p, ((reinvokeProducer runId node port flow).run w3).2.portStatus
      runId node p = w3.portStatus runId node p := fun hAgent => portStatus_of_activates
    ((reinvokeProducer_only runId node port flow).mono fun a ha =>
      ha.imp id fun ha => ⟨node, _, ha⟩) hAgent hRun3
  have hReinvoked := reinvokeProducer_ok hRun3 hReinvoke
  rw [h4] at hOk ⊢
  obtain rfl : ctxs = joined ++ retriggered ++ reinvoked := by
    simpa [Prog.run, eq_comm] using hOk
  have hStatus : AgentOwned flow node → ∀ p, w3.portStatus runId node p =
      if p = port then .approved else w.portStatus runId node p := fun hAgent p => by
    rw [hStatus3 hAgent, hStatus2 hAgent, hStatus1]
  constructor
  · -- the other contexts have other triggers
    have hOnly : (∃ ctx ∈ joined ++ retriggered ++ reinvoked, ctx.trigger.kind = .implicitReinvoke) ↔
        ∃ ctx ∈ reinvoked, ctx.trigger.kind = .implicitReinvoke := by
      refine exists_congr fun ctx => and_congr_left fun hKind => ?_
      simp only [List.mem_append]
      refine or_iff_right fun hctx => ?_
      rcases hctx with hctx | hctx
      · rw [hJoined ctx hctx] at hKind
        cases hKind
      · rw [hRetriggered ctx hctx] at hKind
        cases hKind
    rw [hOnly, hReinvoked]
    refine and_congr_right fun hAgent => exists_congr fun p => and_congr_right fun _ => ?_
    rw [hStatus hAgent]
    by_cases hPort : p = port <;> simp [hPort]
  · intro hAgent p
    exact (hStatus4 hAgent p).trans (hStatus hAgent p)

/-- The producer is invoked again only while a port that it declares is pending. -/
def ReinvokesForPending (flow : FlowDefinition) (runId node : String)
    (ctxs : List InvocationContext) (w : FlowRuntime) : Prop :=
  (∃ ctx ∈ ctxs, ctx.trigger.kind = .implicitReinvoke) →
    ∃ p ∈ declaredPorts flow node, w.portStatus runId node p = .pending

instance (node : String) (ctxs : List InvocationContext) (w : FlowRuntime) :
    Decidable (ReinvokesForPending flow runId node ctxs w) := by
  unfold ReinvokesForPending
  infer_instance

/-- When `on_document_approved` has returned, its contexts and the state that it leaves, in which
the node was invoked again if it was: the node is invoked only for pending ports exactly when the
port was approved before, or no agent owns the node, or each other port is approved, or another
port is pending.  And a node is told exactly its pending ports, in whatever state it is invoked,
exactly when none of its ports is in review or awaits its owner. -/
theorem reinvokesForPending_iff (flow : FlowDefinition) (runId node port : String)
    (w : FlowRuntime) (ctxs : List InvocationContext)
    (hOk : ((onDocumentApproved runId node port flow).run w).1 = .ok ctxs) :
    (ReinvokesForPending flow runId node ctxs
        ((onDocumentApproved runId node port flow).run w).2 ↔
      w.portStatus runId node port = .approved ∨ ¬AgentOwned flow node ∨
        (∀ p ∈ declaredPorts flow node, p ≠ port → w.portStatus runId node p = .approved) ∨
        ∃ p ∈ declaredPorts flow node, p ≠ port ∧ w.portStatus runId node p = .pending) ∧
    ∀ nodeId w', ToldPending flow runId nodeId w' ↔ ∀ p ∈ declaredPorts flow nodeId,
      w'.portStatus runId nodeId p ≠ .inReview ∧ w'.portStatus runId nodeId p ≠ .awaitingOwner := by
  refine ⟨?_, fun nodeId w' => toldPending_iff⟩
  by_cases hNot : w.portStatus runId node port = .approved
  · have hNil : ctxs = [] := by
      rw [(onDocumentApproved_of_approved flow hNot).1] at hOk
      simpa [eq_comm] using hOk
    simp [ReinvokesForPending, hNot, hNil]
  · obtain ⟨hIff, hStatus⟩ := onDocumentApproved_ok hOk hNot
    unfold ReinvokesForPending
    rw [hIff]
    by_cases hAgent : AgentOwned flow node
    · simp only [hAgent, true_and, not_true, false_or, hNot, hStatus hAgent]
      constructor
      · intro h
        by_cases hAll : ∀ p ∈ declaredPorts flow node, p ≠ port → w.portStatus runId node p = .approved
        · exact .inl hAll
        · push Not at hAll
          obtain ⟨p, hp, hPending⟩ := h hAll
          refine .inr ⟨p, hp, ?_⟩
          by_cases hPort : p = port
          · simp [hPort] at hPending
          · exact ⟨hPort, by simpa [hPort] using hPending⟩
      · rintro (hAll | ⟨p, hp, hPort, hPending⟩) ⟨q, hq, hqPort, hqStatus⟩
        · exact absurd (hAll q hq hqPort) hqStatus
        · exact ⟨p, hp, by simp [hPort, hPending]⟩
    · simp [hAgent]

def twoDrafts : FlowDefinition := .ofNodes "two-drafts" ["critic"]
  [{ id := "writer", owner := "writer",
     outputs := [{ port := "spec", reviewers := ["critic"] },
       { port := "design", reviewers := ["critic"] }] }]
  "flow.yaml" (by decide)

def specSubmitted : FlowRuntime := afterCalls twoDrafts "run" "brief" emptyRuntime
  [.submitted "writer" "spec" "" 1]

def bothSubmitted : FlowRuntime := afterCalls twoDrafts "run" "brief" emptyRuntime
  [.submitted "writer" "spec" "" 1, .submitted "writer" "design" "" 1]

def specApproved : Call := .approved "writer" "spec"

/-- With the design still to be written, the approval of the spec invokes the writer for it. -/
theorem writer_reinvoked :
    ReinvokesForPending twoDrafts "run" "writer" (specApproved.contexts twoDrafts "run" specSubmitted)
      (specApproved.step twoDrafts "run" specSubmitted) :=
  (reinvokesForPending_iff twoDrafts "run" "writer" "spec" specSubmitted
    (specApproved.contexts twoDrafts "run" specSubmitted) rfl).1.mpr
    (.inr (.inr (.inr ⟨"design", by decide, by decide, by decide⟩)))

/-- The writer has submitted both documents, and is invoked for the second one again when the first
is approved. -/
theorem writer_reinvoked_for_submitted :
    ¬ReinvokesForPending twoDrafts "run" "writer"
      (specApproved.contexts twoDrafts "run" bothSubmitted)
      (specApproved.step twoDrafts "run" bothSubmitted) ∧
    ¬ToldPending twoDrafts "run" "writer" (specApproved.step twoDrafts "run" bothSubmitted) := by
  refine ⟨by decide, fun hTold => ?_⟩
  exact (toldPending_iff.mp hTold "design" (by decide)).1 (by decide)

end Cronymax.Flow
