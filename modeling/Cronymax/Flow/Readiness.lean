import Cronymax.Flow.AndJoin
import Cronymax.Flow.Effects

/-! Whether a node that has become ready is activated.  The repository has two tests of readiness:
`is_node_ready` counts a seeded input as satisfied, and the gate of `FlowStep` does not. -/

namespace Cronymax.Flow

open Atomic FlowRuntime

variable {flow : FlowDefinition} {runId : String}

/-- No required input of the node was seeded. -/
def Unseeded (flow : FlowDefinition) (nodeId : String) (s : FlowRunState) : Prop :=
  ∀ input ∈ flow.graph.requiredInputsFor nodeId, s.portStatus input.1 input.2 ≠ .seeded

theorem gateOpen_iff_unseeded {nodeId : String} {s : FlowRunState}
    (hReady : isNodeReady nodeId s flow.graph = true) :
    gateOpen nodeId s flow.graph = true ↔ Unseeded flow nodeId s := by
  simp only [isNodeReady, FlowRunState.satisfied, List.all_eq_true, Bool.or_eq_true,
    decide_eq_true_eq] at hReady
  simp only [gateOpen, Unseeded, List.all_eq_true, decide_eq_true_eq]
  constructor
  · intro h input hInput hSeeded
    rw [h input hInput] at hSeeded
    cases hSeeded
  · intro h input hInput
    exact (hReady input hInput).resolve_right (h input hInput)

theorem gateOpen_congr {nodeId : String} {s s' : FlowRunState}
    (h : ∀ node port, s.portStatus node port = s'.portStatus node port) :
    gateOpen nodeId s flow.graph = gateOpen nodeId s' flow.graph := by
  simp only [gateOpen, h]

theorem filter_flatMap_of_nodup {α β : Type*} [DecidableEq α] {test : β → Bool} {f : α → List β}
    {a : α} (hOwn : (f a).filter test = f a) (hOther : ∀ b, b ≠ a → (f b).filter test = [])
    {l : List α} (hNodup : l.Nodup) :
    (l.flatMap f).filter test = if a ∈ l then f a else [] := by
  induction l with
  | nil => rfl
  | cons b l ih =>
    obtain ⟨hb, hNodup⟩ := List.nodup_cons.mp hNodup
    rw [List.flatMap_cons, List.filter_append, ih hNodup]
    by_cases h : b = a
    · subst b
      simp [hOwn, hb]
    · simp [hOther b h, Ne.symm h]

theorem filter_activationEvents (trigger : InvocationTrigger) (hKind : trigger.kind = .andJoin)
    (nodeId node : String) :
    (activationEvents runId flow trigger node).filter (JoinAct runId nodeId ·) =
      if node = nodeId then activationEvents runId flow trigger node else [] := by
  unfold activationEvents
  split
  · simp
  · split
    · by_cases h : node = nodeId <;> simp [h, JoinAct, List.filter_map, Function.comp_def]
    · by_cases h : node = nodeId <;> simp [h, JoinAct, hKind]

theorem filter_activationKeys (trigger : InvocationTrigger) (nodeId node : String) :
    (activationKeys flow trigger node).filter (·.1 = nodeId) =
      if node = nodeId then activationKeys flow trigger node else [] := by
  unfold activationKeys
  split
  · simp
  · split
    · simp
    · by_cases h : node = nodeId <;> simp [h]

theorem Joins.share {producer port nodeId : String} {tr : List (Act × FlowRuntime)}
    {ctxs : List InvocationContext} (h : Joins runId flow producer port tr ctxs)
    (hAwaits : (producer, port) ∈ flow.graph.requiredInputsFor nodeId) :
    ∃ w s tr', tr = (.snapshot runId, w) :: tr' ∧ w.getRun runId = some s ∧
      (events tr).filter (JoinAct runId nodeId ·) =
        (if gateOpen nodeId s flow.graph then
          activationEvents runId flow (andJoinTrigger producer port) nodeId else []) ∧
      (ctxs.map (·.key)).filter (·.1 = nodeId) =
        if gateOpen nodeId s flow.graph then
          activationKeys flow (andJoinTrigger producer port) nodeId else [] := by
  have hMem := flow.graph.mem_nodesAwaiting.mpr hAwaits
  rcases h with ⟨hEmpty, _, _⟩ | ⟨w, s, tr', rfl, hRun, hEvents, hKeys⟩
  · rw [hEmpty] at hMem
    cases hMem
  have hNodup : (readyNodes flow producer port s).Nodup :=
    (flow.graph.nodup_nodesAwaiting producer port).filter _
  have hReady : nodeId ∈ readyNodes flow producer port s ↔ gateOpen nodeId s flow.graph = true := by
    simp [readyNodes, hMem]
  refine ⟨w, s, tr', rfl, hRun, ?_, ?_⟩
  · have hSnapshot : ¬JoinAct runId nodeId (.snapshot runId) := id
    rw [events_cons, if_pos (show (Act.snapshot runId).isEvent = true from rfl),
      List.filter_cons_of_neg (by simpa using hSnapshot), hEvents,
      filter_flatMap_of_nodup (a := nodeId)
        ((filter_activationEvents _ rfl nodeId nodeId).trans (if_pos rfl))
        (fun b hb => (filter_activationEvents _ rfl nodeId b).trans (if_neg hb)) hNodup]
    simp only [hReady]
  · rw [hKeys, filter_flatMap_of_nodup (a := nodeId)
      ((filter_activationKeys _ nodeId nodeId).trans (if_pos rfl))
      (fun b hb => (filter_activationKeys _ nodeId b).trans (if_neg hb)) hNodup]
    simp only [hReady]

variable {node port : String} {w : FlowRuntime}

theorem fireAndJoinFor_events {producer nodeId : String} {s : FlowRunState} (hw : w.Good runId)
    (hRun : w.getRun runId = some s)
    (hAwaits : (producer, port) ∈ flow.graph.requiredInputsFor nodeId) :
    (events ((fireAndJoinFor producer port runId flow).trace w)).filter (JoinAct runId nodeId ·) =
        (if gateOpen nodeId s flow.graph then
          activationEvents runId flow (andJoinTrigger producer port) nodeId else []) ∧
      ∃ ctxs, ((fireAndJoinFor producer port runId flow).run w).1 = .ok ctxs ∧
        (ctxs.map (·.key)).filter (·.1 = nodeId) =
          if gateOpen nodeId s flow.graph then
            activationKeys flow (andJoinTrigger producer port) nodeId else [] := by
  obtain ⟨ctxs, hOk, hJoins⟩ := (fireAndJoinFor_achieves producer port flow).run Good.apply hw
  obtain ⟨w', s', tr', hTrace, hRun', hEvents, hKeys⟩ := hJoins.share hAwaits
  have hChain := Prog.trace_chained (fireAndJoinFor producer port runId flow) w
  rw [hTrace] at hChain
  obtain ⟨rfl, _⟩ := hChain
  obtain rfl : s' = s := by simpa [hRun] using hRun'.symm
  exact ⟨hEvents, ctxs, hOk, hKeys⟩

theorem approvePort_run (node port : String) (flow : FlowDefinition) (hw : w.Good runId) :
    ((approvePort runId node port flow).run w).1 = .ok () ∧ ∀ node' port',
      ((approvePort runId node port flow).run w).2.portStatus runId node' port' =
        if node' = node ∧ port' = port then .approved else w.portStatus runId node' port' := by
  obtain ⟨_, hOk, hEvents⟩ := (approvePort_achieves node port flow).run Good.apply hw
  refine ⟨hOk, fun node' port' => ?_⟩
  rw [Prog.run_snd, portStatus_after hw.2, hEvents]
  simp only [List.foldl_cons, List.foldl_nil, Act.newStatus_markPortStatus, true_and]
  by_cases hPort : node' = node ∧ port' = port
  · obtain ⟨rfl, rfl⟩ := hPort
    by_cases hOld : w.portStatus runId node' port' = .approved <;> simp [hOld]
  · rw [if_neg fun h => hPort ⟨h.1, h.2.1⟩, if_neg hPort]

theorem cascadeApproval_run (node port : String) (flow : FlowDefinition) (hw : w.Good runId) :
    ∃ joined rest follow,
      ((cascadeApproval runId node port flow).run w).1 = .ok (joined ++ rest) ∧
      ((fireAndJoinFor node port runId flow).run
        ((approvePort runId node port flow).run w).2).1 = .ok joined ∧
      (cascadeApproval runId node port flow).trace w = (approvePort runId node port flow).trace w ++
        ((fireAndJoinFor node port runId flow).trace
          ((approvePort runId node port flow).run w).2 ++ follow) ∧
      Follows runId flow node port follow rest := by
  have hApprove := (approvePort_run node port flow hw).1
  have hw' := hw.run_snd (approvePort runId node port flow)
  obtain ⟨joined, hJoin, _⟩ := (fireAndJoinFor_achieves node port flow).run Good.apply hw'
  have hw'' := hw'.run_snd (fireAndJoinFor node port runId flow)
  obtain ⟨_, hFollow, rest, rfl, hRest⟩ :=
    (followApproval_achieves node port flow joined).run Good.apply hw''
  refine ⟨joined, rest, _, ?_, hJoin, ?_, hRest⟩
  · rw [cascadeApproval, Prog.run_bind_of_ok hApprove, Prog.run_bind_of_ok hJoin, hFollow]
  · rw [cascadeApproval, Prog.trace_bind_of_ok hApprove, Prog.trace_bind_of_ok hJoin]

theorem Follows.not_andJoin {tr : List (Act × FlowRuntime)} {ctxs : List InvocationContext}
    (h : Follows runId flow node port tr ctxs) : ∀ ctx ∈ ctxs, ctx.trigger.kind ≠ .andJoin := by
  obtain ⟨again, hAgain, _, hKeys⟩ := h
  intro ctx hctx hKind
  have hMem : ctx.key ∈ ctxs.map (·.key) := List.mem_map_of_mem hctx
  rw [hKeys, List.mem_append, List.mem_flatMap] at hMem
  rcases hMem with ⟨nodeId, _, hMem⟩ | hMem
  · unfold activationKeys at hMem
    split at hMem
    · cases hMem
    · split at hMem
      · cases hMem
      · have hTrigger := congrArg Prod.snd (List.mem_singleton.mp hMem)
        simp only [InvocationContext.key] at hTrigger
        rw [hTrigger] at hKind
        cases hKind
  · rcases hAgain with rfl | rfl
    · cases hMem
    · have hTrigger := congrArg Prod.snd (List.mem_singleton.mp hMem)
      simp only [InvocationContext.key] at hTrigger
      rw [hTrigger] at hKind
      cases hKind

theorem readyNodes_of_seeded {s : FlowRunState} (h : s.portStatus node port = .seeded) :
    readyNodes flow node port s = [] := by
  rw [readyNodes, List.filter_eq_nil_iff]
  intro nodeId hAwaits hGate
  have hInput := flow.graph.mem_nodesAwaiting.mp hAwaits
  have := List.all_eq_true.mp hGate _ hInput
  simp [h] at this

theorem markSeeded_run (node port : String) (hw : w.Good runId) :
    ((markPortStatusUnchecked runId node port .seeded).run w).1 = .ok () ∧
      ((markPortStatusUnchecked runId node port .seeded).run w).2.portStatus runId node port =
        .seeded := by
  obtain ⟨_, hOk, hEvents⟩ :=
    (markPortStatusUnchecked_achieves node port .seeded).run Good.apply hw
  refine ⟨hOk, ?_⟩
  rw [Prog.run_snd, portStatus_after hw.2, hEvents]
  simp

/-- The runtime after the port of a seeded entry has been marked. -/
def seedState (runId key : String) (entry : BlackboardEntry) (node port : String)
    (w : FlowRuntime) : FlowRuntime :=
  ((markPortStatusUnchecked runId node port .seeded).run
    ((writeBlackboardEntry runId key entry).run w).2).2

theorem seedState_good {key : String} {entry : BlackboardEntry} (hw : w.Good runId) :
    (seedState runId key entry node port w).Good runId :=
  (hw.run_snd _).run_snd _

theorem applySeededEntry_run (flow : FlowDefinition) (seed : String × BlackboardEntry)
    (hw : w.Good runId) : ((applySeededEntry runId flow seed).run w).1 = .ok [] := by
  have hWrite : ((writeBlackboardEntry runId seed.1 seed.2).run w).1 = .ok () := rfl
  have hw' := hw.run_snd (writeBlackboardEntry runId seed.1 seed.2)
  rw [applySeededEntry, Prog.run_bind_of_ok hWrite]
  cases flow.findOutputByBlackboardKey seed.1 with
  | none => rfl
  | some output =>
    obtain ⟨hMark, hSeeded⟩ := markSeeded_run output.1 output.2 hw'
    have hw'' := hw'.run_snd (markPortStatusUnchecked runId output.1 output.2 .seeded)
    simp only
    rw [Prog.run_bind_of_ok hMark]
    obtain ⟨ctxs, hOk, hJoins⟩ :=
      (fireAndJoinFor_achieves output.1 output.2 flow).run Good.apply hw''
    rw [hOk]
    rcases hJoins with ⟨_, _, rfl⟩ | ⟨t, s, tr', hTrace, hRun, _, hKeys⟩
    · rfl
    · have hChain := Prog.trace_chained (fireAndJoinFor output.1 output.2 runId flow)
        ((markPortStatusUnchecked runId output.1 output.2 .seeded).run
          ((writeBlackboardEntry runId seed.1 seed.2).run w).2).2
      rw [hTrace] at hChain
      obtain ⟨rfl, _⟩ := hChain
      rw [FlowRuntime.portStatus, hRun] at hSeeded
      rw [readyNodes_of_seeded hSeeded] at hKeys
      rw [List.map_eq_nil_iff.mp hKeys]

theorem applySeededEntries_cons (flow : FlowDefinition) (seed : String × BlackboardEntry)
    (rest : List (String × BlackboardEntry)) :
    applySeededEntries runId flow (seed :: rest) = applySeededEntry runId flow seed >>=
      fun first => applySeededEntries runId flow rest >>= fun rest => pure (first ++ rest) :=
  rfl

theorem applySeededEntries_run (flow : FlowDefinition) (seeds : List (String × BlackboardEntry))
    (hw : w.Good runId) : ((applySeededEntries runId flow seeds).run w).1 = .ok [] := by
  induction seeds generalizing w with
  | nil => rfl
  | cons seed rest ih =>
    have hFirst := applySeededEntry_run flow seed hw
    have hRest := ih (hw.run_snd (applySeededEntry runId flow seed))
    rw [applySeededEntries_cons, Prog.run_bind_of_ok hFirst, Prog.run_bind_of_ok hRest]
    rfl

/-- The call makes the input satisfied in this state. -/
inductive Satisfies (flow : FlowDefinition) (runId : String) (w : FlowRuntime) :
    Call → PortRef → FlowRuntime → Prop where
  | approved {node port : String} (h : w.portStatus runId node port ≠ .approved) :
    Satisfies flow runId w (.approved node port) (node, port)
      ((approvePort runId node port flow).run w).2
  | seeded {before after : List (String × BlackboardEntry)} {key : String}
      {entry : BlackboardEntry} {node port : String}
      (h : flow.findOutputByBlackboardKey key = some (node, port)) :
    Satisfies flow runId w (.seeded (before ++ (key, entry) :: after)) (node, port)
      (seedState runId key entry node port ((applySeededEntries runId flow before).run w).2)

variable {c : Call} {input : PortRef} {w' : FlowRuntime}

theorem Satisfies.trace (h : Satisfies flow runId w c input w') (hw : w.Good runId) :
    (fireAndJoinFor input.1 input.2 runId flow).trace w' <:+: c.trace flow runId w := by
  cases h with
  | @approved node port hNot =>
    obtain ⟨_, _, follow, _, _, hTrace, _⟩ :=
      cascadeApproval_run node port flow hw
    rw [Call.trace, Call.op, (onDocumentApproved_of_not_approved flow hNot).2, hTrace]
    exact (List.infix_append' _ _ _).trans (List.suffix_cons _ _).isInfix
  | @seeded before after key entry node port hKey =>
    have hBefore := applySeededEntries_run flow before hw
    have hw1 := hw.run_snd (applySeededEntries runId flow before)
    have hEntry := applySeededEntry_run flow (key, entry) hw1
    have hWrite : ((writeBlackboardEntry runId key entry).run
      ((applySeededEntries runId flow before).run w).2).1 = .ok () := rfl
    have hMark := (markSeeded_run node port
      (hw1.run_snd (writeBlackboardEntry runId key entry))).1
    have hLast : (fireAndJoinFor node port runId flow).trace (seedState runId key entry node port
        ((applySeededEntries runId flow before).run w).2) <:+
          (applySeededEntry runId flow (key, entry)).trace
            ((applySeededEntries runId flow before).run w).2 := by
      rw [applySeededEntry, Prog.trace_bind_of_ok hWrite]
      simp only [hKey]
      rw [Prog.trace_bind_of_ok hMark, ← List.append_assoc]
      exact List.suffix_append _ _
    have hAppend : applySeededEntries runId flow (before ++ (key, entry) :: after) =
        applySeededEntries runId flow before >>= fun first =>
          applySeededEntries runId flow ((key, entry) :: after) >>= fun rest =>
            pure (first ++ rest) := Prog.collect_append _ _ _
    rw [Call.trace, Call.op, hAppend, Prog.trace_bind_of_ok hBefore, Prog.trace_bind,
      applySeededEntries_cons, Prog.trace_bind_of_ok hEntry]
    exact (hLast.isInfix.trans (List.prefix_append _ _).isInfix).trans (List.infix_append' _ _ _)

theorem Satisfies.good (h : Satisfies flow runId w c input w') (hw : w.Good runId) :
    w'.Good runId := by
  cases h with
  | approved => exact hw.run_snd _
  | seeded => exact seedState_good (hw.run_snd _)

/-- The contexts of joins of the node that a call returns. -/
def joinContexts (flow : FlowDefinition) (runId nodeId : String) (w : FlowRuntime) (c : Call) :
    List InvocationContext :=
  (c.contexts flow runId w).filter fun ctx => ctx.nodeId = nodeId ∧ ctx.trigger.kind = .andJoin

/-- The node is activated by one join, and by this input. -/
def ActivatedOnce (flow : FlowDefinition) (runId nodeId : String) (n : FlowNode) (w : FlowRuntime)
    (c : Call) (input : PortRef) (w' : FlowRuntime) : Prop :=
  if n.owner = "human" then
    (events ((fireAndJoinFor input.1 input.2 runId flow).trace w')).filter (JoinAct runId nodeId ·) =
      n.outputs.map fun output => .markPortStatusUnchecked runId nodeId output.port .awaitingOwner
  else (joinContexts flow runId nodeId w c).length = 1

theorem Satisfies.joinContexts {nodeId : String} {n : FlowNode} {s' : FlowRunState}
    (h : Satisfies flow runId w c input w') (hw : w.Good runId)
    (hNode : flow.node nodeId = some n) (hAgent : n.owner ≠ "human")
    (hAwaits : input ∈ flow.graph.requiredInputsFor nodeId) (hRun : w'.getRun runId = some s') :
    (joinContexts flow runId nodeId w c).length =
      if gateOpen nodeId s' flow.graph then 1 else 0 := by
  cases h with
  | @approved node port hNot =>
    obtain ⟨joined, rest, _, hOk, hJoin, _, hFollows⟩ :=
      cascadeApproval_run node port flow hw
    obtain ⟨_, ctxs, hCtxs, hKeys⟩ := fireAndJoinFor_events (hw.run_snd _) hRun hAwaits
    obtain rfl : ctxs = joined := by simpa [hJoin] using hCtxs.symm
    have hContexts : (Call.approved node port).contexts flow runId w = ctxs ++ rest := by
      simp only [Call.contexts, Call.op, (onDocumentApproved_of_not_approved flow hNot).1, hOk]
    have hRest : rest.filter (fun ctx => ctx.nodeId = nodeId ∧ ctx.trigger.kind = .andJoin) = [] :=
      List.filter_eq_nil_iff.mpr fun ctx hctx h =>
        hFollows.not_andJoin ctx hctx (by simpa using (decide_eq_true_eq.mp h).2)
    -- every context of the checks has the trigger of an AND-join
    have hJoined : ctxs.filter (fun ctx => ctx.nodeId = nodeId ∧ ctx.trigger.kind = .andJoin) =
        ctxs.filter ((·.1 = nodeId) ∘ InvocationContext.key) := by
      refine List.filter_congr fun ctx hctx => ?_
      obtain ⟨_, hTrigger, _⟩ := fireAndJoinFor_recorded hJoin ctx hctx
      simp [InvocationContext.key, hTrigger, andJoinTrigger]
    rw [List.filter_map] at hKeys
    have hLength := congrArg List.length hKeys
    rw [List.length_map] at hLength
    rw [joinContexts, hContexts, List.filter_append, hRest, List.append_nil, hJoined]
    refine hLength.trans ?_
    simp only [activationKeys, hNode, hAgent, if_false]
    split <;> rfl
  | @seeded before after key entry node port hKey =>
    have hNone : (Call.seeded (before ++ (key, entry) :: after)).contexts flow runId w = [] := by
      simp only [Call.contexts, Call.op, applySeededEntries_run flow _ hw]
    have hSeeded := (markSeeded_run node port ((hw.run_snd (applySeededEntries runId flow before)).run_snd
      (writeBlackboardEntry runId key entry))).2
    have hStatus : s'.portStatus node port = .seeded := by
      rw [FlowRuntime.portStatus] at hSeeded
      rw [seedState] at hRun
      simpa [hRun] using hSeeded
    have hClosed : ¬gateOpen nodeId s' flow.graph = true := fun h => by
      have := List.all_eq_true.mp h _ hAwaits
      simp [hStatus] at this
    rw [joinContexts, hNone, if_neg hClosed]
    rfl

/-- A node that a call makes ready is activated exactly once by the call, if and only if none of its
required inputs was seeded; a human-owned node without outputs has no ports to put in
`AwaitingOwner`. -/
theorem activatedOnce_iff_unseeded (flow : FlowDefinition) (runId nodeId : String) (n : FlowNode)
    (w w' : FlowRuntime) (c : Call) (input : PortRef) (s' : FlowRunState) (hw : w.Good runId)
    (hSatisfies : Satisfies flow runId w c input w') (hNode : flow.node nodeId = some n)
    (hAwaits : input ∈ flow.graph.requiredInputsFor nodeId) (hRun : w'.getRun runId = some s')
    (hReady : isNodeReady nodeId s' flow.graph = true) :
    (fireAndJoinFor input.1 input.2 runId flow).trace w' <:+: c.trace flow runId w ∧
      (gateOpen nodeId s' flow.graph = isNodeReady nodeId s' flow.graph ↔
        Unseeded flow nodeId s') ∧
      (ActivatedOnce flow runId nodeId n w c input w' ↔
        Unseeded flow nodeId s' ∨ n.owner = "human" ∧ n.outputs = []) := by
  have hGate := gateOpen_iff_unseeded hReady
  refine ⟨hSatisfies.trace hw, by rw [hReady]; exact hGate, ?_⟩
  unfold ActivatedOnce
  by_cases hHuman : n.owner = "human"
  · rw [if_pos hHuman, (fireAndJoinFor_events (hSatisfies.good hw) hRun hAwaits).1]
    simp only [activationEvents, hNode, hHuman, if_true, true_and, ← hGate]
    by_cases hOpen : gateOpen nodeId s' flow.graph = true
    · simp [hOpen]
    · simp only [hOpen, Bool.false_eq_true, if_false, false_or]
      exact eq_comm.trans List.map_eq_nil_iff
  · rw [if_neg hHuman, hSatisfies.joinContexts hw hNode hHuman hAwaits hRun, ← hGate]
    by_cases hOpen : gateOpen nodeId s' flow.graph = true
    · simp [hOpen]
    · simp [hOpen, hHuman]

def twoSpecsNodes : List FlowNode :=
  [{ id := "ui", owner := "ui", outputs := [{ port := "spec", blackboardKey := some "ui" }] },
   { id := "api", owner := "api", outputs := [{ port := "spec", blackboardKey := some "api" }] },
   { id := "dev", owner := "dev", outputs := [{ port := "code" }], reads := ["ui", "api"] }]

def twoSpecsFlow : FlowDefinition := .ofNodes "two-specs" [] twoSpecsNodes "flow.yaml" (by decide)

def twoSpecsDev : FlowNode := twoSpecsNodes[2]

def oneApproved : FlowRuntime :=
  afterCalls twoSpecsFlow "run" "brief" emptyRuntime [.submitted "ui" "spec" "" 1]

def secondApproved (w : FlowRuntime) : FlowRuntime :=
  ((approvePort "run" "api" "spec" twoSpecsFlow).run w).2

/-- The second of two inputs is approved. -/
theorem dev_activatedOnce : ActivatedOnce twoSpecsFlow "run" "dev" twoSpecsDev oneApproved
    (.approved "api" "spec") ("api", "spec") (secondApproved oneApproved) :=
  (activatedOnce_iff_unseeded twoSpecsFlow "run" "dev" twoSpecsDev oneApproved
    (secondApproved oneApproved) (.approved "api" "spec") ("api", "spec")
    (((secondApproved oneApproved).getRun "run").get (by decide)) (by decide)
    (.approved (by decide)) (by decide) (by decide) (Option.some_get _).symm
    (by decide)).2.2.mpr (.inl (by unfold Unseeded; decide))

def priorSpec : BlackboardEntry := ⟨⟨"ui.md", "spec", 1⟩, .autoSeeded "task"⟩

def oneSeeded : FlowRuntime :=
  afterCalls twoSpecsFlow "run" "brief" emptyRuntime [.seeded [("ui", priorSpec)]]

/-- After the seeding, the approval of the second specification makes `dev` ready and does not
activate it. -/
theorem dev_waits_for_seeded :
    ¬(((secondApproved oneSeeded).getRun "run").any (isNodeReady "dev" · twoSpecsFlow.graph) = true →
      ActivatedOnce twoSpecsFlow "run" "dev" twoSpecsDev oneSeeded (.approved "api" "spec")
        ("api", "spec") (secondApproved oneSeeded)) := by
  intro h
  have hOnce := h (by decide)
  rw [ActivatedOnce, if_neg (by decide)] at hOnce
  exact absurd hOnce (by decide)

end Cronymax.Flow
