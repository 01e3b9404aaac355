import Cronymax.Flow.Calls

/-! Rounds of review.  The tally of a port is kept from its first verdict to the end of the run, and
whether it holds a rejection is decided anew at each verdict: so a rejection outlives its round, it
undoes an approval that came in between, and each verdict after it invokes the producing node once
more. -/

namespace Cronymax.Flow

open Atomic FlowRuntime

variable {flow : FlowDefinition} {runId node port : String} {w : FlowRuntime} {s : FlowRunState}

theorem settleVerdict_of_vetoed {verdicts : List (String × ReviewVerdict)}
    (h : Ballot.Vetoed .reject verdicts) : settleVerdict runId node port flow verdicts =
      onRejectedRequeue runId node port flow >>= fun ctx => pure (some ctx.toList) := by
  rw [settleVerdict, if_pos h]

theorem settleVerdict_only (runId node port : String) (flow : FlowDefinition)
    {verdicts : List (String × ReviewVerdict)}
    (h : ¬Ballot.Vetoed .reject verdicts) :
    (settleVerdict runId node port flow verdicts).Only (Cascades runId node port flow) := by
  rw [settleVerdict, if_neg h]
  split
  · split
    · trivial
    · exact (onDocumentApproved_only runId node port flow).bind fun _ => trivial
  · trivial

theorem verdicts_settleVerdict (hRun : (w.getRun runId).isSome = true)
    (verdicts : List (String × ReviewVerdict)) (key : String) :
    ((settleVerdict runId node port flow verdicts).run w).2.verdicts runId key =
      w.verdicts runId key := by
  by_cases h : Ballot.Vetoed .reject verdicts
  · rw [settleVerdict_of_vetoed h, Prog.run_map_snd]
    exact verdicts_run_of_plain ((onRejectedRequeue_only runId node port flow).mono fun _ h => h.plain)
      hRun key
  · exact verdicts_run_of_plain ((settleVerdict_only runId node port flow h).mono fun _ h => h.plain) hRun key

/-- The section invokes the producing node because its document was rejected. -/
def Act.requeues (runId node port : String) : Act → Bool
  | .recordInvocation runId' node' trigger =>
    runId' = runId && node' = node && trigger = rejectedRequeueTrigger port
  | _ => false

theorem Act.requeues_of_idle {a : Act} (h : a.isDeed = false) :
    a.requeues runId node port = false := by
  cases a <;> first | rfl | cases h

theorem Cascades.not_requeues {a : Act} (h : Cascades runId node port flow a) :
    a.requeues runId node port = false := by
  rcases h with h | rfl | ⟨_, _, rfl⟩ | ⟨_, trigger, hKind, _, _, ⟨_, _, _, rfl⟩ | ⟨_, rfl⟩⟩
  · exact Act.requeues_of_idle h.not_deed
  · rfl
  · rfl
  · rfl
  · have : trigger ≠ rejectedRequeueTrigger port := by
      rintro rfl
      exact hKind rfl
    simp [Act.requeues, this]

theorem Cascades.not_invokes {a : Act} (h : Cascades runId node port flow a) (nodeId : String) :
    a.invokes runId nodeId .rejectedRequeue = false := by
  rcases h with h | rfl | ⟨_, _, rfl⟩ | ⟨_, trigger, hKind, _, _, ⟨_, _, _, rfl⟩ | ⟨_, rfl⟩⟩
  · cases a <;> first | rfl | cases h
  · rfl
  · rfl
  · rfl
  · simp [Act.invokes, hKind]

namespace Call

variable (flow : FlowDefinition) (runId node port : String)

/-- The call is a verdict on the port. -/
def judges : Call → Bool
  | .verdict node' port' _ _ _ => node' = node && port' = port
  | _ => false

/-- The call submits the port or is a verdict on it. -/
def reviews : Call → Bool
  | .submitted node' port' _ _ => node' = node && port' = port
  | c => c.judges node port

/-- The call invokes the producing node because its document was rejected. -/
def requeues (w : FlowRuntime) (c : Call) : Bool :=
  (c.trace flow runId w).any (·.1.requeues runId node port)

end Call

variable {reviewer : String} {vote : ReviewVerdict} {comments : List ReviewComment}

theorem step_verdict (flow : FlowDefinition) (runId : String) (w : FlowRuntime) :
    (Call.verdict node port reviewer vote comments).step flow runId w =
      ((onReviewerVerdict runId node port reviewer vote comments flow).run w).2 :=
  Prog.run_map_snd _ _ w

theorem trace_verdict (flow : FlowDefinition) (runId : String) (w : FlowRuntime) :
    (Call.verdict node port reviewer vote comments).trace flow runId w =
      (onReviewerVerdict runId node port reviewer vote comments flow).trace w :=
  Prog.trace_map _ _ w

theorem judges_iff {c : Call} : c.judges node port = true ↔
    ∃ reviewer vote comments, c = .verdict node port reviewer vote comments := by
  cases c with
  | verdict node' port' reviewer vote comments => simp [Call.judges]
  | _ => simp [Call.judges]

/-- The verdict sends the document back. -/
def Rejects (flow : FlowDefinition) (runId node port : String) (w : FlowRuntime) (c : Call) : Prop :=
  c.judges node port = true ∧ (c.step flow runId w).portStatus runId node port = .pending ∧
    c.requeues flow runId node port w = true

/-- The round ends with an approval, or waits for the human, and no verdict of it sends the document
back. -/
def FreshRound (flow : FlowDefinition) (runId node port : String) (w : FlowRuntime)
    (calls : List Call) : Prop :=
  (if hasHumanReviewer flow node port then
      ∃ pre c post, calls = pre ++ c :: post ∧ c.judges node port = true ∧
        humanReviewPending node port ∈
          c.contexts flow runId (History.play (Call.step flow runId) w pre)
    else (History.play (Call.step flow runId) w calls).portStatus runId node port = .approved) ∧
  ∀ pre c post, calls = pre ++ c :: post →
    c.requeues flow runId node port (History.play (Call.step flow runId) w pre) = false

/-- The port has a rejection in its tally and is not approved. -/
structure Condemned (runId node port : String) (w : FlowRuntime) : Prop where
  run : (w.getRun runId).isSome = true
  veto : Ballot.Vetoed .reject (w.verdicts runId (verdictKey runId node port))
  status : w.portStatus runId node port = .pending ∨ w.portStatus runId node port = .inReview

theorem Rejects.condemned {c : Call} (h : Rejects flow runId node port w c) :
    Condemned runId node port (c.step flow runId w) := by
  obtain ⟨hJudges, hPending, hRequeues⟩ := h
  obtain ⟨reviewer, vote, comments, rfl⟩ := judges_iff.mp hJudges
  rw [Call.requeues, trace_verdict, List.any_eq_true] at hRequeues
  obtain ⟨e, he, hRequeue⟩ := hRequeues
  have hIdle : e.1.isDeed ≠ false := fun h => by simp [Act.requeues_of_idle h] at hRequeue
  cases hRun : w.getRun runId with
  | none =>
    simp [onReviewerVerdict, Prog.trace, hRun] at he
    simp [he, Act.isDeed] at hIdle
  | some s =>
    rcases onReviewerVerdict_leads reviewer vote comments flow node port hRun with
      ⟨_, _, w', _, hLeads⟩ | ⟨w', hRun', hLeads⟩
    · obtain ⟨pre, hPre, hTrace⟩ := hLeads.trace
      rw [hTrace] at he
      exact absurd (hPre e (by simpa [Prog.trace] using he)) hIdle
    · obtain ⟨pre, hPre, hTrace⟩ := hLeads.trace
      rw [hTrace, List.mem_append] at he
      have he := he.resolve_left fun h => hIdle (hPre e h)
      have hVeto : Ballot.Vetoed .reject
          (Ballot.record (s.verdicts (verdictKey runId node port)) reviewer vote) := by
        by_contra hVeto
        simp [((settleVerdict_only runId node port flow hVeto).trace w' e he).not_requeues] at hRequeue
      have hSome : (w'.getRun runId).isSome = true := by rw [hRun']; rfl
      rw [step_verdict, hLeads.run] at hPending ⊢
      refine ⟨isSome_run _ hSome, ?_, .inl hPending⟩
      rw [verdicts_settleVerdict hSome, FlowRuntime.verdicts_of_getRun hRun',
        FlowRunState.verdicts_recordVerdict, if_pos rfl]
      exact hVeto

theorem contexts_verdict (flow : FlowDefinition) (runId : String) (w : FlowRuntime) :
    (Call.verdict node port reviewer vote comments).contexts flow runId w =
      match ((onReviewerVerdict runId node port reviewer vote comments flow).run w).1 with
      | .ok ctxs => ctxs.getD []
      | .error _ => [] := by
  rw [Call.contexts, Call.op, Prog.run_bind]
  cases (onReviewerVerdict runId node port reviewer vote comments flow).run w with
  | mk r t => cases r <;> rfl

theorem onRejectedRequeue_ensures (runId node port : String) (flow : FlowDefinition) :
    (onRejectedRequeue runId node port flow).Ensures fun _ ctx =>
      ∀ c ∈ ctx, c.trigger = rejectedRequeueTrigger port :=
  Prog.Ensures.trivial.bind fun _ _ _ => Prog.Ensures.trivial.bind fun _ _ _ =>
    (buildInvocationContext_ensures runId node (rejectedRequeueTrigger port) flow).bind
      fun _ _ h => Prog.Ensures.trivial.bind fun _ _ _ => .done fun c hc => (h c hc).2

theorem humanReviewPending_not_requeued (runId node port : String) (flow : FlowDefinition)
    (w : FlowRuntime) (ctx : Option InvocationContext)
    (hOk : ((onRejectedRequeue runId node port flow).run w).1 = .ok ctx) :
    humanReviewPending node port ∉ ctx := by
  intro hMem
  have hYields := Prog.trace_yields (onRejectedRequeue runId node port flow) w
  rw [hOk] at hYields
  have hTrigger := onRejectedRequeue_ensures runId node port flow _ ctx hYields _ hMem
  cases congrArg InvocationTrigger.kind hTrigger

theorem Condemned.verdict (h : Condemned runId node port w) (flow : FlowDefinition)
    (reviewer : String) (vote : ReviewVerdict) (comments : List ReviewComment) :
    Condemned runId node port
        ((Call.verdict node port reviewer vote comments).step flow runId w) ∧
      humanReviewPending node port ∉
        (Call.verdict node port reviewer vote comments).contexts flow runId w := by
  obtain ⟨s, hRun⟩ := Option.isSome_iff_exists.mp h.run
  have hVeto := h.veto
  have hStatus := h.status
  rw [FlowRuntime.verdicts_of_getRun hRun] at hVeto
  rw [FlowRuntime.portStatus_of_getRun hRun] at hStatus
  rw [step_verdict, contexts_verdict]
  rcases onReviewerVerdict_leads reviewer vote comments flow node port hRun with
    ⟨_, e, w', hRun', hLeads⟩ | ⟨w', hRun', hLeads⟩
  · rw [hLeads.run]
    refine ⟨⟨?_, ?_, ?_⟩, by simp [Prog.run]⟩
    · simp [Prog.run, hRun']
    · simpa [Prog.run, FlowRuntime.verdicts_of_getRun hRun'] using hVeto
    · simpa [Prog.run, FlowRuntime.portStatus_of_getRun hRun'] using hStatus
  · have hSome : (w'.getRun runId).isSome = true := by rw [hRun']; rfl
    have hVeto' : Ballot.Vetoed .reject
      (Ballot.record (s.verdicts (verdictKey runId node port)) reviewer vote) := hVeto.record
    rw [hLeads.run]
    refine ⟨⟨isSome_run _ hSome, ?_, ?_⟩, ?_⟩
    · rw [verdicts_settleVerdict hSome, FlowRuntime.verdicts_of_getRun hRun',
        FlowRunState.verdicts_recordVerdict, if_pos rfl]
      exact hVeto'
    · rw [settleVerdict_of_vetoed hVeto', Prog.run_map_snd]
      rcases status_requeues (onRejectedRequeue_only runId node port flow) hSome with h' | h'
      · rw [h', portStatus_of_recordVerdict hRun hRun']
        exact h.status
      · exact .inl h'
    · rw [settleVerdict_of_vetoed hVeto', Prog.run_bind]
      have hNot := humanReviewPending_not_requeued runId node port flow w'
      cases hResult : (onRejectedRequeue runId node port flow).run w' with
      | mk r t =>
        rw [hResult] at hNot
        cases r with
        | error e => simp
        | ok ctx => simpa [Prog.run] using hNot ctx rfl

theorem Condemned.submitted (h : Condemned runId node port w)
    (hReviewers : agentReviewers flow node port ≠ []) (sha : String) (revision : UInt32) :
    Condemned runId node port ((Call.submitted node port sha revision).step flow runId w) := by
  refine ⟨isSome_run _ h.run, (verdicts_submitted h.run flow node port sha revision _).symm ▸ h.veto,
    ?_⟩
  obtain ⟨s, hRun⟩ := Option.isSome_iff_exists.mp h.run
  obtain ⟨w', hRun', hCases⟩ := onDocumentSubmitted_leads flow node port sha revision hRun
  have hStatus : w'.portStatus runId node port = .pending ∨
      w'.portStatus runId node port = .inReview := by
    rw [portStatus_of_counted hRun hRun']
    exact h.status
  unfold Call.step Call.op
  simp only
  rcases hCases with ⟨e, _, hLeads⟩ | ⟨_, hLeads⟩
  · rw [hLeads.run]
    exact hStatus
  · obtain ⟨reviewers, hReceive⟩ := receiveDocument_of_reviewers runId hReviewers
    rw [hLeads.run, hReceive]
    rcases status_requestReviews node port reviewers
      (by rw [hRun']; rfl : (w'.getRun runId).isSome = true) node port with h' | ⟨_, _, h'⟩
    · rwa [h']
    · exact .inr h'

theorem Condemned.call {c : Call} (h : Condemned runId node port w)
    (hReviewers : agentReviewers flow node port ≠ []) (hc : c.reviews node port = true) :
    Condemned runId node port (c.step flow runId w) := by
  cases c with
  | submitted node' port' sha revision =>
    obtain ⟨rfl, rfl⟩ : node' = node ∧ port' = port := by simpa [Call.reviews] using hc
    exact h.submitted hReviewers sha revision
  | verdict node' port' reviewer vote comments =>
    obtain ⟨rfl, rfl⟩ : node' = node ∧ port' = port := by
      simpa [Call.reviews, Call.judges] using hc
    exact (h.verdict flow reviewer vote comments).1
  | _ => cases hc

theorem Condemned.play (h : Condemned runId node port w)
    (hReviewers : agentReviewers flow node port ≠ []) {calls : List Call}
    (hCalls : ∀ c ∈ calls, c.reviews node port = true) :
    Condemned runId node port (History.play (Call.step flow runId) w calls) := by
  induction calls generalizing w with
  | nil => exact h
  | cons c calls ih =>
    exact ih (h.call hReviewers (hCalls c List.mem_cons_self)) fun c' hc' =>
      hCalls c' (List.mem_cons_of_mem _ hc')

/-- After a round that ended in a rejection, no round is fresh, whatever its verdicts. -/
theorem not_freshRound_of_rejects (flow : FlowDefinition) (runId node port : String)
    (w : FlowRuntime) (c : Call) (calls : List Call)
    (hReviewers : agentReviewers flow node port ≠ []) (hRejects : Rejects flow runId node port w c)
    (hCalls : ∀ c ∈ calls, c.reviews node port = true) :
    ¬FreshRound flow runId node port (c.step flow runId w) calls := by
  rintro ⟨hDecided, _⟩
  have hCondemned := hRejects.condemned
  split at hDecided
  · obtain ⟨pre, c', post, rfl, hJudges, hPending⟩ := hDecided
    obtain ⟨reviewer, vote, comments, rfl⟩ := judges_iff.mp hJudges
    have hPre := hCondemned.play hReviewers fun c hc => hCalls c (List.mem_append_left _ hc)
    exact (hPre.verdict flow reviewer vote comments).2 hPending
  · rcases (hCondemned.play hReviewers hCalls).status with h | h <;> simp [h] at hDecided

def reviewNodes : List FlowNode :=
  [{ id := "writer", owner := "writer", outputs :=
      [{ port := "draft", reviewers := ["critic", "editor"] },
       { port := "memo", reviewers := ["critic", "human"] }] }]

def reviewFlow : FlowDefinition :=
  .ofNodes "review" ["critic", "editor"] reviewNodes "flow.yaml" (by decide)

def submittedRun (port : String) : FlowRuntime :=
  afterCalls reviewFlow "run" "brief" emptyRuntime [.submitted "writer" port "" 1]

def verdictOn (port reviewer : String) (vote : ReviewVerdict) : Call :=
  .verdict "writer" port reviewer vote []

def secondRound : List Call :=
  [.submitted "writer" "draft" "" 2, verdictOn "draft" "critic" .approve,
    verdictOn "draft" "editor" .approve]

/-- The second round of a draft that was rejected in the first. -/
theorem draft_not_freshRound : ¬FreshRound reviewFlow "run" "writer" "draft"
    ((verdictOn "draft" "critic" .reject).step reviewFlow "run" (submittedRun "draft"))
    secondRound :=
  not_freshRound_of_rejects reviewFlow "run" "writer" "draft" (submittedRun "draft")
    (verdictOn "draft" "critic" .reject) secondRound (by decide) (by unfold Rejects; decide)
    (by decide)

/-- Approved by both reviewers in its second round, the draft is still not approved. -/
theorem draft_rejected_again :
    ¬(Rejects reviewFlow "run" "writer" "draft" (submittedRun "draft")
        (verdictOn "draft" "critic" .reject) →
      FreshRound reviewFlow "run" "writer" "draft"
        ((verdictOn "draft" "critic" .reject).step reviewFlow "run" (submittedRun "draft"))
        secondRound) := by
  intro h
  have hApproved := (h (by unfold Rejects; decide)).1
  rw [if_neg (by decide)] at hApproved
  exact absurd hApproved (by decide)

/-- The votes on the port, in order. -/
def votesOn (node port : String) (calls : List Call) : List (String × ReviewVerdict) :=
  calls.filterMap fun
    | .verdict node' port' reviewer vote _ =>
      if node' = node && port' = port then some (reviewer, vote) else none
    | _ => none

theorem onReviewerVerdict_good (hw : w.Good runId) (flow : FlowDefinition) (node port reviewer : String)
    (vote : ReviewVerdict) (comments : List ReviewComment) :
    ∃ s w', w.getRun runId = some s ∧ w'.Good runId ∧
      w'.getRun runId = some (s.recordVerdict (verdictKey runId node port) reviewer vote) ∧
      Leads w (onReviewerVerdict runId node port reviewer vote comments flow) w'
        (settleVerdict runId node port flow
          (Ballot.record (s.verdicts (verdictKey runId node port)) reviewer vote)) := by
  obtain ⟨s, hRun⟩ := hw.run
  rcases onReviewerVerdict_leads reviewer vote comments flow node port hRun with
    ⟨hUnhealthy, _⟩ | ⟨w', hRun', hLeads⟩
  · exact absurd hw.1 hUnhealthy
  · exact ⟨s, w', hRun, ⟨hLeads.healthy hw.1, by rw [hRun']; rfl⟩, hRun', hLeads⟩

theorem verdicts_verdict (hw : w.Good runId) (flow : FlowDefinition) (node port reviewer : String)
    (vote : ReviewVerdict) (comments : List ReviewComment) :
    ((Call.verdict node port reviewer vote comments).step flow runId w).verdicts runId
        (verdictKey runId node port) =
      Ballot.record (w.verdicts runId (verdictKey runId node port)) reviewer vote := by
  obtain ⟨s, w', hRun, hw', hRun', hLeads⟩ :=
    onReviewerVerdict_good hw flow node port reviewer vote comments
  rw [step_verdict, hLeads.run, verdicts_settleVerdict hw'.2, FlowRuntime.verdicts_of_getRun hRun',
    FlowRuntime.verdicts_of_getRun hRun, FlowRunState.verdicts_recordVerdict, if_pos rfl]

/-- A late verdict changes nothing and leads to no invocation. -/
def Harmless (flow : FlowDefinition) (runId node port : String) (w : FlowRuntime) (c : Call) :
    Prop :=
  (c.step flow runId w).portStatus runId node port = w.portStatus runId node port ∧
    ∀ e ∈ c.trace flow runId w, ∀ trigger, e.1 ≠ .recordInvocation runId node trigger

theorem settleVerdict_of_approved (flow : FlowDefinition)
    {verdicts : List (String × ReviewVerdict)}
    (hVeto : ¬Ballot.Vetoed .reject verdicts) (h : w.portStatus runId node port = .approved) :
    ((settleVerdict runId node port flow verdicts).run w).2 = w ∧
      Idle ((settleVerdict runId node port flow verdicts).trace w) := by
  obtain ⟨hRun, hTrace⟩ := onDocumentApproved_of_approved flow h
  rw [settleVerdict, if_neg hVeto]
  split
  · split
    · exact ⟨rfl, idle_nil⟩
    · rw [Prog.run_map_snd, Prog.trace_map, hRun, hTrace]
      exact ⟨rfl, idle_cons.mpr ⟨rfl, idle_nil⟩⟩
  · exact ⟨rfl, idle_nil⟩

theorem onRejectedRequeue_status (hw : w.Good runId) :
    ((onRejectedRequeue runId node port flow).run w).2.portStatus runId node port = .pending := by
  obtain ⟨_, _, hEvents, _⟩ := (onRejectedRequeue_achieves node port flow).run Good.apply hw
  rw [Prog.run_snd, portStatus_after hw.2, hEvents]
  simp

theorem verdict_harmless_iff (hw : w.Good runId) (h : w.portStatus runId node port = .approved)
    (flow : FlowDefinition) (reviewer : String) (vote : ReviewVerdict)
    (comments : List ReviewComment) :
    Harmless flow runId node port w (.verdict node port reviewer vote comments) ↔
      ¬Ballot.Vetoed .reject
        (Ballot.record (w.verdicts runId (verdictKey runId node port)) reviewer vote) := by
  obtain ⟨s, w', hRun, hw', hRun', hLeads⟩ :=
    onReviewerVerdict_good hw flow node port reviewer vote comments
  have hStatus := (portStatus_of_recordVerdict hRun hRun' node port).trans h
  unfold Harmless
  rw [step_verdict, trace_verdict, h, hLeads.run, FlowRuntime.verdicts_of_getRun hRun]
  constructor
  · rintro ⟨hSame, _⟩ hVeto
    rw [settleVerdict_of_vetoed hVeto, Prog.run_map_snd, onRejectedRequeue_status hw'] at hSame
    cases hSame
  · intro hVeto
    obtain ⟨hState, hIdle⟩ := settleVerdict_of_approved flow hVeto hStatus
    obtain ⟨pre, hPre, hTrace⟩ := hLeads.trace
    refine ⟨by rw [hState, hStatus], fun e he trigger hAct => ?_⟩
    rw [hTrace] at he
    have := idle_append.mpr ⟨hPre, hIdle⟩ e he
    rw [hAct] at this
    cases this

/-- After the approval of a port, every later verdict on it is harmless if and only if no rejection
is among the votes counted for it, before the approval or after. -/
theorem harmless_iff (flow : FlowDefinition) (runId node port : String) (w : FlowRuntime)
    (calls : List Call) (hw : w.Good runId) (hApproved : w.portStatus runId node port = .approved)
    (hCalls : ∀ c ∈ calls, c.judges node port = true ∨ c = .approved node port) :
    History.Each (Call.step flow runId) (Harmless flow runId node port) w calls ↔
      votesOn node port calls = [] ∨ ¬Ballot.Vetoed .reject (Ballot.recordAll
        (w.verdicts runId (verdictKey runId node port)) (votesOn node port calls)) := by
  induction calls generalizing w with
  | nil => simp [History.Each, votesOn]
  | cons c calls ih =>
    have hRest := fun c' hc' => hCalls c' (List.mem_cons_of_mem c hc')
    rw [History.Each]
    rcases hCalls c List.mem_cons_self with hJudges | rfl
    · obtain ⟨reviewer, vote, comments, rfl⟩ := judges_iff.mp hJudges
      have hVotes : votesOn node port (.verdict node port reviewer vote comments :: calls) =
          (reviewer, vote) :: votesOn node port calls := by simp [votesOn]
      have hTally := verdicts_verdict hw flow node port reviewer vote comments
      rw [hVotes, Ballot.recordAll_cons, verdict_harmless_iff hw hApproved]
      by_cases hVeto : Ballot.Vetoed .reject
        (Ballot.record (w.verdicts runId (verdictKey runId node port)) reviewer vote)
      · simp [hVeto, hVeto.recordAll]
      · have hHarmless := (verdict_harmless_iff hw hApproved flow reviewer vote comments).mpr hVeto
        rw [ih _ (hw.step _) (hHarmless.1.trans hApproved) hRest, hTally]
        simp only [hVeto, not_false_eq_true, true_and, List.cons_ne_nil, false_or]
        -- a tally without later votes is the one that this verdict left
        constructor
        · rintro (hNone | h)
          · rwa [hNone, Ballot.recordAll_nil]
          · exact h
        · exact .inr
    · obtain ⟨hRun, hTrace⟩ := onDocumentApproved_of_approved flow hApproved
      have hStep : (Call.approved node port).step flow runId w = w := by
        rw [Call.step, Call.op, hRun]
      have hHarmless : Harmless flow runId node port w (.approved node port) := by
        refine ⟨by rw [hStep], fun e he trigger hAct => ?_⟩
        rw [Call.trace, Call.op, hTrace, List.mem_singleton] at he
        rw [he] at hAct
        cases hAct
      have hVotes : votesOn node port (.approved node port :: calls) = votesOn node port calls := by
        simp [votesOn]
      rw [hVotes, hStep, ih w hw hApproved hRest]
      simp [hHarmless]

def approvedMemo : FlowRuntime :=
  (Call.approved "writer" "memo").step reviewFlow "run" (submittedRun "memo")

/-- Two verdicts that come after the human's approval. -/
theorem memo_harmless : History.Each (Call.step reviewFlow "run")
    (Harmless reviewFlow "run" "writer" "memo") approvedMemo
    [verdictOn "memo" "critic" .approve, .approved "writer" "memo"] :=
  (harmless_iff reviewFlow "run" "writer" "memo" approvedMemo _ (by decide) (by decide)
    (by decide)).mpr (.inr (by decide))

/-- A rejection that comes after the human's approval takes the approval back. -/
theorem memo_not_harmless : ¬(approvedMemo.portStatus "run" "writer" "memo" = .approved →
    Harmless reviewFlow "run" "writer" "memo" approvedMemo (verdictOn "memo" "critic" .reject)) := by
  intro h
  exact absurd (h (by decide)).1 (by decide)

theorem requeues_verdict (hw : w.Good runId) (flow : FlowDefinition) (node port reviewer : String)
    (vote : ReviewVerdict) (comments : List ReviewComment) :
    invocationCount runId node .rejectedRequeue
        ((Call.verdict node port reviewer vote comments).step flow runId w) =
      invocationCount runId node .rejectedRequeue w +
        if Ballot.Vetoed .reject
          (Ballot.record (w.verdicts runId (verdictKey runId node port)) reviewer vote)
        then 1 else 0 := by
  obtain ⟨s, w', hRun, hw', hRun', hLeads⟩ :=
    onReviewerVerdict_good hw flow node port reviewer vote comments
  have hSame : invocationCount runId node .rejectedRequeue w' =
      invocationCount runId node .rejectedRequeue w := by
    simp only [invocationCount, hRun, hRun']
    rfl
  rw [step_verdict, hLeads.run, FlowRuntime.verdicts_of_getRun hRun, ← hSame]
  by_cases hVeto : Ballot.Vetoed .reject
    (Ballot.record (s.verdicts (verdictKey runId node port)) reviewer vote)
  · obtain ⟨_, _, hEvents, _⟩ := (onRejectedRequeue_achieves node port flow).run Good.apply hw'
    have hOnly := (onRejectedRequeue_only runId node port flow).trace w'
    rw [if_pos hVeto, settleVerdict_of_vetoed hVeto, Prog.run_map_snd, Prog.run_snd,
      invocationCount_after hw'.2, countP_events Act.isEvent_of_invokes, hEvents]
    · simp [Act.invokes, rejectedRequeueTrigger]
    · rintro e he state hAct
      rcases hOnly e he with h | h | h <;> rw [hAct] at h <;> cases h
  · have hOnly := (settleVerdict_only runId node port flow hVeto).trace w'
    rw [if_neg hVeto, Prog.run_snd, invocationCount_after hw'.2]
    · rw [List.countP_eq_zero.mpr fun e he => by simp [(hOnly e he).not_invokes]]
    · exact fun e he state => (hOnly e he).not_register state

theorem requeues_verdicts (hw : w.Good runId) {calls : List Call}
    (hCalls : ∀ c ∈ calls, c.judges node port = true) :
    invocationCount runId node .rejectedRequeue (History.play (Call.step flow runId) w calls) =
      invocationCount runId node .rejectedRequeue w + Ballot.vetoedVotes .reject
        (w.verdicts runId (verdictKey runId node port)) (votesOn node port calls) := by
  induction calls generalizing w with
  | nil => rfl
  | cons c calls ih =>
    obtain ⟨reviewer, vote, comments, rfl⟩ := judges_iff.mp (hCalls c List.mem_cons_self)
    have hVotes : votesOn node port (.verdict node port reviewer vote comments :: calls) =
        (reviewer, vote) :: votesOn node port calls := by simp [votesOn]
    rw [History.play_cons, ih (hw.step _) fun c hc => hCalls c (List.mem_cons_of_mem _ hc),
      requeues_verdict hw, verdicts_verdict hw, hVotes, Ballot.vetoedVotes]
    exact Nat.add_assoc _ _ _

/-- The verdicts of a round invoke the producing node at most once for a rejection if and only if
there is at most one verdict, or the tally holds no rejection when the last of them comes. -/
theorem requeues_le_one_iff (flow : FlowDefinition) (runId node port : String) (w : FlowRuntime)
    (calls : List Call) (hw : w.Good runId) (hCalls : ∀ c ∈ calls, c.judges node port = true) :
    invocationCount runId node .rejectedRequeue (History.play (Call.step flow runId) w calls) ≤
        invocationCount runId node .rejectedRequeue w + 1 ↔
      (votesOn node port calls).length ≤ 1 ∨ ¬Ballot.Vetoed .reject (Ballot.recordAll
        (w.verdicts runId (verdictKey runId node port)) (votesOn node port calls).dropLast) := by
  rw [requeues_verdicts hw hCalls, Nat.add_le_add_iff_left, Ballot.vetoedVotes_le_one_iff]

/-- An approval and a rejection in one round. -/
theorem draft_requeued_once : invocationCount "run" "writer" .rejectedRequeue
    (History.play (Call.step reviewFlow "run") (submittedRun "draft")
      [verdictOn "draft" "critic" .approve, verdictOn "draft" "editor" .reject]) ≤ 0 + 1 :=
  (requeues_le_one_iff reviewFlow "run" "writer" "draft" (submittedRun "draft") _ (by decide)
    (by decide)).mpr (.inr (by decide))

/-- The second verdict invokes the writer again, though it approves the draft. -/
theorem draft_requeued_twice : ¬invocationCount "run" "writer" .rejectedRequeue
    (History.play (Call.step reviewFlow "run") (submittedRun "draft")
      [verdictOn "draft" "critic" .reject, verdictOn "draft" "editor" .approve]) ≤ 1 := by
  decide

end Cronymax.Flow
