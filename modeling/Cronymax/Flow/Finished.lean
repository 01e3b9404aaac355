import Cronymax.Flow.Cycles
import Cronymax.Flow.Quorum

/-! Finished runs.  Only `transition_run` asks whether a run is finished: where the run stands never
changes again, but every other call treats the ports of a finished run like those of a running
one. -/

namespace Cronymax.Flow

open Atomic FlowRuntime

variable {flow : FlowDefinition} {runId node port : String} {w : FlowRuntime} {s : FlowRunState}

theorem lifecycle_call (flow : FlowDefinition) (c : Call) (hRun : w.getRun runId = some s)
    (hTerminal : s.status.isTerminal = true) :
    ∃ s', (c.step flow runId w).getRun runId = some s' ∧ s'.lifecycle = s.lifecycle := by
  refine (c.op_only flow runId).run_preserves (I := fun t : FlowRuntime => ∃ s',
    t.getRun runId = some s' ∧ s'.lifecycle = s.lifecycle) (fun a ha t ht => ?_) ⟨s, hRun, rfl⟩
  obtain ⟨s', hs', hSame⟩ := ht
  refine ⟨_, a.getRun_apply hs', ?_⟩
  rcases ha.cases with h | ⟨_, _, _, rfl⟩ | ⟨_, _, _, rfl⟩ | ⟨_, status, reason, rfl⟩
  · exact (a.lifecycle_onRun (a.isPlain_iff.mp h).2.2 runId t.now s').trans hSame
  · exact (Act.lifecycle_onRun rfl runId t.now s').trans hSame
  · exact (Act.lifecycle_onRun rfl runId t.now s').trans hSame
  · have hStatus : s'.status = s.status := congrArg Prod.fst hSame
    rw [Act.onRun, Act.target, if_pos rfl, Act.change,
      s'.transition_of_terminal (by rw [hStatus]; exact hTerminal)]
    exact hSame

theorem lifecycle_play (flow : FlowDefinition) (calls : List Call) (hRun : w.getRun runId = some s)
    (hTerminal : s.status.isTerminal = true) :
    ∃ s', (History.play (Call.step flow runId) w calls).getRun runId = some s' ∧
      s'.lifecycle = s.lifecycle := by
  induction calls generalizing w s with
  | nil => exact ⟨s, hRun, rfl⟩
  | cons c calls ih =>
    obtain ⟨s1, hRun1, hSame1⟩ := lifecycle_call flow c hRun hTerminal
    have hStatus : s1.status = s.status := congrArg Prod.fst hSame1
    obtain ⟨s', hRun', hSame⟩ := ih hRun1 (by rw [hStatus]; exact hTerminal)
    exact ⟨s', hRun', hSame.trans hSame1⟩

/-- No section of the trace changes a port. -/
def Still (runId : String) (tr : List (Act × FlowRuntime)) : Prop :=
  ∀ e ∈ tr, ∀ node port,
    (e.1.apply e.2).portStatus runId node port = e.2.portStatus runId node port

@[simp] theorem still_nil : Still runId [] := by simp [Still]

@[simp] theorem still_append {tr tr' : List (Act × FlowRuntime)} :
    Still runId (tr ++ tr') ↔ Still runId tr ∧ Still runId tr' := by
  simp [Still, or_imp, forall_and]

theorem still_cons {a : Act} {t : FlowRuntime} {tr : List (Act × FlowRuntime)} :
    Still runId ((a, t) :: tr) ↔ (∀ node port, (a.apply t).portStatus runId node port =
      t.portStatus runId node port) ∧ Still runId tr := by
  simp [Still]

theorem Idle.still {tr : List (Act × FlowRuntime)} (h : Idle tr) : Still runId tr :=
  fun e he node port => Act.portStatus_apply_of_not_deed (h e he) e.2 runId node port

theorem Still.portStatus {tr : List (Act × FlowRuntime)} (h : Still runId tr)
    (hChain : Prog.Chained w tr) (node port : String) :
    (Prog.after w tr).portStatus runId node port = w.portStatus runId node port := by
  induction tr generalizing w with
  | nil => rfl
  | cons e tr ih =>
    obtain ⟨a, t⟩ := e
    obtain ⟨rfl, hChain⟩ := hChain
    obtain ⟨hFirst, hRest⟩ := still_cons.mp h
    exact (ih hRest hChain).trans (hFirst node port)

theorem still_of_keeps {tr : List (Act × FlowRuntime)} (hRun : (w.getRun runId).isSome = true)
    (hChain : Prog.Chained w tr) (hKeeps : ∀ e ∈ tr, ∀ node port,
      e.1.newStatus runId node port (w.portStatus runId node port) =
        w.portStatus runId node port) : Still runId tr := by
  induction tr generalizing w with
  | nil => exact still_nil
  | cons e tr ih =>
    obtain ⟨a, t⟩ := e
    obtain ⟨rfl, hChain⟩ := hChain
    have hFirst (node port : String) :
        (a.apply t).portStatus runId node port = t.portStatus runId node port :=
      (a.portStatus_apply hRun node port).trans (hKeeps _ List.mem_cons_self node port)
    refine still_cons.mpr ⟨hFirst, ih (a.isSome_apply hRun) hChain fun e' he' node port => ?_⟩
    rw [hFirst node port]
    exact hKeeps e' (List.mem_cons_of_mem _ he') node port

/-- The operation leaves the run as it is and returns no context. -/
@[grind =] def Silent (runId : String) (p : Op (List InvocationContext)) (w : FlowRuntime) : Prop :=
  Still runId (p.trace w) ∧ ∀ ctxs, (p.run w).1 = .ok ctxs → ctxs = []

theorem Leads.silent {p q : Op (List InvocationContext)} {w' : FlowRuntime} (h : Leads w p w' q) :
    Silent runId p w ↔ Silent runId q w' := by
  obtain ⟨pre, hPre, hTrace⟩ := h.trace
  rw [Silent, Silent, h.run, hTrace, still_append, and_iff_right hPre.still]

theorem silent_fail (e : FlowError) (w : FlowRuntime) : Silent runId (.fail e) w :=
  ⟨still_nil, fun _ h => nomatch h⟩

theorem not_silent_of_ok {p : Op (List InvocationContext)} {ctxs : List InvocationContext}
    (hOk : (p.run w).1 = .ok ctxs) (hSome : ctxs ≠ []) : ¬Silent runId p w :=
  fun h => hSome (h.2 ctxs hOk)

theorem silent_pure_nil {α : Type} (p : Op α) (w : FlowRuntime) :
    Silent runId (p >>= fun _ => pure []) w ↔ Still runId (p.trace w) := by
  rw [Silent, Prog.trace_map]
  refine and_iff_left fun ctxs hOk => ?_
  rw [Prog.run_bind] at hOk
  cases hRun : p.run w with
  | mk r t =>
    rw [hRun] at hOk
    cases r with
    | ok _ => exact (Except.ok.inj hOk).symm
    | error _ => cases hOk

/-- The call changes no port and asks for no invocation. -/
def Frozen (flow : FlowDefinition) (runId : String) (w : FlowRuntime) (c : Call) : Prop :=
  Still runId (c.trace flow runId w) ∧ c.contexts flow runId w = []

theorem frozen_iff_silent {c : Call} :
    Frozen flow runId w c ↔ Silent runId (c.op flow runId) w := by
  rw [Frozen, Silent, Call.contexts, Call.trace]
  cases ((c.op flow runId).run w).1 with
  | ok ctxs => simp
  | error e => simp

/-- Nothing is left for the call to do on the run. -/
def Inert (flow : FlowDefinition) (runId : String) (w : FlowRuntime) : Call → Prop
  | .submitted node port _ _ => overLimit flow runId node port w = true ∨
    listedReviewers flow node port = [] ∧
      w.portStatus runId node port = .approved
  | .approved node port => w.portStatus runId node port = .approved
  | .verdict node port reviewer vote _ =>
    let verdicts := Ballot.record (w.verdicts runId (verdictKey runId node port)) reviewer vote
    if Ballot.Vetoed .reject verdicts then
      w.portStatus runId node port = .pending ∧ flow.node node = none
    else (agentReviewers flow node port).length ≤ verdicts.length →
      hasHumanReviewer flow node port = false ∧ w.portStatus runId node port = .approved
  | .rejected node port => w.portStatus runId node port = .pending ∧ flow.node node = none
  | .seeded seeds => ∀ seed ∈ seeds, ∀ node port,
    flow.findOutputByBlackboardKey seed.1 = some (node, port) →
      w.portStatus runId node port = .seeded
  | .mark node port status =>
    w.portStatus runId node port = .approved ∨ w.portStatus runId node port = status
  | .cancel | .complete | .fail _ => True

theorem approved_silent_iff (node port : String) (flow : FlowDefinition)
    (hRun : (w.getRun runId).isSome = true) :
    Silent runId (onDocumentApproved runId node port flow) w ↔
      w.portStatus runId node port = .approved := by
  constructor
  · rintro ⟨hStill, _⟩
    by_contra hNot
    obtain ⟨tr, hTrace⟩ := cascadeApproval_trace runId node port flow w
    rw [(onDocumentApproved_of_not_approved flow hNot).2, hTrace] at hStill
    have hSame := (still_cons.mp (still_cons.mp hStill).2).1 node port
    rw [Act.portStatus_apply _ hRun, Act.newStatus_markPortStatus, if_pos ⟨rfl, rfl, rfl, hNot⟩]
      at hSame
    exact hNot hSame.symm
  · intro hApproved
    obtain ⟨hGuard, hTrace⟩ := onDocumentApproved_of_approved flow hApproved
    rw [Silent, hGuard, hTrace]
    exact ⟨Idle.still (idle_cons.mpr ⟨rfl, idle_nil⟩), fun _ h => (Except.ok.inj h).symm⟩

theorem rejected_trace (flow : FlowDefinition) (runId node port : String) (w : FlowRuntime) :
    ∃ tr, ((Call.rejected node port).op flow runId).trace w =
      (.markPortStatusUnchecked runId node port .pending, w) :: tr :=
  ⟨_, rfl⟩

theorem rejected_silent_iff (node port : String) (flow : FlowDefinition) (hw : w.Good runId) :
    Silent runId ((Call.rejected node port).op flow runId) w ↔
      w.portStatus runId node port = .pending ∧ flow.node node = none := by
  obtain ⟨ctx, hOk, _, hKey⟩ := (onRejectedRequeue_achieves node port flow).run Good.apply hw
  have hRun : (((Call.rejected node port).op flow runId).run w).1 = .ok ctx.toList := by
    rw [Call.op, Prog.run_bind_of_ok hOk]
    rfl
  have hNone : ctx.toList = [] ↔ flow.node node = none := by
    have hIff := congrArg (· = none) hKey
    simpa using hIff
  constructor
  · rintro ⟨hStill, hCtxs⟩
    refine ⟨?_, hNone.mp (hCtxs _ hRun)⟩
    obtain ⟨tr, hTrace⟩ := rejected_trace flow runId node port w
    rw [hTrace] at hStill
    have hSame := (still_cons.mp hStill).1 node port
    rw [Act.portStatus_apply _ hw.2] at hSame
    simpa using hSame.symm
  · rintro ⟨hPending, hNode⟩
    refine ⟨still_of_keeps hw.2 (Prog.trace_chained _ w) fun e he node' port' => ?_,
      fun ctxs hCtxs => ?_⟩
    · have hAct := ((Call.rejected node port).op_only flow runId).trace w e he
      rcases Requeues.newStatus hAct node' port' (w.portStatus runId node' port') with
        h | ⟨⟨rfl, rfl⟩, h⟩
      · exact h
      · rw [h, hPending]
    · rw [hRun] at hCtxs
      exact (Except.ok.inj hCtxs).symm.trans (hNone.mpr hNode)

theorem reviewContexts_ne_nil (node port docPath : String) {reviewers : List String}
    (h : reviewers ≠ []) : reviewContexts node port docPath reviewers ≠ [] := by
  obtain ⟨reviewer, hMem⟩ := List.exists_mem_of_ne_nil reviewers h
  intro hNil
  obtain ⟨hAgents, hHuman⟩ := List.append_eq_nil_iff.mp hNil
  by_cases hReviewer : reviewer = "human"
  · subst hReviewer
    simp [hMem] at hHuman
  · have : reviewer ∈ reviewers.filter (· ≠ "human") := by simp [hMem, hReviewer]
    rw [List.map_eq_nil_iff.mp hAgents] at this
    cases this

theorem requestReviews_run (node port : String) (reviewers : List String) (hw : w.Good runId) :
    ∃ docPath, ((requestReviews runId node port reviewers).run w).1 =
      .ok (reviewContexts node port docPath reviewers) := by
  obtain ⟨_, hMark, _⟩ := (markPortStatus_achieves node port .inReview).run Good.apply hw
  rw [requestReviews, Prog.run_bind_of_ok hMark]
  exact ⟨_, rfl⟩

theorem received_silent_iff (node port : String) (flow : FlowDefinition) (hw : w.Good runId) :
    Silent runId (receiveDocument runId node port flow) w ↔
      listedReviewers flow node port = [] ∧
        w.portStatus runId node port = .approved := by
  rw [receiveDocument_eq]
  by_cases hReviewers : listedReviewers flow node port = []
  · simp only [hReviewers, if_true, true_and]
    exact approved_silent_iff node port flow hw.2
  · simp only [hReviewers, if_false, false_and, iff_false]
    obtain ⟨docPath, hOk⟩ := requestReviews_run node port _ hw
    exact not_silent_of_ok hOk (reviewContexts_ne_nil node port docPath hReviewers)

theorem submitted_silent_iff (node port sha : String) (revision : UInt32) (flow : FlowDefinition)
    (hw : w.Good runId) :
    Silent runId (onDocumentSubmitted runId node port flow sha revision) w ↔
      overLimit flow runId node port w = true ∨
        listedReviewers flow node port = [] ∧
          w.portStatus runId node port = .approved := by
  obtain ⟨s, hRun⟩ := hw.run
  have hLimit : overLimit flow runId node port w = exhausted flow node port s := by
    simp [overLimit, hRun]
  obtain ⟨w', hRun', ⟨e, hExhausted, hLeads⟩ | ⟨hWithin, hLeads⟩⟩ :=
    onDocumentSubmitted_leads flow node port sha revision hRun
  · exact iff_of_true (hLeads.silent.mpr (silent_fail e w')) (.inl (hLimit.trans (hExhausted hw.1)))
  · have hSame : w'.portStatus runId node port = w.portStatus runId node port :=
      portStatus_of_counted hRun hRun' _ _
    rw [hLeads.silent, received_silent_iff node port flow ⟨hLeads.healthy hw.1, by rw [hRun']; rfl⟩,
      hSame, hLimit, hWithin]
    simp

theorem settled_silent_iff (node port : String) (flow : FlowDefinition) (hw : w.Good runId)
    (verdicts : List (String × ReviewVerdict)) :
    Silent runId (settleVerdict runId node port flow verdicts >>= fun ctxs => pure (ctxs.getD [])) w ↔
      if Ballot.Vetoed .reject verdicts then
        w.portStatus runId node port = .pending ∧ flow.node node = none
      else (agentReviewers flow node port).length ≤ verdicts.length →
        hasHumanReviewer flow node port = false ∧ w.portStatus runId node port = .approved := by
  by_cases hVeto : Ballot.Vetoed .reject verdicts
  · rw [if_pos hVeto, settleVerdict_of_vetoed hVeto, bind_assoc]
    exact rejected_silent_iff node port flow hw
  · rw [if_neg hVeto, settleVerdict, if_neg hVeto]
    by_cases hQuorum : (agentReviewers flow node port).length ≤ verdicts.length
    · rw [if_pos hQuorum]
      by_cases hHuman : hasHumanReviewer flow node port = true
      · rw [if_pos hHuman]
        refine iff_of_false (not_silent_of_ok rfl (List.cons_ne_nil _ _)) fun h => ?_
        exact absurd (h hQuorum).1 (by simp [hHuman])
      · rw [if_neg hHuman, bind_assoc]
        simp only [hHuman, hQuorum, true_imp_iff, true_and]
        exact (bind_pure (onDocumentApproved runId node port flow)).symm ▸
          approved_silent_iff node port flow hw.2
    · rw [if_neg hQuorum]
      exact iff_of_true ⟨still_nil, fun _ h => (Except.ok.inj h).symm⟩ fun h => absurd h hQuorum

theorem seededChecks_idle (flow : FlowDefinition) (hw : w.Good runId)
    (hSeeded : w.portStatus runId node port = .seeded) :
    Idle ((fireAndJoinFor node port runId flow).trace w) := by
  obtain ⟨s, hRun⟩ := hw.run
  obtain ⟨_, _, _, hEvents⟩ := fireAndJoinFor_run node port flow hw hRun
  rw [FlowRuntime.portStatus_of_getRun hRun] at hSeeded
  rw [readyNodes_of_seeded hSeeded] at hEvents
  intro e he
  by_contra hDeed
  have hDeed : e.1.isDeed = true := by simpa using hDeed
  have hEvent : e.1.isEvent = true := by
    cases hAct : e.1 <;> first | rfl | (rw [hAct] at hDeed; cases hDeed)
  have hMem := (hEvents e.1 fun runId' h => by rw [h] at hDeed; cases hDeed).mp
    ((mem_events hEvent).mp ⟨e, he, rfl⟩)
  cases hMem

theorem seededEntry_still_iff (flow : FlowDefinition) (seed : String × BlackboardEntry)
    (hw : w.Good runId) : Still runId ((applySeededEntry runId flow seed).trace w) ↔
      ∀ node port, flow.findOutputByBlackboardKey seed.1 = some (node, port) →
        w.portStatus runId node port = .seeded := by
  have hWritten := hw.run_snd (writeBlackboardEntry runId seed.1 seed.2)
  have hWriteIdle : Idle ((writeBlackboardEntry runId seed.1 seed.2).trace w) :=
    idle_cons.mpr ⟨rfl, idle_nil⟩
  have hWriteStatus (node port : String) :
      ((writeBlackboardEntry runId seed.1 seed.2).run w).2.portStatus runId node port =
        w.portStatus runId node port := by
    rw [Prog.run_snd]
    exact hWriteIdle.still.portStatus (Prog.trace_chained _ w) node port
  rw [applySeededEntry, Prog.trace_bind_of_ok rfl, still_append, and_iff_right hWriteIdle.still]
  generalize ((writeBlackboardEntry runId seed.1 seed.2).run w).2 = w1 at hWritten hWriteStatus
  cases hKey : flow.findOutputByBlackboardKey seed.1 with
  | none => simp [Prog.trace]
  | some output =>
    obtain ⟨node, port⟩ := output
    obtain ⟨hMark, hSeeded⟩ := markSeeded_run node port hWritten
    have hMarked := hWritten.run_snd (markPortStatusUnchecked runId node port .seeded)
    have hOnly := (markPortStatusUnchecked_only runId node port .seeded).trace w1
    simp only [Option.some.injEq, Prod.mk.injEq, and_imp]
    rw [Prog.trace_bind_of_ok hMark, still_append]
    constructor
    · rintro ⟨hStill, _⟩ node' port' rfl rfl
      rw [← hWriteStatus, ← hStill.portStatus (Prog.trace_chained _ w1), ← Prog.run_snd]
      exact hSeeded
    · intro h
      have hBefore := (hWriteStatus node port).trans (h node port rfl rfl)
      refine ⟨still_of_keeps hWritten.2 (Prog.trace_chained _ w1) fun e he node' port' => ?_, ?_⟩
      · rcases hOnly e he with h | h
        · exact Act.newStatus_of_not_deed h.not_deed runId node' port' _
        · rw [h, Act.newStatus_markPortStatusUnchecked]
          split
          · rename_i hPort
            rw [hPort.2.1, hPort.2.2, hBefore]
          · rfl
      · exact (seededChecks_idle flow hMarked hSeeded).still

theorem seeded_still_iff (flow : FlowDefinition) (seeds : List (String × BlackboardEntry))
    (hw : w.Good runId) : Still runId ((applySeededEntries runId flow seeds).trace w) ↔
      ∀ seed ∈ seeds, ∀ node port,
        flow.findOutputByBlackboardKey seed.1 = some (node, port) →
          w.portStatus runId node port = .seeded := by
  induction seeds generalizing w with
  | nil => simp [applySeededEntries, Prog.collect, Prog.trace]
  | cons seed seeds ih =>
    have hFirst := applySeededEntry_run flow seed hw
    rw [applySeededEntries_cons, Prog.trace_bind_of_ok hFirst, Prog.trace_map, still_append,
      List.forall_mem_cons, ← seededEntry_still_iff flow seed hw,
      ih (hw.run_snd (applySeededEntry runId flow seed))]
    refine and_congr_right fun hStill => ?_
    have hSame := hStill.portStatus (Prog.trace_chained _ w)
    simp only [Prog.run_snd, hSame]

theorem marked_still_iff (node port : String) (status : PortStatus) (hw : w.Good runId) :
    Still runId ((markPortStatus runId node port status).trace w) ↔
      w.portStatus runId node port = .approved ∨ w.portStatus runId node port = status := by
  have hOnly := (markPortStatus_only runId node port status).trace w
  constructor
  · intro hStill
    have hSame := hStill (.markPortStatus runId node port status, w) List.mem_cons_self node port
    rw [Act.portStatus_apply _ hw.2, Act.newStatus_markPortStatus] at hSame
    by_cases hApproved : w.portStatus runId node port = .approved
    · exact .inl hApproved
    · rw [if_pos ⟨rfl, rfl, rfl, hApproved⟩] at hSame
      exact .inr hSame.symm
  · intro h
    refine still_of_keeps hw.2 (Prog.trace_chained _ w) fun e he node' port' => ?_
    rcases hOnly e he with hQuiet | hMark
    · exact Act.newStatus_of_not_deed hQuiet.not_deed runId node' port' _
    · rw [hMark, Act.newStatus_markPortStatus]
      split
      · rename_i hPort
        obtain ⟨_, rfl, rfl, hNot⟩ := hPort
        exact (h.resolve_left hNot).symm
      · rfl

theorem transitionRun_still (runId : String) (status : FlowRunStatus) (reason : Option String)
    (w : FlowRuntime) : Still runId ((transitionRun runId status reason).trace w) := by
  refine Idle.still fun e he => ?_
  rcases (transitionRun_only runId status reason).trace w e he with h | h
  · exact h.not_deed
  · rw [h]
    rfl

theorem frozen_iff_inert (flow : FlowDefinition) (hw : w.Good runId) (c : Call) :
    Frozen flow runId w c ↔ Inert flow runId w c := by
  rw [frozen_iff_silent]
  cases c with
  | submitted node port sha revision => exact submitted_silent_iff node port sha revision flow hw
  | approved node port => exact approved_silent_iff node port flow hw.2
  | verdict node port reviewer vote comments =>
    obtain ⟨s, w', hRun, hw', hRun', hLeads⟩ :=
      onReviewerVerdict_good hw flow node port reviewer vote comments
    have hSame : w'.portStatus runId node port = w.portStatus runId node port :=
      portStatus_of_recordVerdict hRun hRun' _ _
    refine (hLeads.map _).silent.trans ((settled_silent_iff node port flow hw' _).trans ?_)
    rw [hSame, ← FlowRuntime.verdicts_of_getRun hRun]
    exact Iff.rfl
  | rejected node port => exact rejected_silent_iff node port flow hw
  | seeded seeds =>
    refine Iff.trans (and_iff_left fun ctxs hOk => ?_) (seeded_still_iff flow seeds hw)
    have hNone := applySeededEntries_run flow seeds hw
    exact (Except.ok.inj (hNone.symm.trans hOk)).symm
  | mark node port status =>
    exact (silent_pure_nil _ w).trans (marked_still_iff node port status hw)
  | cancel | complete | fail =>
    exact iff_of_true ((silent_pure_nil _ w).mpr (transitionRun_still _ _ _ w)) trivial

/-- A finished run keeps its status, its end, and its failure reason whatever calls follow; its
ports stay as they are and nothing more is scheduled if and only if each call finds nothing to
do. -/
theorem finished_frozen_iff (flow : FlowDefinition) (runId : String) (w : FlowRuntime)
    (s : FlowRunState) (calls : List Call) (hw : w.Good runId) (hRun : w.getRun runId = some s)
    (hTerminal : s.status.isTerminal = true) :
    (∃ s', (History.play (Call.step flow runId) w calls).getRun runId = some s' ∧
        s'.status = s.status ∧ s'.endedAt = s.endedAt ∧ s'.failureReason = s.failureReason) ∧
      (History.Each (Call.step flow runId) (Frozen flow runId) w calls ↔
        History.Each (Call.step flow runId) (Inert flow runId) w calls) := by
  obtain ⟨s', hRun', hSame⟩ := lifecycle_play flow calls hRun hTerminal
  obtain ⟨hStatus, hEnd⟩ := Prod.mk.inj hSame
  obtain ⟨hEnded, hReason⟩ := Prod.mk.inj hEnd
  exact ⟨⟨s', hRun', hStatus, hEnded, hReason⟩, History.each_congr hw (fun t c ht _ => ht.step c)
    (fun t c ht => frozen_iff_inert flow ht c) calls⟩

def cancelledRun : FlowRuntime :=
  afterCalls loopFlow "run" "brief" emptyRuntime [.submitted "writer" "draft" "" 1, .cancel]

/-- A run that is cancelled while a document is in review. -/
theorem cancelled_frozen : History.Each (Call.step loopFlow "run") (Frozen loopFlow "run")
    cancelledRun [.approved "writer" "draft", .cancel] := by
  have hRun : cancelledRun.getRun "run" = some ((cancelledRun.getRun "run").get (by decide)) :=
    (Option.some_get _).symm
  refine (finished_frozen_iff loopFlow "run" cancelledRun _ _ (by decide) hRun
    (by decide)).2.mpr ⟨?_, trivial, trivial⟩
  unfold Inert
  decide

/-- The critic's notes, submitted after the cancellation, are approved, and the writer is invoked
again. -/
theorem cancelled_not_frozen :
    ¬((cancelledRun.getRun "run").any (·.status.isTerminal) = true →
      Frozen loopFlow "run" cancelledRun (.submitted "critic" "notes" "" 1)) := by
  intro h
  exact absurd (h (by decide)).2 (by decide)

end Cronymax.Flow
