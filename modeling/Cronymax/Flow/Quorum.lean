import Cronymax.Flow.Footprint
import Cronymax.Flow.Rounds

/-! The quorum of a review.  The code compares the length of the tally with the number of agent
reviewers; on a run that keeps every tally to the votes of its listed reviewers for the revision in
review, that comparison asks whether each of them approved it. -/

namespace Cronymax.Flow

open Atomic FlowRuntime

variable {flow : FlowDefinition} {runId node port : String} {w : FlowRuntime} {s : FlowRunState}

theorem other_port {node' port' : String} (h : ¬(node' = node ∧ port' = port)) :
    (node, port) ≠ (node', port') :=
  fun hSame => h ⟨(Prod.mk.inj hSame).1.symm, (Prod.mk.inj hSame).2.symm⟩

theorem verdicts_verdict_other {node' port' key : String} (hKey : key ≠ verdictKey runId node' port')
    (hw : w.Good runId) (flow : FlowDefinition) (reviewer : String) (vote : ReviewVerdict)
    (comments : List ReviewComment) :
    ((Call.verdict node' port' reviewer vote comments).step flow runId w).verdicts runId key =
      w.verdicts runId key := by
  obtain ⟨s, w', hRun, hw', hRun', hLeads⟩ :=
    onReviewerVerdict_good hw flow node' port' reviewer vote comments
  rw [step_verdict, hLeads.run, verdicts_settleVerdict hw'.2, FlowRuntime.verdicts_of_getRun hRun',
    FlowRuntime.verdicts_of_getRun hRun, FlowRunState.verdicts_recordVerdict, if_neg hKey]

/-- The votes of the revision after a call: a submission begins anew, a vote is added. -/
def nextVotes (flow : FlowDefinition) (runId node port : String) (w : FlowRuntime)
    (votes : List (String × ReviewVerdict)) : Call → List (String × ReviewVerdict)
  | .submitted node' port' _ _ =>
    if node' = node ∧ port' = port ∧ overLimit flow runId node port w = false then [] else votes
  | .verdict node' port' reviewer vote _ =>
    if node' = node ∧ port' = port then votes ++ [(reviewer, vote)] else votes
  | _ => votes

def revisionStep (flow : FlowDefinition) (runId node port : String)
    (t : FlowRuntime × List (String × ReviewVerdict)) (c : Call) :
    FlowRuntime × List (String × ReviewVerdict) :=
  (c.step flow runId t.1, nextVotes flow runId node port t.1 t.2 c)

/-- The votes on the port since it was last submitted. -/
def revisionVotes (flow : FlowDefinition) (runId node port : String) (w : FlowRuntime)
    (calls : List Call) : List (String × ReviewVerdict) :=
  (History.play (revisionStep flow runId node port) (w, []) calls).2

theorem play_revisionStep (flow : FlowDefinition) (runId node port : String)
    (t : FlowRuntime × List (String × ReviewVerdict)) (calls : List Call) :
    (History.play (revisionStep flow runId node port) t calls).1 =
      History.play (Call.step flow runId) t.1 calls := by
  induction calls generalizing t with
  | nil => rfl
  | cons c calls ih => exact ih _

/-- The call is a submission or a verdict. -/
def Call.reviewing : Call → Bool
  | .submitted _ _ _ _ | .verdict _ _ _ _ _ => true
  | _ => false

/-- The call keeps the tally of the port to the votes of its listed reviewers for the revision in
review: a submission that is accepted finds the tally empty, and a verdict counted in the tally is
one on this port by a listed agent, where the list repeats no agent, and either the port is in
review or approved, or a rejection was counted already.  Where a human reviews the port, every call
does: agents cannot approve it. -/
def Careful (flow : FlowDefinition) (runId node port : String) (w : FlowRuntime) (c : Call) : Prop :=
  hasHumanReviewer flow node port = true ∨
    match c with
    | .submitted node' port' _ _ => node' = node ∧ port' = port →
      overLimit flow runId node port w = true ∨ w.verdicts runId (verdictKey runId node port) = []
    | .verdict node' port' reviewer _ _ =>
      verdictKey runId node port = verdictKey runId node' port' →
        (node' = node ∧ port' = port) ∧ reviewer ∈ agentReviewers flow node port ∧
        (agentReviewers flow node port).Nodup ∧
        (w.portStatus runId node port = .inReview ∨ w.portStatus runId node port = .approved ∨
          Ballot.Vetoed .reject (w.verdicts runId (verdictKey runId node port)))
    | _ => True

/-- The tally of a port in review: distinct listed agents, each with its approval of the
revision. -/
structure TallyOf (reviewers : List String) (tally votes : List (String × ReviewVerdict)) :
    Prop where
  clean : ¬Ballot.Vetoed .reject tally
  nodup : (tally.map (·.1)).Nodup
  listed : tally.map (·.1) ⊆ reviewers
  voted : ∀ reviewer, reviewer ∈ tally.map (·.1) ↔ (reviewer, .approve) ∈ votes

theorem TallyOf.nil (reviewers : List String) : TallyOf reviewers [] [] :=
  ⟨by simp [Ballot.Vetoed], List.nodup_nil, by simp, by simp⟩

theorem TallyOf.record {reviewers : List String} {tally votes : List (String × ReviewVerdict)}
    (h : TallyOf reviewers tally votes) {reviewer : String} {vote : ReviewVerdict}
    (hListed : reviewer ∈ reviewers) (hClean : ¬Ballot.Vetoed .reject
      (Ballot.record tally reviewer vote)) :
    TallyOf reviewers (Ballot.record tally reviewer vote) (votes ++ [(reviewer, vote)]) := by
  refine ⟨hClean, Ballot.nodup_record h.nodup, fun voter hVoter => ?_, fun voter => ?_⟩
  · obtain ⟨e, he, rfl⟩ := List.mem_map.mp hVoter
    rcases Ballot.mem_record.mp he with he | ⟨rfl, _⟩
    · exact h.listed (List.mem_map_of_mem he)
    · exact hListed
  · by_cases hRepeated : reviewer ∈ tally.map (·.1)
    · rw [Ballot.record_of_mem hRepeated, h.voted voter, List.mem_append, List.mem_singleton]
      refine ⟨.inl, fun hMem => hMem.elim id fun hMem => ?_⟩
      obtain ⟨rfl, rfl⟩ := Prod.mk.inj hMem
      exact (h.voted voter).mp hRepeated
    · cases vote with
      | reject => exact absurd (Ballot.vetoed_record_iff.mpr (.inr ⟨rfl, hRepeated⟩)) hClean
      | approve =>
        rw [Ballot.record_of_not_mem hRepeated, List.map_append, List.mem_append, h.voted voter]
        simp

theorem TallyOf.quorum {reviewers : List String} {tally votes : List (String × ReviewVerdict)}
    (h : TallyOf reviewers tally votes) (hNodup : reviewers.Nodup) :
    reviewers.length ≤ tally.length ↔ ∀ reviewer ∈ reviewers, (reviewer, .approve) ∈ votes := by
  rw [Ballot.quorum_iff h.nodup h.listed hNodup]
  exact forall₂_congr fun reviewer _ => h.voted reviewer

theorem TallyOf.decided {reviewers : List String} {tally votes : List (String × ReviewVerdict)}
    (h : TallyOf reviewers tally votes) (hNodup : reviewers.Nodup) {reviewer : String}
    (hListed : reviewer ∈ reviewers) (vote : ReviewVerdict) :
    (¬Ballot.Vetoed .reject (Ballot.record tally reviewer vote) ∧
        reviewers.length ≤ (Ballot.record tally reviewer vote).length) ↔
      ∀ agent ∈ reviewers, (agent, .approve) ∈ votes ++ [(reviewer, vote)] := by
  by_cases hVeto : Ballot.Vetoed .reject (Ballot.record tally reviewer vote)
  · -- a first vote that rejects is no approval
    obtain ⟨rfl, hFirst⟩ := (Ballot.vetoed_record_iff.mp hVeto).resolve_left h.clean
    refine iff_of_false (fun h => h.1 hVeto) fun hAll => hFirst ((h.voted reviewer).mpr ?_)
    simpa using hAll reviewer hListed
  · simp only [hVeto, not_false_eq_true, true_and]
    exact (h.record hListed hVeto).quorum hNodup

/-- The call moves the port to approved. -/
def Approves (flow : FlowDefinition) (runId node port : String) (w : FlowRuntime) (c : Call) :
    Prop :=
  ∃ e ∈ c.trace flow runId w, e.1 = .markPortStatus runId node port .approved ∧
    e.2.portStatus runId node port ≠ .approved

theorem cascadeApproval_trace (runId node port : String) (flow : FlowDefinition)
    (w : FlowRuntime) : ∃ tr, (cascadeApproval runId node port flow).trace w =
      (.markPortStatus runId node port .approved, w) :: tr :=
  ⟨_, rfl⟩

theorem settleVerdict_approves_iff (verdicts : List (String × ReviewVerdict)) :
    (∃ e ∈ (settleVerdict runId node port flow verdicts).trace w,
        e.1 = .markPortStatus runId node port .approved ∧
          e.2.portStatus runId node port ≠ .approved) ↔
      ¬Ballot.Vetoed .reject verdicts ∧
        (agentReviewers flow node port).length ≤ verdicts.length ∧
        hasHumanReviewer flow node port = false ∧ w.portStatus runId node port ≠ .approved := by
  by_cases hVeto : Ballot.Vetoed .reject verdicts
  · simp only [hVeto, not_true_eq_false, false_and, iff_false]
    rintro ⟨e, he, hAct, _⟩
    rw [settleVerdict_of_vetoed hVeto, Prog.trace_map] at he
    rcases (onRejectedRequeue_only runId node port flow).trace w e he with h | h | h <;>
      rw [hAct] at h <;> cases h
  · rw [settleVerdict, if_neg hVeto]
    by_cases hQuorum : (agentReviewers flow node port).length ≤ verdicts.length
    · rw [if_pos hQuorum]
      by_cases hHuman : hasHumanReviewer flow node port = true
      · rw [if_pos hHuman]
        simp [hHuman, Prog.trace]
      · rw [if_neg hHuman, Prog.trace_map]
        simp only [hVeto, hQuorum, hHuman, not_false_eq_true, true_and]
        by_cases hApproved : w.portStatus runId node port = .approved
        · rw [(onDocumentApproved_of_approved flow hApproved).2]
          simp [hApproved]
        · rw [(onDocumentApproved_of_not_approved flow hApproved).2]
          obtain ⟨tr, hTrace⟩ := cascadeApproval_trace runId node port flow w
          refine iff_of_true ⟨(.markPortStatus runId node port .approved, w), ?_, rfl, hApproved⟩
            hApproved
          rw [hTrace]
          exact List.mem_cons_of_mem _ List.mem_cons_self
    · rw [if_neg hQuorum]
      simp [hQuorum, Prog.trace]

theorem verdict_approves_iff (hw : w.Good runId) (flow : FlowDefinition)
    (node port reviewer : String) (vote : ReviewVerdict) (comments : List ReviewComment) :
    Approves flow runId node port w (.verdict node port reviewer vote comments) ↔
      ¬Ballot.Vetoed .reject
          (Ballot.record (w.verdicts runId (verdictKey runId node port)) reviewer vote) ∧
        (agentReviewers flow node port).length ≤
          (Ballot.record (w.verdicts runId (verdictKey runId node port)) reviewer vote).length ∧
        hasHumanReviewer flow node port = false ∧ w.portStatus runId node port ≠ .approved := by
  obtain ⟨s, w', hRun, hw', hRun', hLeads⟩ :=
    onReviewerVerdict_good hw flow node port reviewer vote comments
  rw [Approves, trace_verdict, FlowRuntime.verdicts_of_getRun hRun,
    ← portStatus_of_recordVerdict hRun hRun', ← settleVerdict_approves_iff]
  refine hLeads.exists_deed fun e hAct => ?_
  rw [hAct.1]
  rfl

/-- While the port is in review, its tally is the one of its listed agents' votes. -/
structure Tracked (flow : FlowDefinition) (runId node port : String)
    (t : FlowRuntime × List (String × ReviewVerdict)) : Prop where
  good : t.1.Good runId
  tally : hasHumanReviewer flow node port = false → t.1.portStatus runId node port = .inReview →
    TallyOf (agentReviewers flow node port) (t.1.verdicts runId (verdictKey runId node port)) t.2

variable {t : FlowRuntime × List (String × ReviewVerdict)}

theorem Tracked.submitted (h : Tracked flow runId node port t) {node' port' sha : String}
    {revision : UInt32}
    (hCareful : Careful flow runId node port t.1 (.submitted node' port' sha revision)) :
    Tracked flow runId node port
      (revisionStep flow runId node port t (.submitted node' port' sha revision)) := by
  refine ⟨h.good.step _, fun hHuman hStatus => ?_⟩
  simp only [revisionStep] at hStatus ⊢
  rw [verdicts_submitted h.good.2]
  have hCareful := hCareful.resolve_left (by simp [hHuman])
  by_cases hPort : node' = node ∧ port' = port
  · obtain ⟨rfl, rfl⟩ := hPort
    cases hLimit : overLimit flow runId node' port' t.1 with
    | false =>
      -- the submission is accepted, and the tally is empty
      have hEmpty := (hCareful ⟨rfl, rfl⟩).resolve_left (by simp [hLimit])
      rw [hEmpty]
      simpa [nextVotes, hLimit] using TallyOf.nil _
    | true =>
      rw [status_submitted_overLimit hLimit] at hStatus
      simpa [nextVotes, hLimit] using h.tally hHuman hStatus
  · have hVotes : nextVotes flow runId node port t.1 t.2 (.submitted node' port' sha revision) =
        t.2 := if_neg fun h => hPort ⟨h.1, h.2.1⟩
    rw [hVotes]
    rcases status_other flow (.submitted node' port' sha revision) rfl (other_port hPort)
      h.good.2 with hSame | ⟨_, hSame⟩
    · exact h.tally hHuman (hSame ▸ hStatus)
    · rw [hSame] at hStatus
      cases hStatus

theorem Tracked.verdict (h : Tracked flow runId node port t) {node' port' reviewer : String}
    {vote : ReviewVerdict} {comments : List ReviewComment}
    (hCareful : Careful flow runId node port t.1 (.verdict node' port' reviewer vote comments)) :
    Tracked flow runId node port
      (revisionStep flow runId node port t (.verdict node' port' reviewer vote comments)) := by
  refine ⟨h.good.step _, fun hHuman hStatus => ?_⟩
  simp only [revisionStep] at hStatus ⊢
  have hCareful := hCareful.resolve_left (by simp [hHuman])
  by_cases hKey : verdictKey runId node port = verdictKey runId node' port'
  · obtain ⟨⟨rfl, rfl⟩, hListed, hNodup, hWhen⟩ := hCareful hKey
    obtain ⟨s, w', hRun, hw', hRun', hLeads⟩ :=
      onReviewerVerdict_good h.good flow node' port' reviewer vote comments
    have hSame : w'.portStatus runId node' port' = t.1.portStatus runId node' port' :=
      portStatus_of_recordVerdict hRun hRun' _ _
    have hTally := verdicts_verdict h.good flow node' port' reviewer vote comments
    rw [step_verdict, hLeads.run, ← FlowRuntime.verdicts_of_getRun hRun] at hStatus
    rw [hTally]
    -- a tally with a rejection leaves the port pending
    have hClean : ¬Ballot.Vetoed .reject (Ballot.record
        (t.1.verdicts runId (verdictKey runId node' port')) reviewer vote) := by
      intro hVeto
      rw [settleVerdict_of_vetoed hVeto, Prog.run_map_snd, onRejectedRequeue_status hw'] at hStatus
      cases hStatus
    have hVotes : nextVotes flow runId node' port' t.1 t.2
        (.verdict node' port' reviewer vote comments) = t.2 ++ [(reviewer, vote)] :=
      if_pos ⟨rfl, rfl⟩
    rw [hVotes]
    rcases hWhen with hReview | hApproved | hVeto
    · exact (h.tally hHuman hReview).record hListed hClean
    · rw [(settleVerdict_of_approved flow hClean (hSame.trans hApproved)).1, hSame, hApproved] at hStatus
      cases hStatus
    · exact absurd hVeto.record hClean
  · have hPort : ¬(node' = node ∧ port' = port) := fun ⟨h1, h2⟩ => hKey (by rw [h1, h2])
    have hVotes : nextVotes flow runId node port t.1 t.2
        (.verdict node' port' reviewer vote comments) = t.2 := if_neg hPort
    rw [hVotes, verdicts_verdict_other hKey h.good]
    rcases status_other flow (.verdict node' port' reviewer vote comments) rfl
      (other_port hPort) h.good.2 with hSame | ⟨_, hSame⟩
    · exact h.tally hHuman (hSame ▸ hStatus)
    · rw [hSame] at hStatus
      cases hStatus

theorem Tracked.step (h : Tracked flow runId node port t) {c : Call} (hc : c.reviewing = true)
    (hCareful : Careful flow runId node port t.1 c) :
    Tracked flow runId node port (revisionStep flow runId node port t c) := by
  cases c with
  | submitted => exact h.submitted hCareful
  | verdict => exact h.verdict hCareful
  | _ => cases hc

theorem Tracked.play (h : Tracked flow runId node port t) {calls : List Call}
    (hCalls : ∀ c ∈ calls, c.reviewing = true)
    (hCareful : History.Each (Call.step flow runId) (Careful flow runId node port) t.1 calls) :
    Tracked flow runId node port (History.play (revisionStep flow runId node port) t calls) := by
  induction calls generalizing t with
  | nil => exact h
  | cons c calls ih =>
    exact ih (h.step (hCalls c List.mem_cons_self) hCareful.1)
      (fun c' hc' => hCalls c' (List.mem_cons_of_mem _ hc')) hCareful.2

/-- In a history of careful submissions and verdicts, from a state in which the port is not in
review, a verdict moves the port to approved if and only if no human is listed, the port is in
review, and every listed agent has approved the revision in review. -/
theorem approves_iff_quorum (flow : FlowDefinition) (runId node port : String) (w : FlowRuntime)
    (calls : List Call) (reviewer : String) (vote : ReviewVerdict) (comments : List ReviewComment)
    (hw : w.Good runId) (hStart : w.portStatus runId node port ≠ .inReview)
    (hCalls : ∀ c ∈ calls, c.reviewing = true)
    (hCareful : History.Each (Call.step flow runId) (Careful flow runId node port) w
      (calls ++ [.verdict node port reviewer vote comments])) :
    Approves flow runId node port (History.play (Call.step flow runId) w calls)
        (.verdict node port reviewer vote comments) ↔
      hasHumanReviewer flow node port = false ∧
        (History.play (Call.step flow runId) w calls).portStatus runId node port = .inReview ∧
        ∀ agent ∈ agentReviewers flow node port, (agent, .approve) ∈
          revisionVotes flow runId node port w
            (calls ++ [.verdict node port reviewer vote comments]) := by
  obtain ⟨hBefore, hLast, _⟩ := History.each_append.mp hCareful
  have hTracked : Tracked flow runId node port
      (History.play (revisionStep flow runId node port) (w, []) calls) :=
    Tracked.play ⟨hw, fun _ h => absurd h hStart⟩ hCalls hBefore
  have hVotes : revisionVotes flow runId node port w
      (calls ++ [.verdict node port reviewer vote comments]) =
        revisionVotes flow runId node port w calls ++ [(reviewer, vote)] := by
    rw [revisionVotes, History.play_append, History.play_cons, History.play_nil]
    exact if_pos ⟨rfl, rfl⟩
  have hGood := hTracked.good
  have hTally := hTracked.tally
  rw [play_revisionStep] at hGood hTally
  rw [hVotes, verdict_approves_iff hGood]
  cases hHuman : hasHumanReviewer flow node port with
  | true => simp
  | false =>
    obtain ⟨_, hListed, hNodup, hWhen⟩ := hLast.resolve_left (by simp [hHuman]) rfl
    have hReview (h : (History.play (Call.step flow runId) w calls).portStatus runId node port =
        .inReview) := (hTally hHuman h).decided hNodup hListed vote
    simp only [true_and]
    rcases hWhen with h | h | h
    · rw [← and_assoc, and_congr_left' (hReview h)]
      simp [h, revisionVotes]
    · simp [h]
    · -- a rejection was counted, so the port is not in review
      refine iff_of_false (fun h' => h'.1 h.record) fun h' => ?_
      exact (hTally hHuman h'.1).clean h

def startedReview : FlowRuntime := afterCalls reviewFlow "run" "brief" emptyRuntime []

def halfReviewed : List Call :=
  [.submitted "writer" "draft" "" 1, verdictOn "draft" "critic" .approve]

/-- The second of two reviewers approves. -/
theorem draft_approved_by_editor : Approves reviewFlow "run" "writer" "draft"
    (History.play (Call.step reviewFlow "run") startedReview halfReviewed)
    (verdictOn "draft" "editor" .approve) :=
  (approves_iff_quorum reviewFlow "run" "writer" "draft" startedReview halfReviewed "editor"
    .approve [] (by decide) (by decide) (by decide)
    ⟨.inr fun _ => .inr (by decide),
      .inr fun _ => ⟨⟨rfl, rfl⟩, by decide, by decide, .inl (by decide)⟩,
      .inr fun _ => ⟨⟨rfl, rfl⟩, by decide, by decide, .inl (by decide)⟩, trivial⟩).mpr
    (by decide)

/-- The verdict of an agent that is not listed completes the quorum. -/
theorem draft_approved_by_stranger :
    ¬(Approves reviewFlow "run" "writer" "draft"
        (History.play (Call.step reviewFlow "run") startedReview halfReviewed)
        (verdictOn "draft" "stranger" .approve) ↔
      hasHumanReviewer reviewFlow "writer" "draft" = false ∧
        (History.play (Call.step reviewFlow "run") startedReview halfReviewed).portStatus "run"
          "writer" "draft" = .inReview ∧
        ∀ agent ∈ agentReviewers reviewFlow "writer" "draft", (agent, .approve) ∈
          revisionVotes reviewFlow "run" "writer" "draft" startedReview
            (halfReviewed ++ [verdictOn "draft" "stranger" .approve])) := by
  intro h
  have hApproves : Approves reviewFlow "run" "writer" "draft"
      (History.play (Call.step reviewFlow "run") startedReview halfReviewed)
      (verdictOn "draft" "stranger" .approve) :=
    (verdict_approves_iff (by decide) reviewFlow "writer" "draft" "stranger" .approve []).mpr
      (by decide)
  exact absurd (h.mp hApproves) (by decide)

end Cronymax.Flow
