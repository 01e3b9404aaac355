import Cronymax.Authority.Writes

/-! What a call leaves that fails, and whether the snapshot in memory is the one that was saved last.
A call that fails leaves what its section wrote before the save, and `resolve_review` decides a review
before it looks its run up. -/

namespace Cronymax.Authority

open Atomic

section Calls

variable {w : RuntimeAuthority} {c : Call}

theorem Writes.congr {idle idle' : Prop} {ignores : Bool} {d : Decision}
    (h : Writes w idle ignores d) (hIdle : idle ↔ idle') : Writes w idle' ignores d :=
  propext hIdle ▸ h

/-- A call that leaves no trace when it fails, and from a state in step leaves one in step, exactly when
its save succeeds or it has nothing to write; a save whose error is ignored does not make it fail. -/
structure Fares (w : RuntimeAuthority) (c : Call) (idle : Prop) (ignores : Bool) : Prop where
  trace : LeavesNoTrace w c ↔ w.fault = none ∨ idle ∨ ignores
  inStep : w.InStep → (LeavesNoTrace w c ∧ (c.step w).InStep ↔ w.fault = none ∨ idle)

theorem fares_lock {x : Section} {idle : Prop} {ignores : Bool} (hOp : c.op = lock x)
    (h : Writes w idle ignores (x.decide w)) : Fares w c idle ignores := by
  have hResult : c.result w = w.answer (x.decide w) := by rw [Call.result, hOp, lock_run]
  have hStep : c.step w = x.apply w := by rw [Call.step, hOp, lock_run]
  have hTrace : LeavesNoTrace w c ↔ x.LeavesNoTrace w := by
    rw [LeavesNoTrace, Section.LeavesNoTrace, hResult, hStep]
  refine ⟨hTrace.trans h.leavesNoTrace_iff, fun hIn => ?_⟩
  rw [hTrace, hStep]
  exact h.inStep_iff hIn

theorem fares_checkThen {settled : RunStatus → Bool} {runId : RunId} {x : Section} {idle : Prop}
    (hOp : c.op = checkThen settled runId x)
    (hIdle : (∀ status ∈ w.status? runId, settled status) → idle)
    (hWrites : ∀ status ∈ w.status? runId, ¬settled status →
      Writes w.tick idle false (x.decide w.tick)) : Fares w c idle false := by
  have hRun := checkThen_run x w settled runId
  have hQuiet (hStep : c.step w = w.tick) (hIdle : idle) : Fares w c idle false := by
    have hTrace : LeavesNoTrace w c := fun _ _ => by
      rw [hStep]
      exact ⟨rfl, rfl, rfl, rfl⟩
    refine ⟨iff_of_true hTrace (.inr (.inl hIdle)), fun hIn => iff_of_true ⟨hTrace, ?_⟩ (.inr hIdle)⟩
    rw [hStep]
    exact hIn
  rw [runStatus_apply] at hRun
  cases hStatus : w.status? runId with
  | none =>
    rw [hStatus] at hRun
    exact hQuiet (by rw [Call.step, hOp, hRun]) (hIdle (forall_of_none hStatus))
  | some status =>
    rw [hStatus] at hRun
    dsimp only at hRun
    split at hRun
    · rename_i hSettled
      refine hQuiet (by rw [Call.step, hOp, hRun]) (hIdle ?_)
      rw [hStatus]
      rintro _ ⟨⟩
      exact hSettled
    · rename_i hSettled
      have hWrites := hWrites status hStatus hSettled
      have hResult : c.result w = w.tick.answer (x.decide w.tick) := by
        rw [Call.result, hOp, hRun, lock_run]
      have hStep : c.step w = x.apply w.tick := by rw [Call.step, hOp, hRun, lock_run]
      have hTrace : LeavesNoTrace w c ↔ x.LeavesNoTrace w.tick := by
        rw [LeavesNoTrace, Section.LeavesNoTrace, hResult, hStep]
        rfl
      refine ⟨hTrace.trans hWrites.leavesNoTrace_iff, fun hIn => ?_⟩
      rw [hTrace, hStep]
      exact hWrites.inStep_iff hIn

theorem fares_openReviewWithCompletion (runId : RunId) (request : Value) (drawn : ReviewId) :
    Fares w (.openReviewWithCompletion runId request drawn)
      (Operation.Idle w (.openReview runId request drawn)) false := by
  have hFares := fares_lock (c := .operation (.openReview runId request drawn)) rfl
    (openReview_writes (w := w) runId request drawn)
  have hRun := openReviewWithCompletion_run w runId request drawn
  have hOpen := lock_run (.operation (.openReview runId request drawn)) w
  -- the second section fails never and keeps a sender only
  have hSame : (LeavesNoTrace w (.openReviewWithCompletion runId request drawn) ↔
      LeavesNoTrace w (.operation (.openReview runId request drawn))) ∧
      ((Call.step w (.openReviewWithCompletion runId request drawn)).InStep ↔
        (Call.step w (.operation (.openReview runId request drawn))).InStep) := by
    unfold LeavesNoTrace Call.result Call.step Call.op
    dsimp only at hRun ⊢
    rw [hRun, hOpen]
    cases w.answer (Section.decide w (.operation (.openReview runId request drawn))) with
    | error e => exact ⟨Iff.rfl, Iff.rfl⟩
    | ok reply =>
      dsimp only
      rw [lock_run]
      exact ⟨iff_of_true nofun nofun, Iff.rfl⟩
  exact ⟨hSame.1.trans hFares.trace, fun hIn => (and_congr hSame.1 hSame.2).trans (hFares.inStep hIn)⟩

theorem fares_markRunRunning (runId : RunId) : Fares w (.markRunRunning runId)
    (∀ status ∈ w.status? runId, status = .running ∨ status.isTerminal) false := by
  refine fares_checkThen rfl (fun h status hs => .inl (by simpa using h status hs)) fun _ _ _ => ?_
  refine (transitionRun_writes (t := .markRunning) fun status _ hNext => ?_).congr
    (forall_congr' fun status => forall_congr' fun _ => ?_)
  · cases status <;> cases hNext
  · cases status <;> simp [Transition.next, RunStatus.isTerminal]

theorem fares_end {runId : RunId} {t : Transition} {next : RunStatus} {x : Section}
    (hOp : c.op = checkThen (·.isTerminal) runId x)
    (hDecide : x.decide w.tick = w.tick.transitionRun runId t)
    (hNext : ∀ status, t.next status = some next) (hTerminal : next.isTerminal) :
    Fares w c (∀ status ∈ w.status? runId, status.isTerminal) false := by
  refine fares_checkThen hOp id fun status hStatus hLive => ?_
  rw [hDecide]
  refine (transitionRun_writes fun status' hStatus' hSame => ?_).congr (iff_of_false ?_ ?_)
  · obtain rfl := Option.mem_unique hStatus hStatus'
    rw [hNext, Option.some_inj] at hSame
    exact hLive (hSame ▸ hTerminal)
  · intro hRefused
    have hNone := hRefused status hStatus
    rw [hNext] at hNone
    cases hNone
  · exact fun hAll => hLive (hAll status hStatus)

theorem call_fares (h : ¬c.Orphaned w) : Fares w c (c.Idle w) c.ignoresSave := by
  cases c with
  | operation o => exact fares_lock rfl (o.decide_writes h)
  | dropReceiver id => exact fares_lock rfl (writes_keep trivial)
  | openReviewWithCompletion runId request drawn =>
    exact fares_openReviewWithCompletion runId request drawn
  | markRunRunning runId => exact fares_markRunRunning runId
  | completeRun runId => exact fares_end (t := .complete) rfl rfl (fun _ => rfl) rfl
  | failRun runId message => exact fares_end (t := .fail message) rfl rfl (fun _ => rfl) rfl

/-- A review that is decided without its run is changed, though the call fails. -/
theorem orphaned_leaves_trace (h : c.Orphaned w) : ¬LeavesNoTrace w c := by
  intro hTrace
  cases c with
  | operation o =>
    cases o with
    | resolveReview runId reviewId decision notes =>
      obtain ⟨hDecides, hRun⟩ := h
      rcases resolveReview_cases (w := w) runId reviewId decision notes with
        ⟨hNot, -⟩ | ⟨-, review, hReview, ⟨-, hDecision⟩ | ⟨run, run', effects, hSome, -⟩⟩
      · rw [hNot] at hDecides
        cases hDecides
      · have hDecide : Section.decide w (.operation (.resolveReview runId reviewId decision notes)) = _ :=
          hDecision
        have hError := hTrace (.unknownRun runId) (by
          rw [Call.result, Call.op, lock_run, hDecide]
          rfl)
        have hSnapshot := hError.1
        rw [Call.step, Call.op, lock_run, Section.snapshot_apply, hDecide] at hSnapshot
        exact resolve_ne hReview hDecides notes
          ((Table.insert_eq_of_lookup hReview).mp (congrArg Snapshot.reviews hSnapshot))
      · rw [hRun] at hSome
        cases hSome
    | _ => exact h
  | _ => exact h

theorem leavesNoTrace_call_iff (w : RuntimeAuthority) (c : Call) :
    LeavesNoTrace w c ↔ (w.fault = none ∨ c.Idle w ∨ c.ignoresSave) ∧ ¬c.Orphaned w := by
  by_cases h : c.Orphaned w
  · exact iff_of_false (orphaned_leaves_trace h) fun hNot => hNot.2 h
  · exact (call_fares h).trace.trans (and_iff_left h).symm

theorem inStep_call_iff {w : RuntimeAuthority} (hIn : w.InStep) (c : Call) :
    LeavesNoTrace w c ∧ (c.step w).InStep ↔ (w.fault = none ∨ c.Idle w) ∧ ¬c.Orphaned w := by
  by_cases h : c.Orphaned w
  · exact iff_of_false (fun hTrace => orphaned_leaves_trace h hTrace.1) fun hNot => hNot.2 h
  · exact ((call_fares h).inStep hIn).trans (and_iff_left h).symm

end Calls

theorem recover_of_fresh {s : Snapshot} (h : s.isStale = false) (now : Int) : s.recover now = s := by
  simp only [Snapshot.isStale, decide_eq_false_iff_not, not_or, not_exists, not_and] at h
  obtain ⟨hRuns, hReviews⟩ := h
  have hRunsSame : s.runs.mapValues (fun run =>
      if run.status.isAbandoned then { run with status := .paused, updatedAtMs := now } else run) =
      s.runs := by
    refine Finmap.ext_lookup fun id => ?_
    rw [Table.lookup_mapValues]
    cases hRun : s.runs.lookup id with
    | none => rfl
    | some run =>
      have hLive := hRuns id (Finmap.mem_keys.mpr (Finmap.mem_of_lookup_eq_some hRun))
      rw [hRun, Option.any_some] at hLive
      rw [Option.map_some, if_neg hLive]
  have hReviewsSame : s.reviews = ∅ := by
    rw [Finset.not_nonempty_iff_eq_empty] at hReviews
    exact Finmap.ext_lookup fun id => by
      rw [Finmap.lookup_empty, Finmap.lookup_eq_none, ← Finmap.mem_keys, hReviews]
      exact Finset.notMem_empty id
  rw [Snapshot.recover, hRunsSame, ← hReviewsSame]

theorem rehydrate_inStep {loaded : Except PersistenceError Snapshot}
    {faults : List (Option PersistenceError)} {clock : List Int} {w : RuntimeAuthority}
    (h : rehydrate loaded faults clock = .ok w) : w.InStep := by
  cases loaded with
  | error e => cases h
  | ok snapshot =>
    simp only [rehydrate] at h
    split at h
    · split at h
      · cases h
      · cases h
        rfl
    · rename_i hFresh
      cases h
      exact recover_of_fresh (eq_false_of_ne_true hFresh) _

/-- Where a failing call leaves no trace, in any state, and where in a history of calls from a start every
failing call leaves none and the snapshot in memory is always the one that was saved last. -/
theorem no_trace_iff (loaded : Except PersistenceError Snapshot)
    (faults : List (Option PersistenceError)) (clock : List Int) :
    (∀ w c, LeavesNoTrace w c ↔ (w.fault = none ∨ c.Idle w ∨ c.ignoresSave) ∧ ¬c.Orphaned w) ∧
    ∀ w, rehydrate loaded faults clock = .ok w → ∀ calls,
      (History.Each Call.step (fun w c => LeavesNoTrace w c ∧ (c.step w).InStep) w calls ↔
        History.Each Call.step (fun w c => (w.fault = none ∨ c.Idle w) ∧ ¬c.Orphaned w) w calls) :=
  ⟨leavesNoTrace_call_iff, fun _ hStart calls =>
    History.each_congr (I := RuntimeAuthority.InStep) (rehydrate_inStep hStart)
      (fun _ _ _ hKeeps => hKeeps.2) (fun _ c hIn => inStep_call_iff hIn c) calls⟩

/-- The third save fails. -/
def fullDisk : RuntimeAuthority := .start .empty .empty [none, none, some (.io "disk full")] []

/-- Two calls on a disk that is going to fail at the third save. -/
theorem started_in_step :
    History.Each Call.step (fun w c => LeavesNoTrace w c ∧ (c.step w).InStep) fullDisk started :=
  ((no_trace_iff (.ok .empty) [none, none, some (.io "disk full")] []).2 fullDisk rfl started).mpr
    ⟨⟨.inl rfl, id⟩, ⟨.inl rfl, id⟩, trivial⟩

/-- The cancellation fails, and the run is cancelled in memory, but not on disk. -/
theorem cancellation_leaves_trace :
    let w := History.play Call.step fullDisk started
    cancelCoder.result w = .error (.persistence (.io "disk full")) ∧
    w.status? coder = some .pending ∧
    (cancelCoder.step w).status? coder = some .cancelled ∧
    (cancelCoder.step w).saved.status? coder = some .pending ∧
    ¬LeavesNoTrace w cancelCoder ∧ ¬(cancelCoder.step w).InStep := by
  intro w
  have hResult : cancelCoder.result w = .error (.persistence (.io "disk full")) := by decide
  have hBefore : w.status? coder = some .pending := by decide
  have hAfter : (cancelCoder.step w).status? coder = some .cancelled := by decide
  have hSaved : (cancelCoder.step w).saved.status? coder = some .pending := by decide
  refine ⟨hResult, hBefore, hAfter, hSaved, fun h => ?_, fun h => ?_⟩
  · rw [RuntimeAuthority.status?, (h _ hResult).1, ← RuntimeAuthority.status?, hBefore] at hAfter
    cases hAfter
  · rw [RuntimeAuthority.status?, h, hSaved] at hAfter
    cases hAfter

end Cronymax.Authority
