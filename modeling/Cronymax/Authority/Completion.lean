import Cronymax.Atomic.Interleaving
import Cronymax.Authority.Absorbing

/-! Concurrent calls that end a run.  `complete_run` and `fail_run` look at the status in one section
and move the run in another, so a call that ends the run between the two is overridden.  The first
call that ends the run has the last word exactly when no section of that kind finds the run
ended. -/

namespace Cronymax.Authority

open Atomic

/-- A call that may end a run, or `mark_run_running`. -/
inductive FinishCall where
  | cancelRun
  | completeRun
  | failRun (message : String)
  | markRunRunning
deriving DecidableEq

/-- The operation of the source that a finishing call is. -/
def FinishCall.op (r : RunId) : FinishCall → Op Reply
  | .cancelRun => lock (.operation (.cancelRun r))
  | .completeRun => Authority.completeRun r
  | .failRun message => Authority.failRun r message
  | .markRunRunning => Authority.markRunRunning r

variable {ι : Type} [DecidableEq ι]

/-- Calls that finish one run, their sections interleaving. -/
def finishing (r : RunId) (calls : ι → FinishCall) (w : RuntimeAuthority) :
    Pool ι Section RuntimeAuthority AuthorityError Reply :=
  ⟨w, fun i => (calls i).op r⟩

/-- The first call that ends the run has the last word.  The status with which the run has ended at
some moment is its status at the end; a call that finds the run ended is refused, or changes
nothing; and one event announces the end of the run. -/
structure FirstEndWins (r : RunId) (c : Pool ι Section RuntimeAuthority AuthorityError Reply)
    (turns : List ι) : Prop where
  status : ∀ done rest, turns = done ++ rest → (c.play done).state.ended r →
    (c.play turns).state.status? r = (c.play done).state.status? r
  later : ∀ i result, ((c.play turns).prog i).result = some result →
    (∃ e ∈ share i (c.events turns), e.2.ended r) →
      (∃ status action, result = .error (.invalidTransition r status action)) ∨
      (result = .ok .unit ∧ ∀ e ∈ share i (c.events turns),
        (e.1.apply e.2).inner = e.2.inner ∧ (e.1.apply e.2).emitted = e.2.emitted)
  announced : ∃ labels,
    announced r (c.play turns).state.emitted = announced r c.state.emitted ++ labels ∧
      labels.filter (· ∉ liveLabels) =
        if c.state.ended r then []
        else (((c.play turns).state.status? r).filter (·.isTerminal)).toList.map (·.label)

/-- The section writes its status without a look at the run. -/
def Section.overrides : Section → Bool
  | .complete _ | .fail _ _ => true
  | _ => false

/-- The section ends the run. -/
def Section.ends (r : RunId) (w : RuntimeAuthority) : Section → Bool
  | .operation (.cancelRun _) | .complete _ | .fail _ _ => (w.status? r).any (!·.isTerminal)
  | _ => false

/-- No second section of `complete_run` or `fail_run` finds the run ended, and the save of the section
that ends it succeeds. -/
structure NoOverride (r : RunId) (c : Pool ι Section RuntimeAuthority AuthorityError Reply)
    (turns : List ι) : Prop where
  spared : ∀ e ∈ c.events turns, e.2.1.overrides → e.2.2.ended r = false
  saved : ∀ e ∈ c.events turns, e.2.1.ends r e.2.2 → e.2.2.fault = none

/-- A section of a call that may end the run `r`. -/
inductive Finishes (r : RunId) : Section → Prop where
  | cancelRun : Finishes r (.operation (.cancelRun r))
  | runStatus : Finishes r (.runStatus r)
  | markRunning : Finishes r (.markRunning r)
  | complete : Finishes r (.complete r)
  | fail (message : String) : Finishes r (.fail r message)

theorem FinishCall.op_only (r : RunId) (call : FinishCall) : (call.op r).Only (Finishes r) := by
  cases call with
  | cancelRun => exact lock_only .cancelRun
  | completeRun => exact checkThen_only .runStatus .complete
  | failRun message => exact checkThen_only .runStatus (.fail message)
  | markRunRunning => exact checkThen_only .runStatus .markRunning

section Sections

variable {r : RunId} {x : Section} {w : RuntimeAuthority}

theorem Finishes.publishes (h : Finishes r x) : x.publishes = none := by
  cases h <;> rfl

theorem Finishes.moves_of_ended (h : Finishes r x) (hEnded : w.ended r)
    (hOverrides : x.overrides = false) : x.moves w r = none := by
  cases h with
  | cancelRun => exact moved_of_ended r (next_of_terminal (by simp)) hEnded
  | runStatus => rfl
  | markRunning => exact moved_of_ended r (next_of_terminal (by simp)) hEnded
  | complete | fail => cases hOverrides

theorem moves_of_overrides (h : Finishes r x) (hOverrides : x.overrides) {status : RunStatus}
    (hStatus : w.status? r = some status) : ∃ next, x.moves w r = some next ∧ next.isTerminal := by
  cases h with
  | complete => exact ⟨.succeeded, by simp [Section.moves, RuntimeAuthority.moved, hStatus,
      Transition.next], rfl⟩
  | fail message => exact ⟨.failed message, by simp [Section.moves, RuntimeAuthority.moved, hStatus,
      Transition.next], rfl⟩
  | cancelRun | runStatus | markRunning => cases hOverrides

theorem Finishes.ended_apply (h : Finishes r x) (hEnded : w.ended r) : (x.apply w).ended r := by
  obtain ⟨status, hStatus, hTerminal⟩ := ended_iff.mp hEnded
  rw [ended_iff, x.status_after]
  by_cases hOverrides : x.overrides
  · obtain ⟨next, hMoves, hNext⟩ := moves_of_overrides h hOverrides hStatus
    exact ⟨next, by rw [hMoves, Option.some_or], hNext⟩
  · rw [h.moves_of_ended hEnded (eq_false_of_ne_true hOverrides), Option.none_or]
    exact ⟨status, hStatus, hTerminal⟩

theorem Finishes.ended_apply_iff (h : Finishes r x) (hLive : w.ended r = false) :
    (x.apply w).ended r ↔ x.ends r w := by
  rw [RuntimeAuthority.ended, x.status_after]
  cases hStatus : w.status? r with
  | none => cases h <;> simp [Section.moves, Operation.moves, RuntimeAuthority.moved, hStatus,
      Section.ends]
  | some status =>
    have hStatusLive : status.isTerminal = false := by
      simpa [RuntimeAuthority.ended, hStatus] using hLive
    cases h <;> cases status <;> simp_all [Section.moves, Operation.moves, RuntimeAuthority.moved,
      Section.ends, Transition.next, RunStatus.isTerminal]

theorem not_ended_of_ends (h : x.ends r w) : w.ended r = false := by
  have hAny : (w.status? r).any (!·.isTerminal) := by
    cases x with
    | operation o => cases o <;> first | exact h | cases h
    | complete | fail => exact h
    | _ => cases h
  unfold RuntimeAuthority.ended
  cases hStatus : w.status? r with
  | none => rfl
  | some status => simpa [hStatus] using hAny

theorem status_chained {tr : List (Section × RuntimeAuthority)} (hc : Prog.Chained w tr)
    (hTr : ∀ e ∈ tr, Finishes r e.1) (hSpared : ∀ e ∈ tr, e.1.overrides → e.2.ended r = false)
    (hEnded : w.ended r) : (Prog.after w tr).status? r = w.status? r := by
  refine hc.preserves (P := fun w' => w'.status? r = w.status? r) (fun e he hStatus => ?_) rfl
  have hEnded' : e.2.ended r := by rwa [RuntimeAuthority.ended, hStatus]
  have hOverrides : e.1.overrides = false := by
    by_contra h
    rw [hSpared e he (by simpa using h)] at hEnded'
    cases hEnded'
  refine (e.1.status_after e.2 r).trans ?_
  rw [(hTr e he).moves_of_ended hEnded' hOverrides, Option.none_or, hStatus]

/-- The statuses that a section publishes of the run. -/
def labels (r : RunId) (e : Section × RuntimeAuthority) : List String :=
  if e.2.fault.isSome then [] else ((e.1.moves e.2 r).map (·.label)).toList

/-- The ends that a section publishes of the run. -/
def endLabels (r : RunId) (e : Section × RuntimeAuthority) : List String :=
  (labels r e).filter (· ∉ liveLabels)

theorem announced_chained {tr : List (Section × RuntimeAuthority)} (hc : Prog.Chained w tr)
    (hTr : ∀ e ∈ tr, Finishes r e.1) : announced r (Prog.after w tr).emitted =
      announced r w.emitted ++ tr.flatMap (labels r) := by
  induction tr generalizing w with
  | nil => exact (List.append_nil _).symm
  | cons e tr ih =>
    obtain ⟨x, w'⟩ := e
    obtain ⟨rfl, hc⟩ := hc
    rw [Prog.after_cons, ih hc fun e he => hTr e (List.mem_cons_of_mem _ he), List.flatMap_cons,
      ← List.append_assoc]
    congr 1
    refine (x.announced_after w' r).trans ?_
    rw [(hTr (x, w') List.mem_cons_self).publishes]
    rfl

theorem endLabels_of_live {e : Section × RuntimeAuthority} (h : (e.1.apply e.2).ended r = false) :
    endLabels r e = [] := by
  unfold endLabels labels
  split
  · rfl
  · cases hMoves : e.1.moves e.2 r with
    | none => rfl
    | some next =>
      have hNext : next.isTerminal = false := by
        simpa [RuntimeAuthority.ended, e.1.status_after, hMoves] using h
      simp [label_mem_liveLabels, hNext]

theorem endLabels_of_ended {e : Section × RuntimeAuthority} (h : Finishes r e.1)
    (hEnded : e.2.ended r) (hOverrides : e.1.overrides = false) : endLabels r e = [] := by
  rw [endLabels, labels, h.moves_of_ended hEnded hOverrides]
  simp

theorem endLabels_of_turn {e : Section × RuntimeAuthority} (hLive : e.2.ended r = false)
    (hEnded : (e.1.apply e.2).ended r) : endLabels r e =
      if e.2.fault.isSome then []
      else ((e.1.apply e.2).status? r).toList.map (·.label) := by
  obtain ⟨status, hStatus, hTerminal⟩ := ended_iff.mp hEnded
  rw [e.1.status_after] at hStatus
  cases hMoves : e.1.moves e.2 r with
  | none =>
    rw [hMoves, Option.none_or] at hStatus
    rw [ended_iff.mpr ⟨status, hStatus, hTerminal⟩] at hLive
    cases hLive
  | some next =>
    rw [hMoves, Option.some_or] at hStatus
    cases hStatus
    rw [endLabels, labels, e.1.status_after, hMoves]
    split
    · rfl
    · simp [label_mem_liveLabels, hTerminal]

end Sections

section Calls

variable {r : RunId} {tr : List (Section × RuntimeAuthority)} {result : Except AuthorityError Reply}

theorem overrides_last {call : FinishCall} (h : Prog.Yields (call.op r) tr result)
    {e : Section × RuntimeAuthority} (he : e ∈ tr) (hOverrides : e.1.overrides) :
    ∃ w, tr = [(.runStatus r, w), e] ∧ result = e.2.answer (e.1.decide e.2) := by
  have hCheck {settled : RunStatus → Bool} {x : Section}
      (h : Prog.Yields (checkThen settled r x) tr result) :
      ∃ w, tr = [(.runStatus r, w), e] ∧ result = e.2.answer (e.1.decide e.2) := by
    obtain ⟨w, ⟨rfl, -⟩ | ⟨w', status, rfl, -, -, hResult⟩⟩ := checkThen_yields h
    · rw [List.mem_singleton.mp he] at hOverrides
      cases hOverrides
    · rcases List.mem_cons.mp he with rfl | he
      · cases hOverrides
      · obtain rfl := List.mem_singleton.mp he
        exact ⟨w, rfl, hResult⟩
  cases call with
  | cancelRun =>
    obtain ⟨w, rfl, -⟩ := lock_yields h
    rw [List.mem_singleton.mp he] at hOverrides
    cases hOverrides
  | completeRun | failRun message | markRunRunning => exact hCheck h

theorem overrides_harms {e : Section × RuntimeAuthority} (h : Finishes r e.1)
    (hOverrides : e.1.overrides) (hEnded : e.2.ended r) :
    ¬((∃ status action, e.2.answer (e.1.decide e.2) = .error (.invalidTransition r status action)) ∨
      (e.2.answer (e.1.decide e.2) = .ok .unit ∧ (e.1.apply e.2).emitted = e.2.emitted)) := by
  obtain ⟨status, hStatus, -⟩ := ended_iff.mp hEnded
  obtain ⟨next, hMoves, -⟩ := moves_of_overrides h hOverrides hStatus
  have hAnswer : e.2.answer (e.1.decide e.2) =
      e.2.fault.elim (.ok .unit) fun error => .error (.persistence error) := by
    obtain ⟨x, w⟩ := e
    cases h with
    | complete => exact transitionRun_answer (t := .complete) hStatus rfl
    | fail message => exact transitionRun_answer (t := .fail message) hStatus rfl
    | cancelRun | runStatus | markRunning => cases hOverrides
  rw [hAnswer]
  rintro (⟨status, action, hRefused⟩ | ⟨hOk, hSame⟩)
  · cases hFault : e.2.fault <;> simp [hFault] at hRefused
  · cases hFault : e.2.fault with
    | some error => simp [hFault] at hOk
    | none =>
      have hAnnounced := e.1.announced_after e.2 r
      rw [hSame, hMoves, hFault, h.publishes] at hAnnounced
      simp at hAnnounced

theorem later_harmless {call : FinishCall} (h : Prog.Yields (call.op r) tr result)
    (hSticky : tr.Pairwise fun e e' => e.2.ended r → e'.2.ended r)
    (hSpared : ∀ e ∈ tr, e.1.overrides → e.2.ended r = false)
    (hEnded : ∃ e ∈ tr, e.2.ended r) :
    (∃ status action, result = .error (.invalidTransition r status action)) ∨
      (result = .ok .unit ∧ ∀ e ∈ tr,
        (e.1.apply e.2).inner = e.2.inner ∧ (e.1.apply e.2).emitted = e.2.emitted) := by
  have hQuiet (w : RuntimeAuthority) : ((Section.runStatus r).apply w).inner = w.inner ∧
      ((Section.runStatus r).apply w).emitted = w.emitted := by
    unfold Section.apply
    dsimp only [Section.decide, RuntimeAuthority.runStatus]
    split <;> exact ⟨rfl, rfl⟩
  have hRefused {w : RuntimeAuthority} {t : Transition}
      (ht : t ∈ [.cancel, .pause, .resume, .markRunning]) (hEnded : w.ended r) :
      ∃ status action,
        w.answer (w.transitionRun r t) = .error (.invalidTransition r status action) := by
    obtain ⟨status, hStatus, hTerminal⟩ := ended_iff.mp hEnded
    exact ⟨status, t.action,
      by rw [transitionRun_refused hStatus (next_of_terminal ht status hTerminal)]; rfl⟩
  obtain ⟨e, he, hEnded⟩ := hEnded
  -- the check alone: the run is found ended, so the call is settled and has changed nothing
  have hCheck {w : RuntimeAuthority} {settled : RunStatus → Bool} (hTr : tr = [(.runStatus r, w)])
      (hResult : (w.status? r = none ∧ result = .error (.unknownRun r)) ∨
        ∃ status, w.status? r = some status ∧ settled status ∧ result = .ok .unit) :
      result = .ok .unit ∧ ∀ e ∈ tr,
        (e.1.apply e.2).inner = e.2.inner ∧ (e.1.apply e.2).emitted = e.2.emitted := by
    subst hTr
    obtain rfl := List.mem_singleton.mp he
    rcases hResult with ⟨hNone, -⟩ | ⟨-, -, -, hOk⟩
    · simp [RuntimeAuthority.ended, hNone] at hEnded
    · refine ⟨hOk, fun e he => ?_⟩
      obtain rfl := List.mem_singleton.mp he
      exact hQuiet _
  have hOverride {settled : RunStatus → Bool} {x : Section}
      (h : Prog.Yields (checkThen settled r x) tr result) (hx : x.overrides)
      (hSettled : ∀ status : RunStatus, ¬settled status → status.isTerminal = false) :
      result = .ok .unit ∧ ∀ e ∈ tr,
        (e.1.apply e.2).inner = e.2.inner ∧ (e.1.apply e.2).emitted = e.2.emitted := by
    obtain ⟨w, ⟨hTr, hResult⟩ | ⟨w', status, rfl, hStatus, hLive, -⟩⟩ := checkThen_yields h
    · exact hCheck hTr hResult
    · rcases List.mem_cons.mp he with rfl | he
      · simp [RuntimeAuthority.ended, hStatus, hSettled status hLive] at hEnded
      · obtain rfl := List.mem_singleton.mp he
        rw [hSpared (x, w') (by simp) hx] at hEnded
        cases hEnded
  cases call with
  | cancelRun =>
    obtain ⟨w, rfl, rfl⟩ := lock_yields h
    obtain rfl := List.mem_singleton.mp he
    exact .inl (hRefused (by simp) hEnded)
  | completeRun => exact .inr (hOverride h rfl fun status hs => by simpa using hs)
  | failRun message => exact .inr (hOverride h rfl fun status hs => by simpa using hs)
  | markRunRunning =>
    obtain ⟨w, ⟨hTr, hResult⟩ | ⟨w', status, rfl, -, -, rfl⟩⟩ := checkThen_yields h
    · exact .inr (hCheck hTr hResult)
    · refine .inl (hRefused (by simp) ?_)
      rcases List.mem_cons.mp he with rfl | he
      · exact List.rel_of_pairwise_cons hSticky (List.mem_singleton_self _) hEnded
      · obtain rfl := List.mem_singleton.mp he
        exact hEnded

end Calls

section Schedules

variable (r : RunId) (calls : ι → FinishCall) (w : RuntimeAuthority) (turns : List ι)

def sections : List (Section × RuntimeAuthority) :=
  ((finishing r calls w).events turns).map (·.2)

theorem sections_chained : Prog.Chained w (sections r calls w turns) :=
  Pool.events_chained turns (finishing r calls w)

theorem state_play : ((finishing r calls w).play turns).state =
    Prog.after w (sections r calls w turns) :=
  Pool.play_state turns _

theorem sections_finish : ∀ e ∈ sections r calls w turns, Finishes r e.1 := by
  intro e he
  obtain ⟨e', he', rfl⟩ := List.mem_map.mp he
  exact Pool.events_only (fun i => (calls i).op_only r) turns e' he'

theorem sections_sticky :
    Prog.Sticky (fun w => w.ended r = true) (sections r calls w turns) :=
  fun e he hEnded => (sections_finish r calls w turns e he).ended_apply hEnded

variable {r calls w turns}

theorem NoOverride.sections_spared (h : NoOverride r (finishing r calls w) turns) :
    ∀ e ∈ sections r calls w turns, e.1.overrides → e.2.ended r = false := by
  intro e he
  obtain ⟨e', he', rfl⟩ := List.mem_map.mp he
  exact h.spared e' he'

theorem endLabels_turning
    (hSpared : ∀ e ∈ sections r calls w turns, e.1.overrides → e.2.ended r = false)
    {pre post : List (Section × RuntimeAuthority)} {e : Section × RuntimeAuthority}
    (hEvents : sections r calls w turns = pre ++ e :: post)
    (hPre : ∀ e' ∈ pre, ¬(e'.1.apply e'.2).ended r) (hPost : ∀ e' ∈ post, e'.2.ended r) :
    (sections r calls w turns).flatMap (endLabels r) = endLabels r e := by
  have hPreNil : pre.flatMap (endLabels r) = [] :=
    List.flatMap_eq_nil_iff.mpr fun e' he' => endLabels_of_live (eq_false_of_ne_true (hPre e' he'))
  have hPostNil : post.flatMap (endLabels r) = [] := by
    refine List.flatMap_eq_nil_iff.mpr fun e' he' => ?_
    have hMem : e' ∈ sections r calls w turns := by simp [hEvents, he']
    refine endLabels_of_ended (sections_finish r calls w turns e' hMem) (hPost e' he') ?_
    by_contra h
    have hLive := hSpared e' hMem (by simpa using h)
    rw [hPost e' he'] at hLive
    cases hLive
  rw [hEvents, List.flatMap_append, List.flatMap_cons, hPreNil, hPostNil, List.nil_append,
    List.append_nil]

theorem NoOverride.endLabels_sections (h : NoOverride r (finishing r calls w) turns) :
    (sections r calls w turns).flatMap (endLabels r) =
      if w.ended r then []
      else (((Prog.after w (sections r calls w turns)).status? r).filter
        (·.isTerminal)).toList.map (·.label) := by
  have hFinish := sections_finish r calls w turns
  have hChained := sections_chained r calls w turns
  have hSticky := sections_sticky r calls w turns
  have hSpared := h.sections_spared
  split
  · rename_i hEnded
    refine List.flatMap_eq_nil_iff.mpr fun e he => ?_
    have hAt := hSticky.forall hChained hEnded e he
    refine endLabels_of_ended (hFinish e he) hAt ?_
    by_contra hOverrides
    rw [hSpared e he (by simpa using hOverrides)] at hAt
    cases hAt
  · rename_i hStart
    by_cases hEnd : (Prog.after w (sections r calls w turns)).ended r
    · obtain ⟨pre, e, post, hEvents, hPre, hLive, hTurn, hPost⟩ :=
        hSticky.turning hChained hStart hEnd
      have hMem : e ∈ sections r calls w turns := by simp [hEvents]
      have hLive := eq_false_of_ne_true hLive
      have hFault : e.2.fault = none := by
        obtain ⟨e', he', rfl⟩ := List.mem_map.mp hMem
        exact h.saved e' he' (((hFinish _ hMem).ended_apply_iff hLive).mp hTurn)
      -- after that section nothing moves the run any more
      have hKept : (Prog.after w (sections r calls w turns)).status? r =
          (e.1.apply e.2).status? r := by
        obtain ⟨hc, hAfter⟩ := (hEvents ▸ hChained).rest
        rw [hEvents, hAfter]
        exact status_chained hc (fun e' he' => hFinish e' (by simp [hEvents, he']))
          (fun e' he' => hSpared e' (by simp [hEvents, he'])) hTurn
      obtain ⟨status, hStatus, hTerminal⟩ := ended_iff.mp hTurn
      have hStatus : (e.1.apply e.2).status? r = some status := hStatus
      rw [endLabels_turning hSpared hEvents hPre hPost, endLabels_of_turn hLive hTurn, hFault, hKept,
        hStatus]
      simp [Option.filter, hTerminal]
    · have hNil : (sections r calls w turns).flatMap (endLabels r) = [] := by
        refine List.flatMap_eq_nil_iff.mpr fun e he => endLabels_of_live ?_
        by_contra hTurn
        have hTurn : (e.1.apply e.2).ended r := by simpa using hTurn
        obtain ⟨pre, post, hEvents⟩ := List.append_of_mem he
        obtain ⟨hc, hAfter⟩ := (hEvents ▸ hChained).rest
        refine hEnd ?_
        rw [hEvents, hAfter]
        exact hc.preserves (P := fun w => w.ended r = true)
          (fun e' he' => hSticky e' (by simp [hEvents, he'])) hTurn
      rw [hNil]
      cases hStatus : (Prog.after w (sections r calls w turns)).status? r with
      | none => rfl
      | some status =>
        have hLive : status.isTerminal = false := by
          simpa [RuntimeAuthority.ended, hStatus] using hEnd
        simp [hLive]

theorem announced_play : announced r ((finishing r calls w).play turns).state.emitted =
    announced r w.emitted ++ (sections r calls w turns).flatMap (labels r) := by
  rw [state_play]
  exact announced_chained (sections_chained r calls w turns) (sections_finish r calls w turns)

theorem NoOverride.wins (h : NoOverride r (finishing r calls w) turns) :
    FirstEndWins r (finishing r calls w) turns where
  status done rest hTurns hEnded := by
    subst hTurns
    rw [Pool.play_append, Pool.play_state]
    have hSub : ∀ e ∈ (((finishing r calls w).play done).events rest).map (·.2),
        e ∈ sections r calls w (done ++ rest) := fun e he => by
      rw [sections, Pool.events_append, List.map_append]
      exact List.mem_append_right _ he
    exact status_chained (Pool.events_chained rest _)
      (fun e he => sections_finish r calls w (done ++ rest) e (hSub e he))
      (fun e he => h.sections_spared e (hSub e he)) hEnded
  later i result hResult hEnded := by
    refine later_harmless (Pool.yields_of_result hResult) ?_ (fun e he => ?_) hEnded
    · exact ((sections_sticky r calls w turns).pairwise (sections_chained r calls w turns)).sublist
        (share_sublist i _)
    · exact h.spared (i, e) (mem_share.mp he)
  announced := by
    refine ⟨_, announced_play, ?_⟩
    rw [List.filter_flatMap, state_play]
    exact h.endLabels_sections

theorem FirstEndWins.spared (h : FirstEndWins r (finishing r calls w) turns) :
    ∀ e ∈ (finishing r calls w).events turns, e.2.1.overrides → e.2.2.ended r = false := by
  rintro ⟨i, e⟩ he hOverrides
  by_contra hEnded
  have hEnded : e.2.ended r := by simpa using hEnded
  have hFinish : Finishes r e.1 :=
    Pool.events_only (fun i => (calls i).op_only r) turns (i, e) he
  have hShare : e ∈ share i ((finishing r calls w).events turns) := mem_share.mpr he
  obtain ⟨rest, result, hRest, hYields⟩ := Pool.share_completes turns (finishing r calls w) i
  obtain ⟨w', hTr, rfl⟩ := overrides_last hYields (List.mem_append_left _ hShare) hOverrides
  -- the section is the last of its call, which has therefore ended
  have hNil : rest = [] := by
    generalize share i ((finishing r calls w).events turns) = es at hShare hTr
    match es, hTr with
    | [a], hTr =>
      cases hTr
      obtain rfl := List.mem_singleton.mp hShare
      cases hOverrides
    | a :: b :: es, hTr =>
      simp only [List.cons_append, List.cons.injEq] at hTr
      exact (List.append_eq_nil_iff.mp hTr.2.2).2
  subst hNil
  refine overrides_harms hFinish hOverrides hEnded ?_
  rcases h.later i _ hRest.result ⟨e, hShare, hEnded⟩ with hRefused | ⟨hOk, hSame⟩
  · exact .inl hRefused
  · exact .inr ⟨hOk, (hSame e hShare).2⟩

theorem FirstEndWins.noOverride (h : FirstEndWins r (finishing r calls w) turns) :
    NoOverride r (finishing r calls w) turns := by
  refine ⟨h.spared, fun e he hEnds => ?_⟩
  have hSpared : ∀ e ∈ sections r calls w turns, e.1.overrides → e.2.ended r = false := by
    intro e he
    obtain ⟨e', he', rfl⟩ := List.mem_map.mp he
    exact h.spared e' he'
  have hChained := sections_chained r calls w turns
  have hSticky := sections_sticky r calls w turns
  have hMem : e.2 ∈ sections r calls w turns := List.mem_map_of_mem he
  have hLive := not_ended_of_ends hEnds
  have hTurn : (e.2.1.apply e.2.2).ended r :=
    ((sections_finish r calls w turns e.2 hMem).ended_apply_iff hLive).mpr hEnds
  have hStart : ¬w.ended r := fun hStart => by
    rw [hSticky.forall hChained hStart e.2 hMem] at hLive
    cases hLive
  have hEnd : (Prog.after w (sections r calls w turns)).ended r := by
    obtain ⟨pre, post, hEvents⟩ := List.append_of_mem hMem
    obtain ⟨hc, hAfter⟩ := (hEvents ▸ hChained).rest
    rw [hEvents, hAfter]
    exact hc.preserves (P := fun w => w.ended r = true)
      (fun e' he' => hSticky e' (by simp [hEvents, he'])) hTurn
  obtain ⟨pre, e', post, hEvents, hPre, hLive', hTurn', hPost⟩ :=
    hSticky.turning hChained hStart hEnd
  -- the run ends in one section only, which is this one
  have hSame : e.2 = e' := by
    rw [hEvents] at hMem
    rcases List.mem_append.mp hMem with hMem | hMem
    · exact absurd hTurn (hPre e.2 hMem)
    · rcases List.mem_cons.mp hMem with hMem | hMem
      · exact hMem
      · rw [hPost e.2 hMem] at hLive
        cases hLive
  obtain ⟨labels', hLabels, hEndLabels⟩ := h.announced
  rw [announced_play] at hLabels
  obtain rfl := List.append_cancel_left hLabels
  rw [List.filter_flatMap, state_play, if_neg (show ¬(finishing r calls w).state.ended r from hStart)]
    at hEndLabels
  have hOne := (endLabels_turning hSpared hEvents hPre hPost).symm.trans hEndLabels
  rw [← hSame, endLabels_of_turn hLive hTurn] at hOne
  cases hFault : e.2.2.fault with
  | none => rfl
  | some error =>
    obtain ⟨status, hStatus, hTerminal⟩ := ended_iff.mp hEnd
    simp [hFault, hStatus, hTerminal, Option.filter] at hOne

/-- The first call that ends the run has the last word exactly when no call overrides it and its save
succeeds. -/
theorem firstEndWins_iff :
    FirstEndWins r (finishing r calls w) turns ↔ NoOverride r (finishing r calls w) turns :=
  ⟨FirstEndWins.noOverride, NoOverride.wins⟩

end Schedules

/-- `complete_run` and `cancel_run` on a run that has just been started. -/
def completionAndCancel : Pool Bool Section RuntimeAuthority AuthorityError Reply :=
  finishing coder (fun i => if i then .completeRun else .cancelRun)
    (History.play Call.step (inMemory []) started)

/-- The completion has checked the status when the run is cancelled.  Both calls return without an
error, and the run that was cancelled has succeeded. -/
theorem completion_overrides :
    (completionAndCancel.play [true, false]).state.status? coder = some .cancelled ∧
    (completionAndCancel.play [true, false, true]).state.status? coder = some .succeeded ∧
    (∀ i, ((completionAndCancel.play [true, false, true]).prog i).result = some (.ok .unit)) ∧
    ¬FirstEndWins coder completionAndCancel [true, false, true] := by
  have hBetween : (completionAndCancel.play [true, false]).state.status? coder = some .cancelled := by
    decide
  have hEnd : (completionAndCancel.play [true, false, true]).state.status? coder = some .succeeded := by
    decide
  refine ⟨hBetween, hEnd, fun i => by cases i <;> rfl, fun h => ?_⟩
  have hKept := h.status [true, false] [true] rfl (by rw [RuntimeAuthority.ended, hBetween]; rfl)
  rw [hBetween, hEnd] at hKept
  cases hKept

end Cronymax.Authority
