import Cronymax.Authority.Operations

/-! What a section of the authority leaves.  Its effects on channels change neither the snapshot nor
what is saved, so each part of the state after a section is read off its decision. -/

namespace Cronymax.Authority

open Atomic

section Effects

variable (e : Effect) (effects : List Effect) (w : RuntimeAuthority)

theorem perform_cons : w.perform (e :: effects) = (e.apply w).perform effects := rfl

theorem perform_view {δ : Type} (view : RuntimeAuthority → δ)
    (hView : ∀ (e : Effect) w, view (e.apply w) = view w) : view (w.perform effects) = view w := by
  induction effects generalizing w with
  | nil => rfl
  | cons e effects ih => exact (ih (e.apply w)).trans (hView e w)

@[simp] theorem snapshot_perform : (w.perform effects).inner.snapshot = w.inner.snapshot := by
  refine perform_view effects w (fun w => w.inner.snapshot) fun e w => ?_
  cases e with
  | fire reviewId resolution => simp only [Effect.apply]; split <;> rfl
  | _ => rfl

@[simp] theorem taskTrees_perform : (w.perform effects).inner.taskTrees = w.inner.taskTrees := by
  refine perform_view effects w (fun w => w.inner.taskTrees) fun e w => ?_
  cases e with
  | fire reviewId resolution => simp only [Effect.apply]; split <;> rfl
  | _ => rfl

@[simp] theorem saved_perform : (w.perform effects).saved = w.saved := by
  refine perform_view effects w (fun w => w.saved) fun e w => ?_
  cases e with
  | fire reviewId resolution => simp only [Effect.apply]; split <;> rfl
  | _ => rfl

/-- What an effect emits. -/
def Effect.emission : Effect → Option Emission
  | .emit topics payload => some ⟨topics, payload⟩
  | _ => none

theorem emitted_perform :
    (w.perform effects).emitted = w.emitted ++ effects.filterMap Effect.emission := by
  induction effects generalizing w with
  | nil => exact (List.append_nil _).symm
  | cons e effects ih =>
    rw [perform_cons, ih]
    cases e with
    | emit topics payload => simp [Effect.apply, RuntimeAuthority.emitScoped, Effect.emission]
    | fire reviewId resolution =>
      simp only [Effect.apply, Effect.emission]
      split <;> rfl
    | _ => rfl

/-- The effect parks a sender or fires one. -/
def Effect.isHandoff : Effect → Bool
  | .park _ | .fire _ _ => true
  | _ => false

theorem handoff_perform {effects : List Effect} (h : ∀ e ∈ effects, e.isHandoff = false) :
    (w.perform effects).inner.pendingResolutions = w.inner.pendingResolutions ∧
      (w.perform effects).resolutions = w.resolutions := by
  induction effects generalizing w with
  | nil => exact ⟨rfl, rfl⟩
  | cons e effects ih =>
    obtain ⟨hParked, hSent⟩ := ih (e.apply w) fun e' he' => h e' (List.mem_cons_of_mem _ he')
    have he := h e List.mem_cons_self
    rw [perform_cons, hParked, hSent]
    cases e with
    | park reviewId | fire reviewId resolution => cases he
    | _ => exact ⟨rfl, rfl⟩

theorem perform_append (effects' : List Effect) :
    w.perform (effects ++ effects') = (w.perform effects).perform effects' :=
  List.foldl_append

end Effects

namespace Decision

/-- The snapshot that a decision leaves in memory. -/
def snapshot (before : Snapshot) : Decision → Snapshot
  | .refuse _ => before
  | .abort _ snapshot => snapshot
  | .commit c => c.snapshot

/-- The task trees that a decision leaves in memory. -/
def taskTrees (before : Table RunId TaskTree) : Decision → Table RunId TaskTree
  | .refuse _ | .abort _ _ => before
  | .commit c => c.taskTrees

end Decision

namespace RuntimeAuthority

variable (w : RuntimeAuthority)

/-- The effects that a decision brings about, those of a failing save among them. -/
@[grind =] def effectsOf : Decision → List Effect
  | .refuse _ | .abort _ _ => []
  | .commit c => if (w.failsWith c).isSome then [] else c.effects

/-- The state in which the effects take place. -/
def holds : Decision → RuntimeAuthority
  | .refuse _ => w
  | .abort _ snapshot => { w with inner := { w.inner with snapshot } }
  | .commit c => w.store c

theorem settle_eq (d : Decision) : w.settle d = (w.holds d).perform (w.effectsOf d) := by
  cases d with
  | refuse e => rfl
  | abort e snapshot => rfl
  | commit c =>
    simp only [settle, holds, effectsOf]
    cases w.failsWith c <;> rfl

end RuntimeAuthority

namespace Section

variable (x : Section) (w : RuntimeAuthority)

theorem snapshot_apply : (x.apply w).inner.snapshot = (x.decide w).snapshot w.inner.snapshot := by
  rw [Section.apply, RuntimeAuthority.settle_eq, snapshot_perform]
  cases x.decide w <;> rfl

theorem taskTrees_apply :
    (x.apply w).inner.taskTrees = (x.decide w).taskTrees w.inner.taskTrees := by
  rw [Section.apply, RuntimeAuthority.settle_eq, taskTrees_perform]
  cases x.decide w <;> rfl

theorem emitted_apply :
    (x.apply w).emitted = w.emitted ++ (w.effectsOf (x.decide w)).filterMap Effect.emission := by
  rw [Section.apply, RuntimeAuthority.settle_eq, emitted_perform]
  cases x.decide w <;> rfl

theorem status_apply (r : RunId) :
    (x.apply w).status? r = ((x.decide w).snapshot w.inner.snapshot).status? r := by
  rw [RuntimeAuthority.status?, snapshot_apply]

end Section

section Calls

variable (x : Section) (w : RuntimeAuthority)

theorem lock_run : (lock x).run w = (w.answer (x.decide w), x.apply w) := by
  rw [lock, Prog.perform_bind, Prog.run]
  cases w.answer (x.decide w) <;> rfl

theorem runStatus_run (runId : RunId) :
    (runStatus runId).run w =
      ((w.status? runId).elim (.error (.unknownRun runId)) .ok, (Section.runStatus runId).apply w) := by
  rw [runStatus, Prog.perform_bind, Prog.run, RuntimeAuthority.status?, Snapshot.status?,
    ← RuntimeAuthority.run?]
  cases w.run? runId <;> rfl

theorem checkThen_run (settled : RunStatus → Bool) (runId : RunId) :
    (checkThen settled runId x).run w =
      match w.status? runId with
      | none => (.error (.unknownRun runId), (Section.runStatus runId).apply w)
      | some status =>
        if settled status then (.ok .unit, (Section.runStatus runId).apply w)
        else (lock x).run ((Section.runStatus runId).apply w) := by
  rw [checkThen, Prog.run_bind, runStatus_run]
  cases w.status? runId with
  | none => rfl
  | some status =>
    dsimp only [Option.elim]
    split <;> rfl

theorem openReviewWithCompletion_run (runId : RunId) (request : Value) (drawn : ReviewId) :
    (openReviewWithCompletion runId request drawn).run w =
      let x := Section.operation (.openReview runId request drawn)
      match w.answer (x.decide w) with
      | .error e => (.error e, x.apply w)
      | .ok _ => (lock (.registerCompletion drawn)).run (x.apply w) := by
  rw [openReviewWithCompletion, Prog.run_bind, lock_run]
  dsimp only
  cases w.answer (Section.decide w (.operation (.openReview runId request drawn))) <;> rfl

end Calls

section Yields

variable {x : Section} {tr : List (Section × RuntimeAuthority)} {result : Except AuthorityError Reply}

theorem lock_yields (h : Prog.Yields (lock x) tr result) :
    ∃ w, tr = [(x, w)] ∧ result = w.answer (x.decide w) := by
  obtain ⟨w, tr', rfl, hTail⟩ := Prog.yields_perform.mp h
  refine ⟨w, ?_⟩
  cases hAnswer : w.answer (x.decide w) with
  | ok reply | error e =>
    rw [hAnswer] at hTail
    cases hTail
    exact ⟨rfl, rfl⟩

theorem checkThen_yields {settled : RunStatus → Bool} {runId : RunId}
    (h : Prog.Yields (checkThen settled runId x) tr result) :
    ∃ w, (tr = [(.runStatus runId, w)] ∧
        ((w.status? runId = none ∧ result = .error (.unknownRun runId)) ∨
          ∃ status, w.status? runId = some status ∧ settled status ∧ result = .ok .unit)) ∨
      ∃ w' status, tr = [(.runStatus runId, w), (x, w')] ∧ w.status? runId = some status ∧
        ¬settled status ∧ result = w'.answer (x.decide w') := by
  rw [checkThen, runStatus, bind_assoc] at h
  obtain ⟨w, tr', rfl, hTail⟩ := Prog.yields_perform.mp h
  refine ⟨w, ?_⟩
  cases hRun : w.run? runId with
  | none =>
    rw [hRun] at hTail
    cases hTail
    refine .inl ⟨rfl, .inl ⟨?_, rfl⟩⟩
    rw [RuntimeAuthority.status?, Snapshot.status?, ← RuntimeAuthority.run?, hRun, Option.map_none]
  | some run =>
    have hStatus := w.inner.snapshot.status_of_lookup hRun
    rw [hRun] at hTail
    dsimp only [Prog.pure_eq, Prog.done_bind] at hTail
    split at hTail
    · rename_i hSettled
      cases hTail
      exact .inl ⟨rfl, .inr ⟨run.status, hStatus, hSettled, rfl⟩⟩
    · rename_i hSettled
      obtain ⟨w', rfl, rfl⟩ := lock_yields hTail
      exact .inr ⟨w', run.status, rfl, hStatus, hSettled, rfl⟩

end Yields

end Cronymax.Authority
