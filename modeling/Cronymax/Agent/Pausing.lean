import Cronymax.Agent.Handlers
import Cronymax.Agent.Conversation

/-! Runs that are paused.  A loop looks at the status of its run before each turn, and a run that it finds
paused it leaves as it is.  So a paused run stays paused if the loop comes to such a look before it
opens a review or settles the run, and if nobody cleans up after the loop. -/

namespace Cronymax.Agent

open Atomic Authority

/-- The section settles what becomes of the run. -/
def settles (runId : RunId) : Section → Bool
  | .markRunning r | .complete r | .fail r _ | .operation (.openReview r _ _) => r = runId
  | _ => false

/-- The section looks at the status of the run. -/
def looks (runId : RunId) : Section → Bool
  | .runStatus r => r = runId
  | _ => false

def HostAct.performs (P : Section → Bool) : HostAct → Bool
  | .act (.locked x) => P x
  | _ => false

def HostAct.isTool : HostAct → Bool
  | .act (.tool _) => true
  | _ => false

/-- The status of the run and what was announced of it. -/
def Host.shown (runId : RunId) (h : Host) : Option RunStatus × List String :=
  (h.world.authority.status? runId, announced runId h.world.authority.emitted)

def pauseRun (runId : RunId) : Section := .operation (.pauseRun runId)

/-- What is shown after `pause_run`. -/
def Host.whenPaused (runId : RunId) (h : Host) : Option RunStatus × List String :=
  Host.shown runId (Acts.apply (HostAct.act (.locked (pauseRun runId))) h)

section Points

variable (runId : RunId) (h : Host) (rest : List (HostAct × Host))

/-- The tools of the loop show nothing of the run. -/
def ToolsShowNothing : Prop :=
  ∀ e ∈ rest, e.1.isTool → Host.shown runId (Acts.apply e.1 e.2) = Host.shown runId e.2

/-- The rest of a task's execution, from the point at which its run has been paused in the state `h`:
nobody else shows anything of the run, and the tools of its loop do not either. -/
structure Undisturbed : Prop where
  alone : (Watch.undisturbed (Host.shown runId)).Along
    (Watch.undisturbed (Host.shown runId)).assumes (h.whenPaused runId) rest
  tools : ToolsShowNothing runId rest

/-- The loop of the run has still something to do with its status. -/
def InLoop : Prop := ∃ e ∈ rest, e.1.performs (looks runId) ∨ e.1.performs (settles runId)

/-- Before anything settles the run, its status is looked at. -/
def LooksFirst : Prop := ∃ before look after, rest = before ++ look :: after ∧
  look.1.performs (looks runId) ∧ (∀ e ∈ before, e.1.performs (settles runId) = false) ∧
  ∀ e ∈ after.head?, e.1.performs (settles runId) = false

/-- In the end the run is paused, and since the pause no end of it has been announced. -/
def StaysPaused : Prop :=
  ((Watch.undisturbed (Host.shown runId)).after (h.whenPaused runId) rest).1 = some .paused ∧
  ∀ label ∈ ((Watch.undisturbed (Host.shown runId)).after (h.whenPaused runId) rest).2.drop
      (h.whenPaused runId).2.length, label ≠ "failed" ∧ label ≠ "succeeded" ∧ label ≠ "cancelled"

end Points

/-- The site writes to the status after its loop has ended. -/
def Site.cleansUp : Site → Bool
  | .spawnChat | .spawnAgent => true
  | .startRun | .resumeRun => false

/-- How far a loop has come in noticing the pause. -/
inductive Phase where
  | free
  | looked
  | halted
deriving DecidableEq

namespace Phase

def pass : Phase → Phase
  | .looked | .halted => .halted
  | .free => .free

/-- The phase after a look at the status. -/
def look (phase : Phase) (paused : Prop) [Decidable paused] : Phase :=
  if paused then if phase = .free then .looked else .halted else .free

end Phase

/-- The section settles the run, or shows nothing of it. -/
def Tame (runId : RunId) (x : Section) : Prop :=
  settles runId x ∨ x.publishes.bind (·.announces runId) = none ∧ ∀ w, x.moves w runId = none

/-- Watches that a paused run stays paused. -/
@[grind =] def halting (runId : RunId) (cleansUp : Bool) : Watch Phase Section RuntimeAuthority where
  assumes _ _ _ := True
  demands phase x _ := (phase = .halted → settles runId x → cleansUp) ∧ Tame runId x
  next phase x w :=
    if settles runId x then .free
    else if looks runId x then phase.look (w.status? runId = some .paused)
    else phase.pass

def haltingLoop (runId : RunId) (cleansUp : Bool) : Watch Phase Act World where
  assumes _ _ _ := True
  demands phase x w :=
    match x with
    | .locked x => (halting runId cleansUp).demands phase x w.authority
    | _ => True
  next phase x w :=
    match x with
    | .locked x => (halting runId cleansUp).next phase x w.authority
    | _ => phase.pass

def haltingTask (runId : RunId) (cleansUp : Bool) : Watch Phase HostAct Host where
  assumes _ _ _ := True
  demands phase x h :=
    match x with
    | .act x => (haltingLoop runId cleansUp).demands phase x h.world
    | _ => True
  next phase x h :=
    match x with
    | .act x => (haltingLoop runId cleansUp).next phase x h.world
    | _ => phase.pass

section Calls

variable {runId : RunId} {cleansUp : Bool} {phase : Phase}

theorem checkThen_meets {settled : RunStatus → Bool} {x : Section} (hSettles : settles runId x)
    (hPaused : settled .paused = false) (hHalted : phase ≠ .free → cleansUp) :
    (checkThen settled runId x).Meets (halting runId cleansUp) (fun _ phase => phase = .free)
      phase := by
  have hLook : ∀ w, (halting runId cleansUp).next phase (.runStatus runId) w =
      phase.look (w.status? runId = some .paused) := by
    intro w
    simp [halting, settles, looks]
  have hLock : ∀ phase : Phase, (phase = .halted → cleansUp) →
      (lock x).Meets (halting runId cleansUp) (fun _ phase => phase = .free) phase := by
    intro phase hHalted
    refine Prog.Meets.perform fun w _ => ⟨⟨fun hNow _ => hHalted hNow, .inl hSettles⟩, ?_⟩
    have hFree : (halting runId cleansUp).next phase x w = .free := if_pos hSettles
    rw [hFree]
    cases w.answer (x.decide w) <;> rfl
  rw [checkThen, runStatus, bind_assoc]
  refine Prog.Meets.perform fun w _ =>
    ⟨⟨fun _ h => (by cases h), .inr ⟨rfl, fun _ => rfl⟩⟩, ?_⟩
  rw [hLook, RuntimeAuthority.status?, Snapshot.status?, ← RuntimeAuthority.run?]
  cases hRun : w.run? runId with
  | none => exact if_neg (by simp)
  | some run =>
    simp only [Prog.pure_eq, Prog.done_bind, Option.map_some, Option.some.injEq]
    by_cases hNow : run.status = .paused
    · rw [if_neg (by rw [hNow, hPaused]; exact Bool.false_ne_true)]
      refine hLock _ fun hHalt => hHalted fun hFree => ?_
      rw [Phase.look, if_pos hNow, if_pos hFree] at hHalt
      cases hHalt
    · have hFree : phase.look (run.status = .paused) = .free := if_neg hNow
      rw [hFree]
      split
      · rfl
      · exact hLock _ fun h => by cases h

theorem markRunRunning_meets (hHalted : phase ≠ .free → cleansUp) :
    (markRunRunning runId).Meets (halting runId cleansUp) (fun _ phase => phase = .free) phase :=
  checkThen_meets (x := .markRunning runId) (decide_eq_true rfl) rfl hHalted

theorem completeRun_meets (hHalted : phase ≠ .free → cleansUp) :
    (completeRun runId).Meets (halting runId cleansUp) (fun _ phase => phase = .free) phase :=
  checkThen_meets (x := .complete runId) (decide_eq_true rfl) rfl hHalted

theorem failRun_meets (message : String) (hHalted : phase ≠ .free → cleansUp) :
    (failRun runId message).Meets (halting runId cleansUp) (fun _ phase => phase = .free) phase :=
  checkThen_meets (x := .fail runId message) (decide_eq_true rfl) rfl hHalted

theorem ask_meets {α : Type} {op : Op α} {Q : Phase → Prop}
    (h : op.Meets (halting runId cleansUp) (fun _ phase => Q phase) phase) :
    (ask op).Meets (haltingLoop runId cleansUp) (fun _ phase => Q phase) phase :=
  h.within (fun _ _ _ _ => trivial) (fun _ _ _ h => h) (fun _ _ _ => rfl) fun _ _ h => h

theorem attempt_meets {α : Type} {op : Op α} {Q : Phase → Prop}
    (h : op.Meets (halting runId cleansUp) (fun _ phase => Q phase) phase) :
    (ask op).attempt.Meets (haltingLoop runId cleansUp) (Prog.Returns fun _ phase => Q phase)
      phase :=
  (ask_meets h).attempt fun _ _ hQ => hQ

theorem lock_meets {x : Section} (hTame : Tame runId x) (hSettles : settles runId x = false)
    (hLooks : looks runId x = false) :
    (lock x).Meets (halting runId cleansUp) (fun _ phase' => phase' = phase.pass) phase := by
  refine Prog.Meets.perform fun w _ => ⟨⟨fun _ h => (by rw [hSettles] at h; cases h), hTame⟩, ?_⟩
  have hNext : (halting runId cleansUp).next phase x w = phase.pass := by
    simp [halting, hSettles, hLooks]
  rw [hNext]
  cases w.answer (x.decide w) <;> rfl

theorem call_meets {α : Type} {op : Op α} {Q : Phase → Prop}
    (h : op.Meets (halting runId cleansUp) (fun _ phase => Q phase) phase) :
    (call op).Meets (haltingTask runId cleansUp) (Prog.Returns fun _ phase => Q phase) phase := by
  refine (h.attempt (R := fun r phase => Prog.Returns (fun _ phase => Q phase) r phase)
    fun _ _ h => h).within (fun _ _ _ _ => trivial) (fun _ _ _ h => h) (fun _ _ _ => rfl) ?_
  intro r phase h
  cases r with
  | ok _ => exact h
  | error _ => exact h.elim

end Calls

section Loop

variable {runId : RunId} {cleansUp : Bool} {l : ReactLoop}

theorem ofRun_kept (runId : RunId) : Kept runId (fun l => l.runId = runId) where
  runId h := h
  push h _ := h
  count h _ _ _ := h

theorem toolStep_passes (x : Act) (hTool : ReactLoop.ToolStep runId x) :
    Passes (haltingLoop runId cleansUp) (· = .free) x := by
  rintro phase w rfl
  cases hTool with
  | openReview request drawn =>
    have hSettles : settles runId (.operation (.openReview runId request drawn)) := decide_eq_true rfl
    exact ⟨⟨fun h => (by cases h), .inl hSettles⟩, if_pos hSettles⟩
  | registerCompletion reviewId =>
    exact ⟨⟨fun h => (by cases h), .inr ⟨rfl, fun _ => rfl⟩⟩, rfl⟩
  | beforeToolCall | dispatch | dispatchApproved | tool | drawReview | awaitReview | awaitChild =>
    exact ⟨trivial, rfl⟩

theorem stream_passes (purpose : Purpose) (request : LlmRequest) :
    Passes (haltingLoop runId cleansUp) (· = .free) (.stream runId purpose request) := by
  rintro phase w rfl
  exact ⟨trivial, rfl⟩

/-- A turn that has looked at a paused run stops. -/
def TurnHalts (e : TurnEnd) (phase : Phase) : Prop :=
  phase = .free ∨ phase = .looked ∧ ∃ l, e = .stop l (.error .cancelled)

theorem takeTurn_meets (hLoop : l.runId = runId) :
    l.takeTurn.Meets (haltingLoop runId cleansUp)
      (Prog.Returns fun e phase => e.loop.runId = runId ∧ TurnHalts e phase) .free := by
  subst hLoop
  rw [ReactLoop.takeTurn, ask_runStatus]
  intro w _
  have hLook : (haltingLoop l.runId cleansUp).next .free (.locked (.runStatus l.runId)) w =
      Phase.look .free (w.authority.status? l.runId = some .paused) := by
    simp [haltingLoop, halting, settles, looks]
  refine ⟨⟨fun h => (by cases h), .inr ⟨rfl, fun _ => rfl⟩⟩, ?_⟩
  rw [hLook]
  cases hStatus : w.authority.status? l.runId with
  | none =>
    simp only [hStatus]
    exact ⟨rfl, .inl rfl⟩
  | some status =>
    simp only [hStatus]
    have hTurn : (do
        let l' ← ReactLoop.reflect { l with turn := l.turn + 1 }
        l'.converse).Meets (haltingLoop l.runId cleansUp)
          (Prog.Returns fun e phase => e.loop.runId = l.runId ∧ TurnHalts e phase) .free := by
      refine (ReactLoop.reflect_rule (ofRun_kept l.runId) (stream_passes .reflection) (by rfl)
        (by rfl)).andThen fun l' phase hNext => ?_
      refine (ReactLoop.converse_rule (ofRun_kept l.runId) (fun _ ctx call phase hLoop hFree =>
        ReactLoop.runOneTool_rule toolStep_passes (ofRun_kept l.runId) hLoop ctx call hFree)
        stream_passes hNext.1 hNext.2).mono fun r phase hEnd => ?_
      cases r with
      | ok e => exact ⟨hEnd.1, .inl hEnd.2⟩
      | error e => exact hEnd.elim
    cases status with
    | paused => exact ⟨rfl, .inr ⟨rfl, l, rfl⟩⟩
    | cancelled | succeeded | failed _ => exact ⟨rfl, .inl rfl⟩
    | pending | running | awaitingReview => exact hTurn

/-- By induction on the turns that are left. -/
theorem drive_meets (turns : Nat) (hLoop : l.runId = runId) :
    (ReactLoop.drive turns l).Meets (haltingLoop runId cleansUp) (Prog.Returns fun r phase =>
      r.1.runId = runId ∧ (phase = .free ∨ phase = .looked ∧ r.2 = .error .cancelled)) .free := by
  induction turns generalizing l with
  | zero => exact ⟨hLoop, .inl rfl⟩
  | succ turns ih =>
    refine (takeTurn_meets hLoop).andThen fun e phase hEnd => ?_
    obtain ⟨hLoop', rfl | ⟨rfl, l', rfl⟩⟩ := hEnd
    · cases e with
      | next l' => exact ih hLoop'
      | stop l' result => exact ⟨hLoop', .inl rfl⟩
    · exact ⟨hLoop', .inr ⟨rfl, rfl⟩⟩

theorem flush_meets (phase : Phase) :
    l.flush.Meets (haltingLoop runId cleansUp) (Prog.Returns fun _ phase' =>
      phase' = phase ∨ phase' = phase.pass) phase := by
  rw [ReactLoop.flush]
  cases l.config.sessionId with
  | none => exact .inl rfl
  | some sid =>
    exact (attempt_meets (lock_meets (.inr ⟨rfl, fun _ => rfl⟩) rfl rfl)).andThen
      fun _ _ hPass => .inr hPass

theorem settle_meets (hLoop : l.runId = runId) {result : Except LoopError Unit} {phase : Phase}
    (hPhase : phase = .free ∨ result = .error .cancelled) :
    (l.settle result).Meets (haltingLoop runId cleansUp)
      (fun r phase => phase = .free ∨ r = .error .cancelled) phase := by
  rw [ReactLoop.settle.eq_def, hLoop]
  obtain rfl | rfl := hPhase
  · cases result with
    | ok _ =>
      exact (attempt_meets (completeRun_meets fun h => absurd rfl h)).andThen
        fun _ _ hFree => .inl hFree
    | error e =>
      cases e with
      | cancelled => exact .inr rfl
      | authority _ | provider _ | maxTurnsExceeded _ | reviewChannelClosed =>
        exact (attempt_meets (failRun_meets _ fun h => absurd rfl h)).andThen
          fun _ _ hFree => .inl hFree
  · exact .inr rfl

theorem run_meets (hLoop : l.runId = runId) :
    l.run.Meets (haltingLoop runId cleansUp) (fun r phase => phase = .free ∨ r = .error .cancelled)
      .free := by
  have hMark : (ask (markRunRunning l.runId)).Meets (haltingLoop runId cleansUp)
      (fun _ phase => phase = .free) .free := by
    rw [hLoop]
    exact ask_meets (markRunRunning_meets fun h => absurd rfl h)
  refine hMark.bind (fun _ phase hFree => ?_) fun _ _ hFree => .inl hFree
  subst hFree
  refine (drive_meets _ hLoop).andThen fun r phase hEnd => ?_
  obtain ⟨l', result⟩ := r
  refine (flush_meets phase).andThen fun _ phase' hFlushed => settle_meets hEnd.1 ?_
  obtain ⟨-, rfl | ⟨-, hCancelled⟩⟩ := hEnd
  · obtain rfl | rfl := hFlushed <;> exact .inl rfl
  · exact .inr hCancelled

end Loop

/-- The access leaves the status of the run alone. -/
def Mild (runId : RunId) : HostAct → Prop
  | .act (.locked x) => Tame runId x ∧ settles runId x = false ∧ looks runId x = false
  | _ => True

section Task

variable {runId : RunId} {cleansUp : Bool} {phase : Phase} {α : Type}

theorem mild_meets {p : HostOp α} (hMild : p.Only (Mild runId)) {I : Phase → Prop}
    (hPass : ∀ phase, I phase → I phase.pass) (hPhase : I phase) :
    p.Meets (haltingTask runId cleansUp) (fun _ phase => I phase) phase := by
  refine Prog.Meets.of_only hMild (fun x hx phase h hI _ => ?_) hPhase
  have hOther : ∀ y, (∀ z, y ≠ Act.locked z) →
      (haltingTask runId cleansUp).demands phase (.act y) h ∧
        I ((haltingTask runId cleansUp).next phase (.act y) h) := by
    intro y hy
    cases y with
    | locked z => exact absurd rfl (hy z)
    | _ => exact ⟨trivial, hPass phase hI⟩
  cases x with
  | act y =>
    cases y with
    | locked z =>
      obtain ⟨hTame, hSettles, hLooks⟩ := hx
      refine ⟨⟨fun _ h => (by rw [hSettles] at h; cases h), hTame⟩, ?_⟩
      have hNext : (haltingTask runId cleansUp).next phase (.act (.locked z)) h = phase.pass := by
        simp [haltingTask, haltingLoop, halting, hSettles, hLooks]
      rw [hNext]
      exact hPass phase hI
    | _ => exact hOther _ fun _ h => by cases h
  | _ => exact ⟨trivial, hPass phase hI⟩

theorem call_mild {x : Section} (hTame : Tame runId x) (hSettles : settles runId x = false)
    (hLooks : looks runId x = false) : (call (lock x)).Only (Mild runId) := by
  rw [call_lock]
  exact ⟨⟨hTame, hSettles, hLooks⟩, fun _ => trivial⟩

theorem priorThread_mild (sid : SessionId) (chatStore : Bool) :
    (priorThread sid chatStore).Only (Mild runId) := by
  rw [priorThread]
  split <;> exact .perform trivial fun _ => trivial

theorem maybeCompact_mild (thread : List ChatMessage) (model prompt : String) (pct turns : Nat) :
    (maybeCompact thread model prompt pct turns).Only (Mild runId) := by
  rw [maybeCompact]
  split
  · trivial
  · dsimp only
    split
    · trivial
    · refine .perform trivial fun h => ?_
      split <;> trivial

namespace LoopTask

variable (t : LoopTask)

theorem prior_mild : t.prior.Only (Mild runId) := by
  rw [prior]
  split
  · exact priorThread_mild _ _
  · trivial

theorem keepSummary_mild (sid : SessionId) (summary : String) :
    (t.keepSummary sid summary).Only (Mild runId) := by
  refine .perform trivial fun h => (call_mild (.inr ⟨rfl, fun _ => rfl⟩) rfl rfl).bind fun _ => ?_
  exact (call_mild (.inr ⟨rfl, fun _ => rfl⟩) rfl rfl).bind fun _ => trivial

theorem effectiveThread_mild (prior : List ChatMessage) (model : String) :
    (t.effectiveThread prior model).Only (Mild runId) := by
  rw [effectiveThread]
  split
  · trivial
  · refine (maybeCompact_mild _ _ _ _ _).bind fun result => ?_
    split
    · refine (call_mild (.inr ⟨rfl, fun _ => rfl⟩) rfl rfl).bind fun _ => ?_
      split
      · exact (t.keepSummary_mild _ _).bind fun _ => trivial
      · trivial
    · trivial

theorem appendThread_mild (sid : SessionId) : (t.appendThread sid).Only (Mild runId) := by
  rw [appendThread]
  split
  · refine .perform trivial fun h => ?_
    split
    · split
      · exact .perform trivial fun _ => trivial
      · trivial
    · trivial
  · trivial

theorem appendDelta_mild (sid : SessionId) (prior : List ChatMessage) :
    (t.appendDelta sid prior).Only (Mild runId) := by
  refine .perform trivial fun h => ?_
  split
  · refine (call_mild (.inr ⟨rfl, fun _ => rfl⟩) rfl rfl).bind fun _ => ?_
    split
    · exact .perform trivial fun _ => trivial
    · trivial
  · trivial

theorem persist_mild (prior : List ChatMessage) : (t.persist prior).Only (Mild runId) := by
  rw [persist]
  split
  · trivial
  · split
    · exact t.appendThread_mild _
    · exact t.appendThread_mild _
    · exact t.appendDelta_mild _ _
    · trivial

theorem giveUp_meets (message : String) (hHalted : phase ≠ .free → cleansUp) :
    (t.giveUp message).Meets (haltingTask t.runId cleansUp)
      (Prog.Returns fun _ phase => phase = .free) phase :=
  (call_meets (failRun_meets message hHalted)).andThen fun _ _ hFree => hFree

theorem drive_meets (config : LoopConfig) (thread : List ChatMessage) :
    (t.drive config thread).Meets (haltingTask t.runId t.site.cleansUp)
      (fun _ phase => t.site.cleansUp → phase = .free) .free := by
  have hRun : ((t.loop config thread).run.within .act Host.world id : HostOp Unit).attempt.Meets
      (haltingTask t.runId t.site.cleansUp)
      (Prog.Returns fun r phase => phase = .free ∨ r = .error .cancelled) .free := by
    have hLoop : (t.loop config thread).run.Meets (haltingLoop t.runId t.site.cleansUp)
        (fun r phase => phase = .free ∨ r = .error .cancelled) .free := run_meets rfl
    have hWithin : ((t.loop config thread).run.within .act Host.world id : HostOp Unit).Meets
        (haltingTask t.runId t.site.cleansUp)
        (fun r phase => phase = .free ∨ r = .error .cancelled) .free := by
      refine hLoop.within (fun _ _ _ _ => trivial) (fun _ _ _ h => h) (fun _ _ _ => rfl) ?_
      rintro r phase (hFree | rfl)
      · exact .inl hFree
      · exact .inr rfl
    exact hWithin.attempt fun _ _ h => h
  refine hRun.andThen fun r phase hPhase => ?_
  have hOk : ∀ a, r = .ok a → phase = .free := by
    rintro a rfl
    exact hPhase.resolve_right fun h => by cases h
  have hCleans : ∀ message, t.site.cleansUp = true →
      (t.giveUp message).Meets (haltingTask t.runId t.site.cleansUp)
        (fun _ phase => t.site.cleansUp → phase = .free) phase := by
    intro message hCleansUp
    refine (t.giveUp_meets message fun _ => hCleansUp).mono fun r phase hReturns _ => ?_
    cases r with
    | ok _ => exact hReturns
    | error _ => exact hReturns.elim
  cases hSite : t.site with
  | startRun | resumeRun => exact fun h => by cases h
  | spawnChat | spawnAgent =>
    rw [hSite] at hCleans
    cases r with
    | ok a => exact fun _ => hOk a rfl
    | error e => exact hCleans _ rfl

theorem prog_meets : t.prog.Meets (haltingTask t.runId t.site.cleansUp)
    (fun _ phase => t.site.cleansUp → phase = .free) .free := by
  have hFree : ∀ phase : Phase, phase = .free → phase.pass = .free := by
    rintro phase rfl
    rfl
  have hKept : ∀ phase : Phase, (t.site.cleansUp → phase = .free) →
      t.site.cleansUp → phase.pass = .free :=
    fun phase h hCleansUp => hFree phase (h hCleansUp)
  refine (mild_meets t.prior_mild hFree rfl).bind (fun prior phase hPhase => ?_)
    fun _ _ hPhase _ => hPhase
  subst hPhase
  refine Prog.Meets.perform fun h _ => ⟨trivial, ?_⟩
  show Prog.Meets _ _ _ Phase.free
  split
  · refine (t.giveUp_meets _ fun h => absurd rfl h).mono fun r phase hReturns _ => ?_
    cases r with
    | ok _ => exact hReturns
    | error _ => exact hReturns.elim
  · refine (mild_meets (t.effectiveThread_mild _ _) hFree rfl).bind (fun thread phase hPhase => ?_)
      fun _ _ hPhase _ => hPhase
    subst hPhase
    exact (t.drive_meets _ _).bind (fun _ phase hPhase => mild_meets (t.persist_mild _) hKept hPhase)
      fun _ _ hPhase => hPhase

end LoopTask

end Task

section Shown

variable {runId : RunId} {cleansUp : Bool} {e : HostAct × Host} {h : Host}

theorem shown_apply {phase : Phase} (hDemands : (haltingTask runId cleansUp).demands phase e.1 e.2)
    (hTool : e.1.isTool → Host.shown runId (Acts.apply e.1 e.2) = Host.shown runId e.2)
    (hSettles : e.1.performs (settles runId) = false) :
    Host.shown runId (Acts.apply e.1 e.2) = Host.shown runId e.2 := by
  obtain ⟨x, h⟩ := e
  cases x with
  | act y =>
    cases y with
    | locked z =>
      obtain hSettled | ⟨hPublishes, hMoves⟩ := hDemands.2
      · cases hSettled.symm.trans hSettles
      · have hStatus := z.status_after h.world.authority runId
        have hAnnounced := z.announced_after h.world.authority runId
        rw [hMoves] at hStatus hAnnounced
        rw [hPublishes, Option.map_none, Option.toList_none, ite_self, List.append_nil] at hAnnounced
        exact Prod.ext hStatus (hAnnounced.trans (List.append_nil _))
    | tool y => exact hTool rfl
    | _ => rfl
  | _ => rfl

theorem not_paused_of_settles (hSettles : e.1.performs (settles runId)) :
    (Host.shown runId (Acts.apply e.1 e.2)).1 ≠ some .paused := by
  obtain ⟨x, h⟩ := e
  have hMoved : ∀ t : Transition, (∀ status, t.next status ≠ some .paused) →
      t.next .paused ≠ none →
        (h.world.authority.moved runId t runId).or (h.world.authority.status? runId) ≠
          some .paused := by
    intro t hNever hLeaves
    rw [RuntimeAuthority.moved, if_pos rfl]
    cases hStatus : h.world.authority.status? runId with
    | none => simp
    | some status =>
      cases hNext : t.next status with
      | none =>
        rintro hSame
        simp only [Option.bind_some, hNext, Option.none_or] at hSame
        cases hSame
        exact hLeaves hNext
      | some next =>
        intro hSame
        simp only [Option.bind_some, hNext, Option.some_or] at hSame
        exact hNever status (hNext.trans hSame)
  have hAfter : ∀ z : Section, ((z.moves h.world.authority runId).or
      (h.world.authority.status? runId)) ≠ some .paused →
        (z.apply h.world.authority).status? runId ≠ some .paused := by
    intro z hz
    rw [z.status_after]
    exact hz
  cases x with
  | act y =>
    cases y with
    | locked z =>
      refine hAfter z ?_
      cases z with
      | markRunning r =>
        obtain rfl := of_decide_eq_true hSettles
        exact hMoved .markRunning (fun status => by cases status <;> exact fun h => by cases h)
          fun h => by cases h
      | complete r =>
        obtain rfl := of_decide_eq_true hSettles
        exact hMoved .complete (fun status h => by cases h) fun h => by cases h
      | fail r message =>
        obtain rfl := of_decide_eq_true hSettles
        exact hMoved (.fail message) (fun status h => by cases h) fun h => by cases h
      | operation o =>
        cases o with
        | openReview r request drawn =>
          obtain rfl := of_decide_eq_true hSettles
          show ((if r = r ∧ (h.world.authority.status? r).any (!·.isTerminal) then
            some RunStatus.awaitingReview else none).or (h.world.authority.status? r)) ≠ _
          split
          · exact fun h => by cases h
          · rename_i hRefused
            intro hSame
            exact hRefused ⟨rfl, by rw [Option.none_or] at hSame; rw [hSame]; rfl⟩
        | _ => cases hSettles
      | _ => cases hSettles
    | _ => cases hSettles
  | _ => cases hSettles

theorem paused_status {reply : Authority.Reply}
    (hPause : h.world.authority.answer ((pauseRun runId).decide h.world.authority) = .ok reply) :
    (h.whenPaused runId).1 = some .paused := by
  show ((pauseRun runId).apply h.world.authority).status? runId = some .paused
  rw [Section.status_after]
  show (h.world.authority.moved runId .pause runId).or _ = _
  rw [RuntimeAuthority.moved, if_pos rfl]
  have hAnswer : h.world.authority.answer (h.world.authority.transitionRun runId .pause) = .ok reply :=
    hPause
  unfold RuntimeAuthority.transitionRun at hAnswer
  cases hRun : h.world.authority.run? runId with
  | none =>
    rw [hRun] at hAnswer
    cases hAnswer
  | some run =>
    rw [status_of_run hRun, Option.bind_some]
    rw [hRun] at hAnswer
    dsimp only at hAnswer
    cases hStatus : run.status with
    | pending | running => rfl
    | paused | awaitingReview | succeeded | failed _ | cancelled =>
      rw [hStatus] at hAnswer
      cases hAnswer

end Shown

section Rest

variable {runId : RunId} {cleansUp : Bool} {shown : Option RunStatus × List String}
  {rest : List (HostAct × Host)} {phase : Phase}

theorem halted_next {e : HostAct × Host} (hPhase : phase ≠ .free)
    (hPaused : (Host.shown runId e.2).1 = some .paused)
    (hSettles : e.1.performs (settles runId) = false) :
    (haltingTask runId cleansUp).next phase e.1 e.2 = .halted := by
  have hPass : phase.pass = .halted := by
    cases phase with
    | free => exact absurd rfl hPhase
    | looked | halted => rfl
  obtain ⟨x, h⟩ := e
  cases x with
  | act y =>
    cases y with
    | locked z =>
      have hNot : ¬settles runId z := by
        intro hSettled
        cases hSettled.symm.trans hSettles
      show (if settles runId z then Phase.free
        else if looks runId z then phase.look (h.world.authority.status? runId = some .paused)
        else phase.pass) = .halted
      rw [if_neg hNot]
      split
      · have hNow : h.world.authority.status? runId = some .paused := hPaused
        rw [Phase.look, if_pos hNow, if_neg hPhase]
      · exact hPass
    | _ => exact hPass
  | _ => exact hPass

theorem look_next {e : HostAct × Host} (hLooks : e.1.performs (looks runId))
    (hPaused : (Host.shown runId e.2).1 = some .paused) :
    e.1.performs (settles runId) = false ∧
      (haltingTask runId cleansUp).next phase e.1 e.2 ≠ .free := by
  obtain ⟨x, h⟩ := e
  cases x with
  | act y =>
    cases y with
    | locked z =>
      cases z with
      | runStatus r =>
        refine ⟨rfl, ?_⟩
        have hNow : h.world.authority.status? runId = some .paused := hPaused
        show (if settles runId (.runStatus r) then Phase.free
          else if looks runId (.runStatus r) then
            phase.look (h.world.authority.status? runId = some .paused)
          else phase.pass) ≠ .free
        have hLook : looks runId (.runStatus r) := hLooks
        rw [if_neg (by exact Bool.false_ne_true), if_pos hLook, Phase.look, if_pos hNow]
        split <;> exact fun h => by cases h
      | _ => cases hLooks
    | _ => cases hLooks
  | _ => cases hLooks

variable (hAlone : (Watch.undisturbed (Host.shown runId)).Along
    (Watch.undisturbed (Host.shown runId)).assumes shown rest)
  (hPaused : shown.1 = some .paused) (hTools : ToolsShowNothing runId rest)

include hAlone hPaused hTools

theorem settles_none_of_halted
    (hDemands : (haltingTask runId false).Along (haltingTask runId false).demands .halted rest) :
    ∀ e ∈ rest, e.1.performs (settles runId) = false := by
  induction rest generalizing shown with
  | nil => exact fun e he => by cases he
  | cons e rest ih =>
    obtain ⟨hHere, hThen⟩ := hAlone
    obtain ⟨hDemand, hDemands⟩ := hDemands
    have hSettles : e.1.performs (settles runId) = false := by
      obtain ⟨x, h⟩ := e
      cases x with
      | act y =>
        cases y with
        | locked z =>
          by_contra hSettled
          cases hDemand.1 rfl (eq_true_of_ne_false hSettled)
        | _ => rfl
      | _ => rfl
    have hNow : (Host.shown runId e.2).1 = some .paused := by rw [hHere, hPaused]
    have hKept := shown_apply hDemand (hTools e List.mem_cons_self) hSettles
    rw [halted_next (by exact fun h => by cases h) hNow hSettles] at hDemands
    intro e' he'
    obtain rfl | he' := List.mem_cons.mp he'
    · exact hSettles
    · exact ih hThen ((congrArg Prod.fst hKept).trans hNow)
        (fun e he => hTools e (List.mem_cons_of_mem _ he)) hDemands e' he'

theorem not_free_after (hPhase : phase ≠ .free)
    (hDemands : (haltingTask runId cleansUp).Along (haltingTask runId cleansUp).demands phase rest)
    (hSettles : ∀ e ∈ rest, e.1.performs (settles runId) = false) :
    (haltingTask runId cleansUp).after phase rest ≠ .free := by
  induction rest generalizing shown phase with
  | nil => exact hPhase
  | cons e rest ih =>
    obtain ⟨hHere, hThen⟩ := hAlone
    have hNow : (Host.shown runId e.2).1 = some .paused := by rw [hHere, hPaused]
    have hSpared := hSettles e List.mem_cons_self
    have hKept := shown_apply hDemands.1 (hTools e List.mem_cons_self) hSpared
    have hNext := @halted_next _ cleansUp _ _ hPhase hNow hSpared
    refine ih hThen ((congrArg Prod.fst hKept).trans hNow) (fun e he => hTools e (List.mem_cons_of_mem _ he))
      (fun hFree => by cases hNext.symm.trans hFree) hDemands.2
      fun e he => hSettles e (List.mem_cons_of_mem _ he)

omit hPaused

theorem not_paused_after
    (hDemands : ∀ e ∈ rest, ∃ phase, (haltingTask runId cleansUp).demands phase e.1 e.2)
    (hNot : shown.1 ≠ some .paused ∨ ∃ e ∈ rest, e.1.performs (settles runId)) :
    ((Watch.undisturbed (Host.shown runId)).after shown rest).1 ≠ some .paused := by
  induction rest generalizing shown with
  | nil =>
    obtain hNot | ⟨e, he, -⟩ := hNot
    · exact hNot
    · cases he
  | cons e rest ih =>
    obtain ⟨hHere, hThen⟩ := hAlone
    obtain ⟨phase, hDemand⟩ := hDemands e List.mem_cons_self
    refine ih hThen (fun e he => hTools e (List.mem_cons_of_mem _ he))
      (fun e he => hDemands e (List.mem_cons_of_mem _ he)) ?_
    cases hSettles : e.1.performs (settles runId) with
    | true => exact .inl (not_paused_of_settles hSettles)
    | false =>
      have hKept := shown_apply hDemand (hTools e List.mem_cons_self) hSettles
      obtain hNot | ⟨e', he', hSettled⟩ := hNot
      · refine .inl fun hPaused => hNot ?_
        have hSame : Host.shown runId e.2 = shown := hHere
        rw [← hSame, ← hKept]
        exact hPaused
      · obtain rfl | he' := List.mem_cons.mp he'
        · cases hSettles.symm.trans hSettled
        · exact .inr ⟨e', he', hSettled⟩

end Rest

/-- What a watched rest of an execution comes to at a look that nothing has settled the run before. -/
structure AtLook (runId : RunId) (cleansUp : Bool) (shown : Option RunStatus × List String)
    (look : HostAct × Host) (late : List (HostAct × Host)) (phase : Phase) : Prop where
  spares : look.1.performs (settles runId) = false
  held : phase ≠ .free
  demands : (haltingTask runId cleansUp).Along (haltingTask runId cleansUp).demands phase late
  alone : (Watch.undisturbed (Host.shown runId)).Along
    (Watch.undisturbed (Host.shown runId)).assumes shown late

theorem at_look {runId : RunId} {cleansUp : Bool} {shown : Option RunStatus × List String}
    {early late : List (HostAct × Host)} {look : HostAct × Host} {phase : Phase}
    (hDemands : (haltingTask runId cleansUp).Along (haltingTask runId cleansUp).demands phase
      (early ++ look :: late))
    (hAlone : (Watch.undisturbed (Host.shown runId)).Along
      (Watch.undisturbed (Host.shown runId)).assumes shown (early ++ look :: late))
    (hPaused : shown.1 = some .paused) (hTools : ToolsShowNothing runId (early ++ look :: late))
    (hLooks : look.1.performs (looks runId))
    (hEarly : ∀ e ∈ early, e.1.performs (settles runId) = false) :
    ∃ held, (haltingTask runId cleansUp).after phase (early ++ look :: late) =
        (haltingTask runId cleansUp).after held late ∧ AtLook runId cleansUp shown look late held := by
  obtain ⟨hBefore, hLook, hLate⟩ := Watch.along_append.mp hDemands
  obtain ⟨hAloneEarly, hFound, hAloneLate⟩ := Watch.along_append.mp hAlone
  have hSame : (Watch.undisturbed (Host.shown runId)).after shown early = shown := by
    refine Watch.undisturbed_after (fun e he => ?_) hAloneEarly
    obtain ⟨phase, hDemand⟩ := hBefore.forall (Q := fun x s => ∃ phase,
      (haltingTask runId cleansUp).demands phase x s) (fun phase x s h => ⟨phase, h⟩) e he
    exact shown_apply hDemand (hTools e (List.mem_append_left _ he)) (hEarly e he)
  have hNow : Host.shown runId look.2 = shown := by
    rw [← hSame]
    exact hFound
  have hStatus : (Host.shown runId look.2).1 = some .paused := by rw [hNow, hPaused]
  obtain ⟨hSpares, hHeld⟩ := @look_next _ cleansUp ((haltingTask runId cleansUp).after phase early) _
    hLooks hStatus
  have hKept := shown_apply hLook (hTools look (by simp)) hSpares
  refine ⟨_, by rw [Watch.after_append, Watch.after_cons], hSpares, hHeld, hLate, ?_⟩
  have hNext : (Watch.undisturbed (Host.shown runId)).next
      ((Watch.undisturbed (Host.shown runId)).after shown early) look.1 look.2 = shown :=
    hKept.trans hNow
  rw [hNext] at hAloneLate
  exact hAloneLate

theorem AtLook.settles_none {runId : RunId} {shown : Option RunStatus × List String}
    {look : HostAct × Host} {late : List (HostAct × Host)} {phase : Phase}
    (h : AtLook runId false shown look late phase) (hPaused : shown.1 = some .paused)
    (hTools : ToolsShowNothing runId late)
    (hHead : ∀ e ∈ late.head?, e.1.performs (settles runId) = false) :
    ∀ e ∈ late, e.1.performs (settles runId) = false := by
  obtain ⟨-, hHeld, hDemands, hAlone⟩ := h
  cases late with
  | nil => exact fun e he => by cases he
  | cons e late =>
    have hSpares := hHead e rfl
    obtain ⟨hHere, hThen⟩ := hAlone
    have hNow : (Host.shown runId e.2).1 = some .paused := by rw [hHere, hPaused]
    have hKept := shown_apply hDemands.1 (hTools e List.mem_cons_self) hSpares
    have hRest := hDemands.2
    rw [halted_next hHeld hNow hSpares] at hRest
    intro e' he'
    obtain rfl | he' := List.mem_cons.mp he'
    · exact hSpares
    · exact settles_none_of_halted hThen ((congrArg Prod.fst hKept).trans hNow)
        (fun e he => hTools e (List.mem_cons_of_mem _ he)) hRest e' he'

/-- A run is paused while its task is in the loop: it stays paused, without an end of it being announced,
exactly if nobody cleans up after the loop and the first that the loop does about the status is a
look that it does nothing further about. -/
theorem stays_paused_iff (t : LoopTask) {before rest : List (HostAct × Host)}
    {result : Except LoopError Unit} (hRun : Prog.Yields t.prog (before ++ rest) result) {h : Host}
    {reply : Authority.Reply}
    (hPause : h.world.authority.answer ((pauseRun t.runId).decide h.world.authority) = .ok reply)
    (hInLoop : InLoop t.runId rest) (hRest : Undisturbed t.runId h rest) :
    StaysPaused t.runId h rest ↔ t.site.cleansUp = false ∧ LooksFirst t.runId rest := by
  obtain ⟨hAlong, hEnd⟩ := (t.prog_meets).sound hRun (Watch.along_of_forall fun _ _ _ => trivial)
  obtain ⟨hBefore, hAlong⟩ := Watch.along_append.mp hAlong
  rw [Watch.after_append] at hEnd
  generalize (haltingTask t.runId t.site.cleansUp).after .free before = phase at hAlong hEnd
  obtain ⟨hAlone, hTools⟩ := hRest
  have hPaused := paused_status hPause
  have hDemands : ∀ e ∈ rest, ∃ phase,
      (haltingTask t.runId t.site.cleansUp).demands phase e.1 e.2 :=
    hAlong.forall (Q := fun x s => ∃ phase,
      (haltingTask t.runId t.site.cleansUp).demands phase x s) fun phase x s h => ⟨phase, h⟩
  have hKeep : (∀ e ∈ rest, e.1.performs (settles t.runId) = false) →
      ∀ e ∈ rest, Host.shown t.runId (Acts.apply e.1 e.2) = Host.shown t.runId e.2 := by
    intro hSettles e he
    obtain ⟨phase, hDemand⟩ := hDemands e he
    exact shown_apply hDemand (hTools e he) (hSettles e he)
  constructor
  · rintro ⟨hStays, -⟩
    have hSettles : ∀ e ∈ rest, e.1.performs (settles t.runId) = false := by
      intro e he
      by_contra hSettled
      exact not_paused_after hAlone hTools hDemands
        (.inr ⟨e, he, eq_true_of_ne_false hSettled⟩) hStays
    obtain ⟨look, hMem, hLook⟩ := hInLoop
    have hLooks : look.1.performs (looks t.runId) :=
      hLook.resolve_right fun hSettled => by
        cases hSettled.symm.trans (hSettles look hMem)
    obtain ⟨early, late, rfl⟩ := List.append_of_mem hMem
    refine ⟨?_, early, look, late, rfl, hLooks,
      fun e he => hSettles e (List.mem_append_left _ he),
      fun e he => hSettles e (List.mem_append_right _ (List.mem_cons_of_mem _
        (List.mem_of_mem_head? he)))⟩
    cases hCleansUp : t.site.cleansUp with
    | false => rfl
    | true =>
      -- after the look the task would have to clean up, to be free in the end
      rw [hCleansUp] at hAlong hEnd
      obtain ⟨held, hAfter, hLate⟩ := at_look hAlong hAlone hPaused hTools hLooks
        fun e he => hSettles e (List.mem_append_left _ he)
      refine absurd ((hAfter.symm.trans (hEnd rfl))) (not_free_after hLate.alone hPaused
        (fun e he => hTools e (List.mem_append_right _ (List.mem_cons_of_mem _ he))) hLate.held
        hLate.demands fun e he => ?_)
      exact hSettles e (List.mem_append_right _ (List.mem_cons_of_mem _ he))
  · rintro ⟨hSite, early, look, late, rfl, hLooks, hEarly, hHead⟩
    have hSettles : ∀ e ∈ early ++ look :: late, e.1.performs (settles t.runId) = false := by
      rw [hSite] at hAlong
      obtain ⟨held, -, hLate⟩ := at_look hAlong hAlone hPaused hTools hLooks hEarly
      have hNone := hLate.settles_none hPaused
        (fun e he => hTools e (List.mem_append_right _ (List.mem_cons_of_mem _ he))) hHead
      intro e he
      obtain he | he := List.mem_append.mp he
      · exact hEarly e he
      · obtain rfl | he := List.mem_cons.mp he
        · exact hLate.spares
        · exact hNone e he
    have hSame : (Watch.undisturbed (Host.shown t.runId)).after (h.whenPaused t.runId)
        (early ++ look :: late) = h.whenPaused t.runId :=
      Watch.undisturbed_after (hKeep hSettles) hAlone
    refine ⟨by rw [hSame, hPaused], fun label hLabel => ?_⟩
    rw [hSame, List.drop_length] at hLabel
    cases hLabel

def listingTask (site : Site) : LoopTask :=
  ⟨site, chatRun, none, false, [], .ok { chatConfig with sessionId := none }, ""⟩

def calling : Host := ⟨callsTool .toolCalls, ∅⟩

def paused : Host := Acts.apply (HostAct.act (.locked (pauseRun chatRun))) calling

def upToReply (site : Site) : List (HostAct × Host) :=
  (listingTask site).prog.facing (List.replicate 4 calling)

def afterReply (site : Site) (turns : Nat) : List (HostAct × Host) :=
  ((listingTask site).prog.facing
    (List.replicate 4 calling ++ List.replicate turns paused)).drop 4

theorem afterReply_undisturbed :
    Undisturbed chatRun calling (afterReply .startRun 2) ∧
      Undisturbed chatRun calling (afterReply .spawnAgent 4) := by
  refine ⟨⟨⟨rfl, rfl, trivial⟩, ?_⟩, ⟨rfl, rfl, rfl, rfl, trivial⟩, ?_⟩
  · exact List.forall_iff_forall_mem.mp (.intro (fun h => by cases h) (fun h => by cases h))
  · exact List.forall_iff_forall_mem.mp (.intro (fun h => by cases h) (.intro (fun h => by cases h)
      (.intro (fun h => by cases h) (fun h => by cases h))))

/-- The loop of a chat looks at the status before its second turn. -/
theorem listing_stays_paused : StaysPaused chatRun calling (afterReply .startRun 2) := by
  have hRun : Prog.Yields (listingTask .startRun).prog
      (upToReply .startRun ++ afterReply .startRun 2) (.ok ()) :=
    .act (.act (.act (.act (.act (.act (.done ()))))))
  have hPause : calling.world.authority.answer ((pauseRun chatRun).decide calling.world.authority) =
      .ok .unit := rfl
  refine (stays_paused_iff (listingTask .startRun) hRun hPause ?_ afterReply_undisturbed.1).mpr
    ⟨rfl, ?_⟩
  · exact ⟨_, List.mem_of_getElem? (i := 1) rfl, .inl rfl⟩
  · refine ⟨[(.act (.dispatch chatRun ⟨"call", "ls", "\x7b\x7d"⟩), paused)], _, [], rfl, rfl, ?_, ?_⟩
    · exact fun e he => by obtain rfl := List.mem_singleton.mp he; rfl
    · exact fun e he => by cases he

/-- An agent of a flow is failed by the runner when its loop returns. -/
theorem agent_fails : ¬∀ (t : LoopTask) (before rest : List (HostAct × Host))
    (result : Except LoopError Unit) (h : Host) (reply : Authority.Reply),
      Prog.Yields t.prog (before ++ rest) result →
      h.world.authority.answer ((pauseRun t.runId).decide h.world.authority) = .ok reply →
      InLoop t.runId rest → Undisturbed t.runId h rest → StaysPaused t.runId h rest := by
  intro hClaim
  have hStays := (hClaim (listingTask .spawnAgent) (upToReply .spawnAgent) (afterReply .spawnAgent 4)
    (.ok ()) calling .unit (.act (.act (.act (.act (.act (.act (.act (.act (.done ()))))))))) rfl
    ⟨_, List.mem_of_getElem? (i := 1) rfl, .inl rfl⟩ afterReply_undisturbed.2).1
  have hFailed : ((Watch.undisturbed (Host.shown chatRun)).after (calling.whenPaused chatRun)
      (afterReply .spawnAgent 4)).1 = some (.failed "loop cancelled") := rfl
  cases hFailed.symm.trans hStays

end Cronymax.Agent
