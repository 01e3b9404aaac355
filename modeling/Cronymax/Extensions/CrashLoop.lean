import Cronymax.Atomic.History
import Cronymax.Extensions.Registry

/-! The recovery of an extension whose host crashes: the steps of the supervisor that restarts it until
its budget is spent, and of the user's operations, which run beside it. -/

namespace Cronymax.Extensions.Recovery

/-- A running call, by what it does next. -/
inductive Task where
  | entering
  /-- `try_restart` counts the attempt. -/
  | counting
  | backingOff
  /-- `respawn`, up to the spawn of the host. -/
  | respawning
  | reactivating
  /-- `disable_after_crash` deactivates. -/
  | deactivating
  | disabling
  | clearing
  | releasing
  /-- `set_enabled(true)` has set the flag. -/
  | enabling
  | activating
  | awaiting
  | rollingBack
  | marking
  /-- `set_enabled(false)` has set the flag. -/
  | switchingOff
  | done
  deriving DecidableEq

/-- What is kept for one extension with a host. -/
structure ExtensionRuntime where
  enabled : Bool
  disabledReason : Option DisabledReason
  activated : Bool
  /-- A `u32` that counts the crashes since it was last removed, which an attempt over the budget, itself a
  `u32`, does. -/
  restartCount : Nat
  restartInProgress : Bool
  handle : Option Nat
  hosts : Nat
  respawns : Nat
  tasks : List Task

/-- A signal, a call of the user, or the next step of a task. -/
inductive Event where
  | signal
  | activate
  | setEnabled (enabled saved : Bool)
  | advance (task : Nat)
  | spawned (task : Nat) (ok : Bool)
  /-- `extension/activate` succeeds or fails. -/
  | answered (task : Nat) (ok : Bool)

namespace ExtensionRuntime

variable (maxRestarts : Nat) (s : ExtensionRuntime)

def new (enabled : Bool) : ExtensionRuntime :=
  ⟨enabled, none, false, 0, false, none, 0, 0, []⟩

def goto (i : Nat) (task : Task) : ExtensionRuntime := { s with tasks := s.tasks.set i task }

def spawnTask (task : Task) : ExtensionRuntime := { s with tasks := s.tasks ++ [task] }

/-- The checks of `activate`. -/
def Admits : Prop := s.enabled = true ∧ s.activated = false

instance : Decidable s.Admits := inferInstanceAs (Decidable (_ ∧ _))

def reset : ExtensionRuntime := { s with restartCount := 0, respawns := 0 }

/-- `activate`, its checks with the reset of the count. -/
def activate : ExtensionRuntime := if s.Admits then s.reset.spawnTask .activating else s

def flag (enabled : Bool) : ExtensionRuntime :=
  { s with enabled, disabledReason := if enabled then none else s.disabledReason }

/-- `set_enabled`. -/
def setEnabled (enabled saved : Bool) : ExtensionRuntime :=
  if saved then (s.flag enabled).spawnTask (if enabled then .enabling else .switchingOff)
  else s.flag enabled

/-- `on_host_crashed`: nothing of an extension that is not activated. -/
def onHostCrashed : ExtensionRuntime := if s.activated then s.spawnTask .entering else s

/-- `deactivate`, up to its first await. -/
def deactivate : ExtensionRuntime :=
  if s.activated then { s with activated := false, handle := none } else s

/-- The end of an activation. -/
def markActivated : ExtensionRuntime := { s with activated := true }

def removeHandle : ExtensionRuntime := { s with handle := none }

def enterFlight : ExtensionRuntime := { s with restartInProgress := true }

def leaveFlight : ExtensionRuntime := { s with restartInProgress := false }

/-- The first lines of `try_restart`. -/
def countAttempt : ExtensionRuntime := { s with restartCount := s.restartCount + 1 }

def forgetCount : ExtensionRuntime := { s with restartCount := 0 }

/-- `respawn` starts with the handle. -/
def startRespawn : ExtensionRuntime := { s with handle := none, respawns := s.respawns + 1 }

/-- `set_disabled_by_crash`. -/
def setDisabledByCrash : ExtensionRuntime :=
  { s with enabled := false, disabledReason := some .crash }

/-- The next step of a task. -/
def advanceTask (i : Nat) : Task → ExtensionRuntime
  | .entering => if s.restartInProgress then s.goto i .done else s.enterFlight.goto i .counting
  | .counting =>
    s.countAttempt.goto i
      (if maxRestarts < s.restartCount + 1 then .deactivating else .backingOff)
  | .backingOff =>
    if s.activated then s.startRespawn.goto i .respawning else s.goto i .releasing
  | .deactivating => s.deactivate.goto i .disabling
  | .disabling => s.setDisabledByCrash.goto i .clearing
  | .clearing => s.forgetCount.goto i .releasing
  | .releasing => s.leaveFlight.goto i .done
  | .enabling => if s.Admits then s.reset.goto i .activating else s.goto i .done
  | .rollingBack => s.removeHandle.goto i .done
  -- marking twice panics, which ends the task
  | .marking => s.markActivated.goto i .done
  | .switchingOff => s.deactivate.goto i .done
  | .respawning | .reactivating | .activating | .awaiting | .done => s

def host : ExtensionRuntime := { s with handle := some s.hosts, hosts := s.hosts + 1 }

/-- A task has spawned a host or failed to. -/
def spawnedTask (i : Nat) (ok : Bool) : Task → ExtensionRuntime
  | .respawning => if ok then s.host.goto i .reactivating else s.goto i .deactivating
  | .activating => if ok then s.host.goto i .awaiting else s.goto i .rollingBack
  | _ => s

/-- `extension/activate` has been answered. -/
def answeredTask (i : Nat) (ok : Bool) : Task → ExtensionRuntime
  | .reactivating => s.goto i (if ok then .releasing else .deactivating)
  | .awaiting => s.goto i (if ok then .marking else .rollingBack)
  | _ => s

def step (s : ExtensionRuntime) : Event → ExtensionRuntime
  | .signal => s.onHostCrashed
  | .activate => s.activate
  | .setEnabled enabled saved => s.setEnabled enabled saved
  | .advance i => (s.tasks[i]?.map (s.advanceTask maxRestarts i)).getD s
  | .spawned i ok => (s.tasks[i]?.map (s.spawnedTask i ok)).getD s
  | .answered i ok => (s.tasks[i]?.map (s.answeredTask i ok)).getD s

end ExtensionRuntime

end Cronymax.Extensions.Recovery

/-! Which runs end a crash loop.  Each restart is counted before it starts, and only one task at a time
restarts; a restart that has looked at the lifecycle table does not look again, and so outlives a
deactivation. -/

namespace Cronymax.Extensions.Recovery

open Atomic
open ExtensionRuntime (step)

/-- Disabled and deactivated. -/
def Off (s : ExtensionRuntime) : Prop := s.enabled = false ∧ s.activated = false

/-- The step is the start of an activation. -/
def Begins (s : ExtensionRuntime) (e : Event) : Prop :=
  s.Admits ∧ (e = .activate ∨ ∃ i, e = .advance i ∧ s.tasks[i]? = some .enabling)

namespace Task

/-- The task holds the single flight. -/
def inFlight : Task → Bool
  | .counting | .backingOff | .respawning | .reactivating | .deactivating | .disabling | .clearing
  | .releasing => true
  | _ => false

def starts : Task → Bool
  | .activating | .awaiting | .marking => true
  | _ => false

/-- The task is going to spawn a host. -/
def hosting : Task → Bool
  | .respawning => true
  | task => task.starts

def backs : Task → Bool
  | .backingOff => true
  | _ => false

def clears : Task → Bool
  | .clearing => true
  | _ => false

end Task

def ExtensionRuntime.number (s : ExtensionRuntime) (p : Task → Bool) : Nat := s.tasks.countP p

/-- What is promised of one step. -/
structure Kept (maxRestarts : Nat) (s : ExtensionRuntime) (e : Event) : Prop where
  bound : (step maxRestarts s e).respawns ≤ maxRestarts
  spawns : (step maxRestarts s e).hosts ≠ s.hosts → ¬Off s
  stays : Off s → (∀ saved, e ≠ .setEnabled true saved) → Off (step maxRestarts s e)
  disables : ∀ i, e = .advance i → s.tasks[i]? = some .disabling →
    Off (step maxRestarts s e) ∧ (step maxRestarts s e).disabledReason = some .crash
  overBudget : ∀ i, e = .advance i → s.tasks[i]? = some .counting → maxRestarts ≤ s.restartCount →
    (step maxRestarts s e).tasks[i]? = some .deactivating
  resets : Begins s e → (step maxRestarts s e).restartCount = 0
  once : (step maxRestarts s e).restartCount < s.restartCount →
    Begins s e ∨ s.activated = false ∧ s.number Task.starts = 0

/-- No activation begins while a restart waits, and nothing is switched off while a host is about to
start. -/
def Meets (s : ExtensionRuntime) : Event → Prop
  | .activate => s.Admits → s.number Task.backs = 0
  | .setEnabled false _ => s.activated = false → s.number Task.hosting = 0
  | .advance i => ∀ task, s.tasks[i]? = some task →
    (task = .enabling → s.Admits → s.number Task.backs = 0) ∧
      (task = .disabling → s.activated = false ∧ s.number Task.hosting = 0) ∧
        (task = .deactivating ∨ task = .switchingOff → s.activated = true → s.enabled = false →
          s.number Task.hosting = 0)
  | _ => True

instance Meets.decidable (s : ExtensionRuntime) : ∀ e, Decidable (Meets s e)
  | .activate => inferInstanceAs (Decidable (_ → _))
  | .setEnabled false _ => inferInstanceAs (Decidable (_ → _))
  | .advance i =>
    match hAt : s.tasks[i]? with
    | some task =>
      decidable_of_iff ((task = .enabling → s.Admits → s.number Task.backs = 0) ∧
        (task = .disabling → s.activated = false ∧ s.number Task.hosting = 0) ∧
          (task = .deactivating ∨ task = .switchingOff → s.activated = true → s.enabled = false →
            s.number Task.hosting = 0))
        ⟨fun h _ hTask => Option.some.inj (hAt.symm.trans hTask) ▸ h, fun h => h task hAt⟩
    | none => isTrue fun _ hTask => nomatch hAt.symm.trans hTask
  | .setEnabled true _ | .signal | .spawned _ _ | .answered _ _ => isTrue trivial

/-- The extension is activated, or an activation is under way. -/
def Live (s : ExtensionRuntime) : Prop := s.activated = true ∨ 0 < s.number Task.starts

/-- How the tasks and the tables fit together. -/
structure Sound (maxRestarts : Nat) (s : ExtensionRuntime) : Prop where
  flight : s.number Task.inFlight = s.restartInProgress.toNat
  bound : s.respawns ≤ maxRestarts
  budget : Live s → s.respawns + s.number Task.backs ≤ s.restartCount
  backoff : 0 < s.number Task.backs → s.restartCount ≤ maxRestarts
  cleared : 0 < s.number Task.clears → Live s → s.restartCount = 0
  off : Off s → s.number Task.hosting = 0

variable {maxRestarts : Nat} {s t : ExtensionRuntime} {i : Nat} {old new : Task}

theorem sound_new (enabled : Bool) : Sound maxRestarts (.new enabled) where
  flight := rfl
  bound := Nat.zero_le _
  budget _ := Nat.le_refl 0
  backoff _ := Nat.zero_le _
  cleared _ _ := rfl
  off _ := rfl

/-- One task has gone from a stage to the next. -/
def Moved (s t : ExtensionRuntime) (old new : Task) : Prop :=
  ∀ p : Task → Bool, p .done = false → t.number p + (p old).toNat = s.number p + (p new).toNat

/-- What a move does to the numbers of tasks. -/
structure Counts (s t : ExtensionRuntime) (old new : Task) : Prop where
  flight : t.number Task.inFlight + old.inFlight.toNat = s.number Task.inFlight + new.inFlight.toNat
  starts : t.number Task.starts + old.starts.toNat = s.number Task.starts + new.starts.toNat
  hosting : t.number Task.hosting + old.hosting.toNat = s.number Task.hosting + new.hosting.toNat
  backs : t.number Task.backs + old.backs.toNat = s.number Task.backs + new.backs.toNat
  clears : t.number Task.clears + old.clears.toNat = s.number Task.clears + new.clears.toNat

theorem Moved.counts (h : Moved s t old new) : Counts s t old new :=
  ⟨h _ rfl, h _ rfl, h _ rfl, h _ rfl, h _ rfl⟩

section Values

variable {p : Task → Bool} (h : Moved s t old new) (hDone : p .done = false)
include h hDone

theorem Moved.same (hSame : p old = p new) : t.number p = s.number p := by
  have hCount := h p hDone
  rw [hSame] at hCount
  exact Nat.add_right_cancel hCount

theorem Moved.gains (hOld : p old = false) (hNew : p new = true) : t.number p = s.number p + 1 := by
  have hCount := h p hDone
  rw [hOld, hNew] at hCount
  exact hCount

theorem Moved.loses (hOld : p old = true) (hNew : p new = false) : t.number p + 1 = s.number p := by
  have hCount := h p hDone
  rw [hOld, hNew] at hCount
  exact hCount

end Values

theorem moved_set (hAt : s.tasks[i]? = some old) (hTasks : t.tasks = s.tasks.set i new) :
    Moved s t old new := by
  intro p _
  obtain ⟨hLt, hGet⟩ := List.getElem?_eq_some_iff.mp hAt
  have hLe := List.boole_getElem_le_countP (p := p) hLt
  unfold ExtensionRuntime.number
  rw [hTasks, List.countP_set hLt]
  rw [hGet] at hLe ⊢
  generalize s.tasks.countP p = n at hLe ⊢
  cases hOld : p old with
  | false => cases p new <;> rfl
  | true =>
    rw [hOld] at hLe
    have hPos : 1 ≤ n := hLe
    show n - 1 + _ + 1 = n + _
    cases p new with
    | false => exact Nat.sub_add_cancel hPos
    | true => exact congrArg (· + 1) (Nat.sub_add_cancel hPos)

theorem moved_append (hTasks : t.tasks = s.tasks ++ [new]) : Moved s t .done new := by
  intro p hDone
  unfold ExtensionRuntime.number
  rw [hTasks, List.countP_append, List.countP_singleton, hDone]
  cases p new <;> rfl

theorem Sound.quiet (h : Sound maxRestarts s) (hMoved : Moved s t old new)
    (hEnabled : t.enabled = s.enabled) (hActivated : t.activated = s.activated)
    (hCount : t.restartCount = s.restartCount) (hProgress : t.restartInProgress = s.restartInProgress)
    (hRespawns : t.respawns = s.respawns)
    (hTasks : old.inFlight = new.inFlight ∧ new.starts.toNat ≤ old.starts.toNat ∧
      new.hosting.toNat ≤ old.hosting.toNat ∧ new.backs = false ∧ new.clears = false) :
    Sound maxRestarts t := by
  obtain ⟨hFlight, hStarts, hHosting, hBacks, hClears⟩ := hTasks
  obtain ⟨hF, hS, hH, hB, hC⟩ := hMoved.counts
  rw [hFlight] at hF
  rw [hBacks, Bool.toNat_false] at hB
  rw [hClears, Bool.toNat_false] at hC
  have hLive : Live t → Live s := by
    rintro (hOn | hPos)
    · exact .inl (hActivated ▸ hOn)
    · exact .inr (by omega)
  refine ⟨?_, ?_, fun hL => ?_, fun hPos => ?_, fun hPos hL => ?_, fun hOff => ?_⟩
  · rw [hProgress, ← h.flight]
    omega
  · rw [hRespawns]
    exact h.bound
  · have := h.budget (hLive hL)
    omega
  · have := h.backoff (by omega)
    omega
  · have := h.cleared (by omega) (hLive hL)
    omega
  · have := h.off ⟨hEnabled ▸ hOff.1, hActivated ▸ hOff.2⟩
    omega

theorem Sound.signal (h : Sound maxRestarts s) : Sound maxRestarts s.onHostCrashed := by
  unfold ExtensionRuntime.onHostCrashed
  split
  · exact h.quiet (moved_append rfl) rfl rfl rfl rfl rfl (by decide)
  · exact h

theorem starts_le_hosting (s : ExtensionRuntime) : s.number Task.starts ≤ s.number Task.hosting :=
  List.countP_mono_left fun task _ hStarts => by
    cases task <;> first | exact hStarts | rfl

theorem backs_clears_le_inFlight (s : ExtensionRuntime) :
    s.number Task.backs ≤ s.number Task.inFlight ∧ s.number Task.clears ≤ s.number Task.inFlight :=
  ⟨List.countP_mono_left fun task _ hBacks => (by cases task <;> first | exact hBacks | rfl),
    List.countP_mono_left fun task _ hClears => (by cases task <;> first | exact hClears | rfl)⟩

theorem Sound.only (h : Sound maxRestarts s) (hAt : s.tasks[i]? = some old)
    (hIn : old.inFlight = true) :
    s.number Task.inFlight = 1 ∧ s.number Task.backs = old.backs.toNat ∧
      s.number Task.clears = old.clears.toNat := by
  obtain ⟨hF, -, -, hB, hC⟩ := (moved_set hAt (t := s.goto i .done) rfl).counts
  obtain ⟨hBacks, hClears⟩ := backs_clears_le_inFlight (s.goto i .done)
  have hFlight := h.flight
  have hLe := Bool.toNat_le s.restartInProgress
  rw [hIn] at hF
  have hF : (s.goto i .done).number Task.inFlight + 1 = s.number Task.inFlight := hF
  have hB : (s.goto i .done).number Task.backs + old.backs.toNat = s.number Task.backs := hB
  have hC : (s.goto i .done).number Task.clears + old.clears.toNat = s.number Task.clears := hC
  omega

theorem Sound.enter (h : Sound maxRestarts s) (hAt : s.tasks[i]? = some .entering)
    (hFree : s.restartInProgress = false) :
    Sound maxRestarts (s.enterFlight.goto i .counting) := by
  have hMoved : Moved s (s.enterFlight.goto i .counting) .entering .counting := moved_set hAt rfl
  have hF := hMoved.gains (p := Task.inFlight) rfl rfl rfl
  have hS := hMoved.same (p := Task.starts) rfl rfl
  have hH := hMoved.same (p := Task.hosting) rfl rfl
  have hB := hMoved.same (p := Task.backs) rfl rfl
  have hC := hMoved.same (p := Task.clears) rfl rfl
  have hFlight : s.number Task.inFlight = 0 := by
    rw [h.flight, hFree]
    rfl
  refine ⟨?_, h.bound, fun hL => ?_, fun hPos => ?_, fun hPos hL => ?_, fun hOff => ?_⟩
  · rw [hF, hFlight]
    rfl
  · rw [hB]
    exact h.budget (hL.imp_right (hS ▸ ·))
  · exact h.backoff (hB ▸ hPos)
  · exact h.cleared (hC ▸ hPos) (hL.imp_right (hS ▸ ·))
  · exact hH.trans (h.off hOff)

theorem Sound.count (h : Sound maxRestarts s) (hAt : s.tasks[i]? = some .counting)
    (hNew : new = .deactivating ∨ new = .backingOff ∧ s.restartCount + 1 ≤ maxRestarts) :
    Sound maxRestarts (s.countAttempt.goto i new) := by
  obtain ⟨-, hNone, hNot⟩ := h.only hAt rfl
  have hMoved : Moved s (s.countAttempt.goto i new) .counting new := moved_set hAt rfl
  have hNone : s.number Task.backs = 0 := hNone
  have hNot : s.number Task.clears = 0 := hNot
  rcases hNew with rfl | ⟨rfl, hLeft⟩
  · have hF := hMoved.same (p := Task.inFlight) rfl rfl
    have hS := hMoved.same (p := Task.starts) rfl rfl
    have hH := hMoved.same (p := Task.hosting) rfl rfl
    have hB := hMoved.same (p := Task.backs) rfl rfl
    have hC := hMoved.same (p := Task.clears) rfl rfl
    refine ⟨hF.trans h.flight, h.bound, fun hL => ?_, fun hPos => ?_,
      fun hPos => ?_, fun hOff => hH.trans (h.off hOff)⟩
    · have hBudget := h.budget (hL.imp_right (hS ▸ ·))
      show s.respawns + _ ≤ s.restartCount + 1
      omega
    · omega
    · omega
  · have hF := hMoved.same (p := Task.inFlight) rfl rfl
    have hS := hMoved.same (p := Task.starts) rfl rfl
    have hH := hMoved.same (p := Task.hosting) rfl rfl
    have hB := hMoved.gains (p := Task.backs) rfl rfl rfl
    have hC := hMoved.same (p := Task.clears) rfl rfl
    refine ⟨hF.trans h.flight, h.bound, fun hL => ?_, fun _ => hLeft,
      fun hPos => ?_, fun hOff => hH.trans (h.off hOff)⟩
    · have hBudget := h.budget (hL.imp_right (hS ▸ ·))
      show s.respawns + _ ≤ s.restartCount + 1
      omega
    · omega

theorem Sound.wake (h : Sound maxRestarts s) (hAt : s.tasks[i]? = some .backingOff)
    (hOn : s.activated = true) :
    Sound maxRestarts
      (s.startRespawn.goto i .respawning) := by
  obtain ⟨-, hOne, hNot⟩ := h.only hAt rfl
  have hMoved : Moved s (s.startRespawn.goto i .respawning) .backingOff .respawning :=
    moved_set hAt rfl
  have hF := hMoved.same (p := Task.inFlight) rfl rfl
  have hS := hMoved.same (p := Task.starts) rfl rfl
  have hB := hMoved.loses (p := Task.backs) rfl rfl rfl
  have hC := hMoved.same (p := Task.clears) rfl rfl
  have hOne : s.number Task.backs = 1 := hOne
  have hNot : s.number Task.clears = 0 := hNot
  have hBudget := h.budget (.inl hOn)
  have hBackoff := h.backoff (by omega)
  refine ⟨?_, ?_, fun _ => ?_, fun hPos => ?_, fun hPos => ?_, fun hOff => ?_⟩
  · exact hF.trans h.flight
  · show s.respawns + 1 ≤ maxRestarts
    omega
  · show s.respawns + 1 + _ ≤ s.restartCount
    omega
  · omega
  · omega
  · exact absurd (hOn.symm.trans hOff.2) Bool.noConfusion

theorem Sound.deactivate (h : Sound maxRestarts s) (hAt : s.tasks[i]? = some old)
    (hTasks : old.inFlight = new.inFlight ∧ new.starts.toNat ≤ old.starts.toNat ∧
      new.hosting.toNat ≤ old.hosting.toNat ∧ new.backs = false ∧ new.clears = false)
    (hMeets : s.activated = true → s.enabled = false → s.number Task.hosting = 0) :
    Sound maxRestarts (s.deactivate.goto i new) := by
  unfold ExtensionRuntime.deactivate
  split
  · rename_i hOn
    have hQuiet := h.quiet (moved_set hAt (t := s.goto i new) rfl) rfl rfl rfl rfl rfl hTasks
    obtain ⟨-, -, hH, -, -⟩ := (moved_set hAt (t := s.goto i new) rfl).counts
    have hHosting := hTasks.2.2.1
    refine ⟨hQuiet.flight, hQuiet.bound, fun hL => hQuiet.budget ?_, hQuiet.backoff,
      fun hPos hL => hQuiet.cleared hPos ?_, fun hOff => ?_⟩
    · exact .inl hOn
    · exact .inl hOn
    · have := hMeets hOn hOff.1
      show (s.goto i new).number Task.hosting = 0
      omega
  · exact h.quiet (moved_set hAt rfl) rfl rfl rfl rfl rfl hTasks

theorem Sound.disable (h : Sound maxRestarts s) (hAt : s.tasks[i]? = some .disabling)
    (hOff : s.activated = false) (hCalm : s.number Task.hosting = 0) :
    Sound maxRestarts
      (s.setDisabledByCrash.goto i .clearing) := by
  obtain ⟨-, hNone, -⟩ := h.only hAt rfl
  have hMoved : Moved s (s.setDisabledByCrash.goto i .clearing) .disabling .clearing :=
    moved_set hAt rfl
  have hF := hMoved.same (p := Task.inFlight) rfl rfl
  have hS := hMoved.same (p := Task.starts) rfl rfl
  have hH := hMoved.same (p := Task.hosting) rfl rfl
  have hB := hMoved.same (p := Task.backs) rfl rfl
  have hNone : s.number Task.backs = 0 := hNone
  have hStarts := starts_le_hosting s
  have hDead : ¬Live (s.setDisabledByCrash.goto i .clearing) := by
    rintro (hOn | hPos)
    · exact absurd (hOff.symm.trans hOn) Bool.noConfusion
    · omega
  refine ⟨?_, h.bound, fun hL => absurd hL hDead, fun hPos => ?_, fun _ hL => absurd hL hDead,
    fun _ => ?_⟩
  · exact hF.trans h.flight
  · omega
  · omega

theorem Sound.clear (h : Sound maxRestarts s) (hAt : s.tasks[i]? = some .clearing) :
    Sound maxRestarts (s.forgetCount.goto i .releasing) := by
  obtain ⟨-, -, hOne⟩ := h.only hAt rfl
  have hMoved : Moved s (s.forgetCount.goto i .releasing) .clearing .releasing := moved_set hAt rfl
  have hF := hMoved.same (p := Task.inFlight) rfl rfl
  have hS := hMoved.same (p := Task.starts) rfl rfl
  have hH := hMoved.same (p := Task.hosting) rfl rfl
  have hB := hMoved.same (p := Task.backs) rfl rfl
  have hOne : s.number Task.clears = 1 := hOne
  refine ⟨?_, h.bound, fun hL => ?_, fun _ => Nat.zero_le _, fun _ _ => rfl, fun hOff => ?_⟩
  · exact hF.trans h.flight
  · have hL : Live s := hL.imp_right (hS ▸ ·)
    have hBudget := h.budget hL
    have hZero := h.cleared (by omega) hL
    show s.respawns + _ ≤ 0
    omega
  · exact hH.trans (h.off hOff)

theorem Sound.release (h : Sound maxRestarts s) (hAt : s.tasks[i]? = some .releasing) :
    Sound maxRestarts (s.leaveFlight.goto i .done) := by
  obtain ⟨hOne, -, -⟩ := h.only hAt rfl
  have hMoved : Moved s (s.leaveFlight.goto i .done) .releasing .done := moved_set hAt rfl
  have hF := hMoved.loses (p := Task.inFlight) rfl rfl rfl
  have hS := hMoved.same (p := Task.starts) rfl rfl
  have hH := hMoved.same (p := Task.hosting) rfl rfl
  have hB := hMoved.same (p := Task.backs) rfl rfl
  have hC := hMoved.same (p := Task.clears) rfl rfl
  refine ⟨?_, h.bound, fun hL => ?_, fun hPos => ?_, fun hPos hL => ?_, fun hOff => ?_⟩
  · show _ = 0
    omega
  · rw [hB]
    exact h.budget (hL.imp_right (hS ▸ ·))
  · exact h.backoff (hB ▸ hPos)
  · exact h.cleared (hC ▸ hPos) (hL.imp_right (hS ▸ ·))
  · exact hH.trans (h.off hOff)

theorem Sound.begin (h : Sound maxRestarts s) (hMoved : Moved s t old .activating)
    (hEnabled : t.enabled = true) (hCount : t.restartCount = 0) (hRespawns : t.respawns = 0)
    (hProgress : t.restartInProgress = s.restartInProgress) (hIdle : old.inFlight = false)
    (hNone : s.number Task.backs = 0) : Sound maxRestarts t := by
  have hF := hMoved.same (p := Task.inFlight) rfl hIdle
  have hB : t.number Task.backs + old.backs.toNat = s.number Task.backs := hMoved Task.backs rfl
  refine ⟨?_, ?_, fun _ => ?_, fun _ => ?_, fun _ _ => hCount, fun hOff => ?_⟩
  · rw [hProgress, ← h.flight]
    exact hF
  · rw [hRespawns]
    exact Nat.zero_le _
  · omega
  · omega
  · exact absurd (hEnabled.symm.trans hOff.1) Bool.noConfusion

theorem Sound.mark (h : Sound maxRestarts s) (hAt : s.tasks[i]? = some .marking) :
    Sound maxRestarts (s.markActivated.goto i .done) := by
  have hMoved : Moved s (s.markActivated.goto i .done) .marking .done := moved_set hAt rfl
  have hF := hMoved.same (p := Task.inFlight) rfl rfl
  have hS := hMoved.loses (p := Task.starts) rfl rfl rfl
  have hB := hMoved.same (p := Task.backs) rfl rfl
  have hC := hMoved.same (p := Task.clears) rfl rfl
  have hLive : Live s := .inr (by omega)
  refine ⟨?_, h.bound, fun _ => ?_, fun hPos => ?_, fun hPos _ => ?_, fun hOff => ?_⟩
  · exact hF.trans h.flight
  · rw [hB]
    exact h.budget hLive
  · exact h.backoff (hB ▸ hPos)
  · exact h.cleared (hC ▸ hPos) hLive
  · exact absurd hOff.2 Bool.noConfusion

theorem Sound.advance (h : Sound maxRestarts s) (hAt : s.tasks[i]? = some old)
    (hMeets : Meets s (.advance i)) : Sound maxRestarts (s.advanceTask maxRestarts i old) := by
  obtain ⟨hEnabling, hDisabling, hLeaving⟩ := hMeets old hAt
  cases old with
  | entering =>
    show Sound maxRestarts (if s.restartInProgress then s.goto i .done else _)
    split
    · exact h.quiet (moved_set hAt rfl) rfl rfl rfl rfl rfl (by decide)
    · rename_i hFree
      exact h.enter hAt (Bool.not_eq_true _ ▸ hFree)
  | counting =>
    refine h.count hAt ?_
    split
    · exact .inl rfl
    · exact .inr ⟨rfl, by omega⟩
  | backingOff =>
    show Sound maxRestarts (if s.activated then _ else s.goto i .releasing)
    split
    · rename_i hOn
      exact h.wake hAt hOn
    · exact h.quiet (moved_set hAt rfl) rfl rfl rfl rfl rfl (by decide)
  | deactivating => exact h.deactivate hAt (by decide) (hLeaving (.inl rfl))
  | disabling => exact h.disable hAt (hDisabling rfl).1 (hDisabling rfl).2
  | clearing => exact h.clear hAt
  | releasing => exact h.release hAt
  | enabling =>
    show Sound maxRestarts (if s.Admits then s.reset.goto i .activating else s.goto i .done)
    split
    · rename_i hAdmits
      exact h.begin (moved_set hAt rfl) hAdmits.1 rfl rfl rfl rfl (hEnabling rfl hAdmits)
    · exact h.quiet (moved_set hAt rfl) rfl rfl rfl rfl rfl (by decide)
  | rollingBack => exact h.quiet (moved_set hAt rfl) rfl rfl rfl rfl rfl (by decide)
  | marking => exact h.mark hAt
  | switchingOff => exact h.deactivate hAt (by decide) (hLeaving (.inr rfl))
  | respawning | reactivating | activating | awaiting | done => exact h

theorem Sound.spawned (h : Sound maxRestarts s) (hAt : s.tasks[i]? = some old) (ok : Bool) :
    Sound maxRestarts (s.spawnedTask i ok old) := by
  unfold ExtensionRuntime.spawnedTask
  split
  · split
    · exact h.quiet (moved_set hAt rfl) rfl rfl rfl rfl rfl (by decide)
    · exact h.quiet (moved_set hAt rfl) rfl rfl rfl rfl rfl (by decide)
  · split
    · exact h.quiet (moved_set hAt rfl) rfl rfl rfl rfl rfl (by decide)
    · exact h.quiet (moved_set hAt rfl) rfl rfl rfl rfl rfl (by decide)
  · exact h

theorem Sound.answered (h : Sound maxRestarts s) (hAt : s.tasks[i]? = some old) (ok : Bool) :
    Sound maxRestarts (s.answeredTask i ok old) := by
  unfold ExtensionRuntime.answeredTask
  split
  · exact h.quiet (moved_set hAt rfl) rfl rfl rfl rfl rfl (by cases ok <;> decide)
  · exact h.quiet (moved_set hAt rfl) rfl rfl rfl rfl rfl (by cases ok <;> decide)
  · exact h

theorem Sound.flag (h : Sound maxRestarts s) {enabled : Bool}
    (hMeets : enabled = false → s.activated = false → s.number Task.hosting = 0) :
    Sound maxRestarts (s.flag enabled) :=
  ⟨h.flight, h.bound, h.budget, h.backoff, h.cleared, fun hOff => hMeets hOff.1 hOff.2⟩

theorem Sound.setEnabled (h : Sound maxRestarts s) {enabled saved : Bool}
    (hMeets : Meets s (.setEnabled enabled saved)) :
    Sound maxRestarts (s.setEnabled enabled saved) := by
  have hFlag : Sound maxRestarts (s.flag enabled) := h.flag (by rintro rfl; exact hMeets)
  unfold ExtensionRuntime.setEnabled
  split
  · refine hFlag.quiet (moved_append rfl) rfl rfl rfl rfl rfl ?_
    cases enabled <;> decide
  · exact hFlag

theorem Sound.activate (h : Sound maxRestarts s) (hMeets : Meets s .activate) :
    Sound maxRestarts s.activate := by
  unfold ExtensionRuntime.activate
  split
  · rename_i hAdmits
    exact h.begin (moved_append rfl) hAdmits.1 rfl rfl rfl rfl (hMeets hAdmits)
  · exact h

theorem Sound.step {e : Event} (h : Sound maxRestarts s) (hMeets : Meets s e) :
    Sound maxRestarts (ExtensionRuntime.step maxRestarts s e) := by
  cases e with
  | signal => exact h.signal
  | activate => exact h.activate hMeets
  | setEnabled enabled saved => exact h.setEnabled hMeets
  | advance i =>
    show Sound maxRestarts ((s.tasks[i]?.map _).getD s)
    cases hAt : s.tasks[i]? with
    | none => exact h
    | some task => exact h.advance hAt hMeets
  | spawned i ok =>
    show Sound maxRestarts ((s.tasks[i]?.map _).getD s)
    cases hAt : s.tasks[i]? with
    | none => exact h
    | some task => exact h.spawned hAt ok
  | answered i ok =>
    show Sound maxRestarts ((s.tasks[i]?.map _).getD s)
    cases hAt : s.tasks[i]? with
    | none => exact h
    | some task => exact h.answered hAt ok

theorem advance_eq (hAt : s.tasks[i]? = some old) :
    step maxRestarts s (.advance i) = s.advanceTask maxRestarts i old := by
  show (s.tasks[i]?.map _).getD s = _
  rw [hAt]
  rfl

theorem deactivate_hosts : s.deactivate.hosts = s.hosts := by
  unfold ExtensionRuntime.deactivate
  split <;> rfl

theorem advanceTask_hosts : (s.advanceTask maxRestarts i old).hosts = s.hosts := by
  cases old with
  | entering =>
    show (if s.restartInProgress then s.goto i .done else _).hosts = _
    split <;> rfl
  | backingOff =>
    show (if s.activated then _ else s.goto i .releasing).hosts = _
    split <;> rfl
  | enabling =>
    show (if s.Admits then s.reset.goto i .activating else s.goto i .done).hosts = _
    split <;> rfl
  | deactivating | switchingOff => exact deactivate_hosts
  | _ => rfl

theorem hosts_step {e : Event} (hSpawn : (step maxRestarts s e).hosts ≠ s.hosts) :
    0 < s.number Task.hosting := by
  cases e with
  | spawned i ok =>
    have hSpawn : ((s.tasks[i]?.map (s.spawnedTask i ok)).getD s).hosts ≠ s.hosts := hSpawn
    cases hAt : s.tasks[i]? with
    | none =>
      rw [hAt] at hSpawn
      exact absurd rfl hSpawn
    | some task =>
      rw [hAt] at hSpawn
      refine List.countP_pos_iff.mpr ⟨task, List.mem_of_getElem? hAt, ?_⟩
      by_contra hNot
      refine hSpawn ?_
      cases task <;> first | rfl | exact absurd rfl hNot
  | signal =>
    refine absurd ?_ hSpawn
    show (if s.activated then _ else s).hosts = _
    split <;> rfl
  | activate =>
    refine absurd ?_ hSpawn
    show (if s.Admits then _ else s).hosts = _
    split <;> rfl
  | setEnabled enabled saved =>
    refine absurd ?_ hSpawn
    show (if saved then _ else s.flag enabled).hosts = _
    split <;> rfl
  | advance i =>
    refine absurd ?_ hSpawn
    show ((s.tasks[i]?.map _).getD s).hosts = _
    cases s.tasks[i]? with
    | none => rfl
    | some task => exact advanceTask_hosts
  | answered i ok =>
    refine absurd ?_ hSpawn
    show ((s.tasks[i]?.map _).getD s).hosts = _
    cases s.tasks[i]? with
    | none => rfl
    | some task => cases task <;> rfl

theorem Off.deactivate (h : Off s) : Off s.deactivate := by
  unfold ExtensionRuntime.deactivate
  split
  · exact ⟨h.1, rfl⟩
  · exact h

theorem Off.advanceTask (h : Off s) (hNot : old ≠ .marking) :
    Off (s.advanceTask maxRestarts i old) := by
  cases old with
  | entering =>
    show Off (if s.restartInProgress then s.goto i .done else _)
    split
    · exact h
    · exact h
  | backingOff =>
    show Off (if s.activated then _ else s.goto i .releasing)
    split
    · exact h
    · exact h
  | enabling =>
    show Off (if s.Admits then s.reset.goto i .activating else s.goto i .done)
    split
    · exact h
    · exact h
  | deactivating | switchingOff => exact h.deactivate
  | marking => exact absurd rfl hNot
  | disabling => exact ⟨rfl, h.2⟩
  | _ => exact h

theorem Sound.stays (h : Sound maxRestarts s) {e : Event} (hOff : Off s)
    (hNot : ∀ saved, e ≠ .setEnabled true saved) : Off (ExtensionRuntime.step maxRestarts s e) := by
  cases e with
  | signal =>
    show Off (if s.activated then _ else s)
    split
    · exact hOff
    · exact hOff
  | activate =>
    show Off (if s.Admits then _ else s)
    split
    · exact hOff
    · exact hOff
  | setEnabled enabled saved =>
    cases enabled with
    | true => exact absurd rfl (hNot saved)
    | false =>
      show Off (if saved then _ else s.flag false)
      split
      · exact ⟨rfl, hOff.2⟩
      · exact ⟨rfl, hOff.2⟩
  | advance i =>
    show Off ((s.tasks[i]?.map _).getD s)
    cases hAt : s.tasks[i]? with
    | none => exact hOff
    | some task =>
      refine hOff.advanceTask ?_
      rintro rfl
      have hPos : 0 < s.number Task.hosting :=
        List.countP_pos_iff.mpr ⟨_, List.mem_of_getElem? hAt, rfl⟩
      exact Nat.ne_of_gt hPos (h.off hOff)
  | spawned i ok =>
    show Off ((s.tasks[i]?.map _).getD s)
    cases s.tasks[i]? with
    | none => exact hOff
    | some task => cases task <;> cases ok <;> exact hOff
  | answered i ok =>
    show Off ((s.tasks[i]?.map _).getD s)
    cases s.tasks[i]? with
    | none => exact hOff
    | some task => cases task <;> exact hOff

theorem resets_step {e : Event} (hBegins : Begins s e) :
    (step maxRestarts s e).restartCount = 0 := by
  obtain ⟨hAdmits, rfl | ⟨i, rfl, hAt⟩⟩ := hBegins
  · show (if s.Admits then _ else s).restartCount = 0
    rw [if_pos hAdmits]
    rfl
  · rw [advance_eq hAt]
    show (if s.Admits then _ else s.goto i .done).restartCount = 0
    rw [if_pos hAdmits]
    rfl

theorem advanceTask_count (hEnabling : old = .enabling → ¬s.Admits) (hClearing : old ≠ .clearing) :
    s.restartCount ≤ (s.advanceTask maxRestarts i old).restartCount := by
  cases old with
  | entering =>
    show _ ≤ (if s.restartInProgress then s.goto i .done else _).restartCount
    split
    · exact Nat.le_refl _
    · exact Nat.le_refl _
  | counting => exact Nat.le_succ _
  | backingOff =>
    show _ ≤ (if s.activated then _ else s.goto i .releasing).restartCount
    split
    · exact Nat.le_refl _
    · exact Nat.le_refl _
  | enabling =>
    show _ ≤ (if s.Admits then s.reset.goto i .activating else s.goto i .done).restartCount
    rw [if_neg (hEnabling rfl)]
    exact Nat.le_refl _
  | deactivating | switchingOff =>
    show _ ≤ s.deactivate.restartCount
    unfold ExtensionRuntime.deactivate
    split
    · exact Nat.le_refl _
    · exact Nat.le_refl _
  | clearing => exact absurd rfl hClearing
  | _ => exact Nat.le_refl _

theorem Sound.once (h : Sound maxRestarts s) {e : Event}
    (hLess : (ExtensionRuntime.step maxRestarts s e).restartCount < s.restartCount) :
    Begins s e ∨ s.activated = false ∧ s.number Task.starts = 0 := by
  cases e with
  | signal =>
    have hLess : (if s.activated then s.spawnTask .entering else s).restartCount < _ := hLess
    split at hLess <;> exact absurd hLess (Nat.lt_irrefl _)
  | activate =>
    by_cases hAdmits : s.Admits
    · exact .inl ⟨hAdmits, .inl rfl⟩
    · have hLess : (if s.Admits then s.reset.spawnTask .activating else s).restartCount < _ := hLess
      rw [if_neg hAdmits] at hLess
      exact absurd hLess (Nat.lt_irrefl _)
  | setEnabled enabled saved =>
    have hLess : (if saved then (s.flag enabled).spawnTask _ else s.flag enabled).restartCount < _ :=
      hLess
    split at hLess <;> exact absurd hLess (Nat.lt_irrefl _)
  | advance i =>
    cases hAt : s.tasks[i]? with
    | none =>
      have hLess : ((s.tasks[i]?.map _).getD s).restartCount < _ := hLess
      rw [hAt] at hLess
      exact absurd hLess (Nat.lt_irrefl _)
    | some task =>
      rw [advance_eq hAt] at hLess
      by_cases hClearing : task = .clearing
      · subst hClearing
        refine .inr ?_
        have hPos : 0 < s.number Task.clears :=
          List.countP_pos_iff.mpr ⟨_, List.mem_of_getElem? hAt, rfl⟩
        have hDead : ¬Live s := fun hLive =>
          absurd (h.cleared hPos hLive) (Nat.ne_of_gt (Nat.zero_lt_of_lt hLess))
        exact ⟨Bool.not_eq_true _ ▸ fun hOn => hDead (.inl hOn),
          Nat.eq_zero_of_not_pos fun hPos => hDead (.inr hPos)⟩
      · by_cases hBegins : task = .enabling ∧ s.Admits
        · exact .inl ⟨hBegins.2, .inr ⟨i, rfl, hBegins.1 ▸ hAt⟩⟩
        · exact absurd hLess (Nat.not_lt.mpr (advanceTask_count
            (fun hIs hAdmits => hBegins ⟨hIs, hAdmits⟩) hClearing))
  | spawned i ok =>
    have hLess : ((s.tasks[i]?.map (s.spawnedTask i ok)).getD s).restartCount < _ := hLess
    cases hAt : s.tasks[i]? with
    | none =>
      rw [hAt] at hLess
      exact absurd hLess (Nat.lt_irrefl _)
    | some task =>
      rw [hAt] at hLess
      cases task <;> cases ok <;> exact absurd hLess (Nat.lt_irrefl _)
  | answered i ok =>
    have hLess : ((s.tasks[i]?.map (s.answeredTask i ok)).getD s).restartCount < _ := hLess
    cases hAt : s.tasks[i]? with
    | none =>
      rw [hAt] at hLess
      exact absurd hLess (Nat.lt_irrefl _)
    | some task =>
      rw [hAt] at hLess
      cases task <;> exact absurd hLess (Nat.lt_irrefl _)

theorem set_self (hAt : s.tasks[i]? = some old) : (s.tasks.set i new)[i]? = some new :=
  List.getElem?_set_self (List.getElem?_eq_some_iff.mp hAt).1

theorem Sound.kept (h : Sound maxRestarts s) {e : Event} (hMeets : Meets s e) :
    Kept maxRestarts s e where
  bound := (h.step hMeets).bound
  spawns hSpawn hOff := Nat.ne_of_gt (hosts_step hSpawn) (h.off hOff)
  stays := h.stays
  disables i hIs hAt := by
    subst hIs
    rw [advance_eq hAt]
    exact ⟨⟨rfl, ((hMeets _ hAt).2.1 rfl).1⟩, rfl⟩
  overBudget i hIs hAt hSpent := by
    subst hIs
    rw [advance_eq hAt]
    show (s.tasks.set i (if _ then _ else _))[i]? = _
    rw [if_pos (Nat.lt_succ_of_le hSpent)]
    exact set_self hAt
  resets := resets_step
  once := h.once

/-- In every run whose steps meet the condition a crash loop ends within its budget, and a disabled
extension stays off until the user enables it. -/
theorem crash_loop_ends (maxRestarts : Nat) (enabled : Bool) (es : List Event)
    (hMeets : History.Each (step maxRestarts) Meets (.new enabled) es) :
    History.Each (step maxRestarts) (Kept maxRestarts) (.new enabled) es :=
  History.each_of_invariant (I := Sound maxRestarts)
    (fun _ _ h hMeets => ⟨h.step hMeets, h.kept hMeets⟩) hMeets (sound_new enabled)

/-- Two crashes with a budget of one: the second one disables the extension. -/
theorem crash_loop_ends_twice :
    History.Each (step 1) (Kept 1) (.new true)
      [.activate, .spawned 0 true, .answered 0 true, .advance 0, .signal, .advance 1, .advance 1,
        .advance 1, .spawned 1 true, .answered 1 true, .advance 1, .signal, .advance 2, .advance 2,
        .advance 2, .advance 2, .advance 2, .advance 2] :=
  crash_loop_ends 1 true _ (by decide)

/-- The user disables the extension while a restart is about to spawn its host. -/
theorem restart_outlives_disable :
    ¬History.Each (step 3) (Kept 3) (.new true)
      [.activate, .spawned 0 true, .answered 0 true, .advance 0, .signal, .advance 1, .advance 1,
        .advance 1, .setEnabled false true, .advance 2, .spawned 1 true] := by
  rintro ⟨-, -, -, -, -, -, -, -, -, -, hKept, -⟩
  exact hKept.spawns (by decide) ⟨rfl, rfl⟩

end Cronymax.Extensions.Recovery
