import Cronymax.Atomic.History
import Mathlib.Logic.Basic

/-! The process of the runtime and the threads of the host that keep it: a pump that dispatches what the
runtime sends, and a supervisor that waits for the exit of the child and starts the next one. -/

namespace Cronymax.Bridge

inductive RuntimeBridgeStatus where
  | stopped
  | starting
  | ready
  | restarting
  | failed
  deriving DecidableEq

def kMaxRestartAttempts : Nat := 5

/-- How a call of `SpawnAndHandshake` can end. -/
inductive Attempt where
  | spawnFailed
  | handshakeFailed
  | ready
  deriving DecidableEq

/-- A child that has completed its handshake. -/
structure Child where
  number : Nat
  exited : Bool
  deriving DecidableEq

/-- `pump_thread_`. -/
inductive Pump where
  | none
  | idle (child : Nat)
  | holding (child : Nat)
  | ended
  deriving DecidableEq

/-- `supervisor_thread_`, by what it does next. -/
inductive Supervisor where
  | none
  | polling
  | noticed
  | joining
  /-- Dispatches `bridge_restarting`. -/
  | signalling
  | counting
  | attempting
  | finished
  deriving DecidableEq

/-- What the log of the bridge keeps. -/
inductive Note where
  | exit (child : Nat)
  | restarting
  | payload (child : Nat)
  deriving DecidableEq

/-- The bridge with its pump and its supervisor, as far as they have come. -/
structure RuntimeBridge where
  status : RuntimeBridgeStatus
  /-- An `int` that ends the supervisor once it is over `kMaxRestartAttempts`. -/
  restartCount : Nat
  /-- The process of `child_pid_`. -/
  child : Option Child
  /-- `client_` is set. -/
  client : Bool
  pumpStop : Bool
  pump : Pump
  supervisor : Supervisor
  starting : Bool
  crashed : Bool
  children : Nat
  log : List Note

inductive Event where
  | start (found : Bool)
  /-- `SpawnAndHandshake` of `Start` ends. -/
  | started (attempt : Attempt)
  | advance
  | attempted (attempt : Attempt)
  | receive
  | dispatch
  | quit
  | exit

namespace RuntimeBridge

variable (s : RuntimeBridge)

def new : RuntimeBridge :=
  ⟨.stopped, 0, none, false, false, .none, .none, false, false, 0, []⟩

/-- `SpawnAndHandshake`. -/
def spawnAndHandshake : Attempt → RuntimeBridge
  | .spawnFailed => { s with status := .failed }
  | .handshakeFailed => { s with status := .failed, child := none }
  | .ready =>
    { s with
      status := .ready
      child := some ⟨s.children, false⟩
      children := s.children + 1
      client := true
      pumpStop := false
      pump := .idle s.children
      crashed := s.crashed || s.pump ≠ .none }

/-- `Start`, up to the spawn. -/
def start (found : Bool) : RuntimeBridge :=
  if s.status = .ready ∨ s.status = .starting then s
  else if found then { s with status := .starting, restartCount := 0, starting := true }
  else { s with status := .failed, restartCount := 0 }

/-- `Start` creates the supervisor once the runtime is ready. -/
def launch : RuntimeBridge :=
  { s with supervisor := .polling, crashed := s.crashed || s.supervisor ≠ .none }

/-- The rest of `Start`. -/
def started (attempt : Attempt) : RuntimeBridge :=
  if s.starting then
    let t := { s.spawnAndHandshake attempt with starting := false }
    if attempt = .ready then t.launch else t
  else s

/-- One step of `SupervisorLoop`. -/
def advance : RuntimeBridge :=
  match s.supervisor with
  | .polling =>
    match s.child with
    | some ⟨_, true⟩ => { s with child := none, supervisor := .noticed }
    | _ => s
  | .noticed =>
    if s.status = .stopped then { s with supervisor := .finished }
    else { s with pumpStop := true, client := false, supervisor := .joining }
  | .joining =>
    match s.pump with
    | .none | .ended => { s with pump := .none, supervisor := .signalling }
    | _ => s
  | .signalling => { s with log := s.log ++ [.restarting], supervisor := .counting }
  | .counting =>
    if kMaxRestartAttempts < s.restartCount + 1 then
      { s with restartCount := s.restartCount + 1, status := .failed, supervisor := .finished }
    else
      { s with restartCount := s.restartCount + 1, status := .restarting, supervisor := .attempting }
  | .none | .attempting | .finished => s

/-- The attempt of the supervisor to start a child. -/
def attempted (attempt : Attempt) : RuntimeBridge :=
  if s.supervisor = .attempting then
    { s.spawnAndHandshake attempt with
      restartCount := if attempt = .ready then 0 else s.restartCount
      supervisor := .polling }
  else s

/-- The pump reads a payload. -/
def receive : RuntimeBridge :=
  match s.pump with
  | .idle child => { s with pump := if s.pumpStop ∨ ¬s.client then .ended else .holding child }
  | _ => s

/-- `DispatchPayload`. -/
def dispatchPayload : RuntimeBridge :=
  match s.pump with
  | .holding child => { s with pump := .idle child, log := s.log ++ [.payload child] }
  | _ => s

/-- The pump ends. -/
def quit : RuntimeBridge :=
  match s.pump with
  | .idle _ => { s with pump := .ended }
  | _ => s

/-- The child dies. -/
def exit : RuntimeBridge :=
  match s.child with
  | some ⟨number, false⟩ =>
    { s with child := some ⟨number, true⟩, log := s.log ++ [.exit number] }
  | _ => s

def step (s : RuntimeBridge) : Event → RuntimeBridge
  | .start found => s.start found
  | .started attempt => s.started attempt
  | .advance => s.advance
  | .attempted attempt => s.attempted attempt
  | .receive => s.receive
  | .dispatch => s.dispatchPayload
  | .quit => s.quit
  | .exit => s.exit

end RuntimeBridge

end Cronymax.Bridge

/-! Which runs keep the runtime alive.  The supervisor acts when the child that it knows exits, and an
attempt that fails leaves it without a child: it goes on with its loop and never tries again. -/

namespace Cronymax.Bridge

open Atomic
open RuntimeBridge (step)

/-- What a note says after the former ones: the child and whether it is down. -/
def Note.next : Nat × Bool → Note → Option (Nat × Bool)
  | (n, false), .exit child => if child = n then some (n, true) else none
  | (n, true), .restarting => some (n + 1, false)
  | (n, down), .payload child => if child = n then some (n, down) else none
  | _, _ => none

/-- What the log says of the last child. -/
def RuntimeBridge.reads (s : RuntimeBridge) : Option (Nat × Bool) := s.log.foldlM Note.next (0, false)

/-- A child has died and the supervisor has to see to it. -/
def Due (s : RuntimeBridge) : Prop :=
  s.supervisor ≠ .none ∧ ∀ child, s.child = some child → child.exited = true

/-- The steps that the threads make when nothing else happens. -/
def settle : List Event := [.dispatch, .quit, .advance, .advance, .advance, .advance, .advance]

/-- All exits have been signalled, and an attempt is under way or the budget is spent. -/
structure Retries (s : RuntimeBridge) : Prop where
  signalled : ∃ n, s.reads = some (n, false)
  attempts : s.supervisor = .attempting ∨ kMaxRestartAttempts < s.restartCount

/-- No call of `Start` and no restart is under way. -/
def AtRest (s : RuntimeBridge) : Prop :=
  s.starting = false ∧
    (s.supervisor = .none ∨ s.supervisor = .polling ∨ s.supervisor = .finished)

/-- The bridge is ready, with its supervisor and its pump. -/
structure Running (s : RuntimeBridge) : Prop where
  alive : s.crashed = false
  ready : s.status = .ready
  supervised : s.supervisor = .polling
  pumped : ∃ child, s.pump = .idle child

/-- What the bridge promises in every state. -/
structure Kept (s : RuntimeBridge) : Prop where
  alive : s.crashed = false
  alone : s.starting = true → s.supervisor = .none
  signals : s.reads ≠ none
  restarts : Due s → Retries (History.play step s settle)
  reset : s.status = .ready → s.restartCount = 0
  spent : AtRest s → s.supervisor ≠ .none → s.status = .failed → kMaxRestartAttempts < s.restartCount
  again : AtRest s → s.status = .failed →
    Running (History.play step s [.start true, .started .ready])

/-- `Start` is called on a stopped or failed bridge only where no supervisor is left, and a restart
succeeds. -/
def Meets (s : RuntimeBridge) : Event → Prop
  | .start found => s.status ≠ .ready → s.status ≠ .starting → found = true → s.supervisor = .none
  | .attempted attempt => s.supervisor = .attempting → attempt = .ready
  | _ => True

/-- No child has completed its handshake. -/
structure Before (s : RuntimeBridge) : Prop where
  alive : s.crashed = false
  supervisor : s.supervisor = .none
  child : s.child = none
  pump : s.pump = .none
  log : s.log = []
  children : s.children = 0
  reset : s.restartCount = 0
  starting : s.starting = true ↔ s.status = .starting
  status : s.status = .stopped ∨ s.status = .starting ∨ s.status = .failed

/-- The pump is one of this child, or has ended. -/
def Pump.Of (n : Nat) : Pump → Prop
  | .idle child | .holding child => child = n
  | .ended => True
  | .none => False

/-- Before the signal for the exit of the child. -/
structure Up (s : RuntimeBridge) (n : Nat) (down : Bool) : Prop where
  ready : s.status = .ready
  reset : s.restartCount = 0
  reads : s.reads = some (n, down)

/-- What the supervisor has found out of the child. -/
def Stage (s : RuntimeBridge) (n : Nat) : Supervisor → Prop
  | .polling => ∃ down, s.child = some ⟨n, down⟩ ∧ s.pump.Of n ∧ Up s n down
  | .noticed | .joining => s.child = none ∧ s.pump.Of n ∧ Up s n true
  | .signalling => s.child = none ∧ s.pump = .none ∧ Up s n true
  | .counting => s.child = none ∧ s.pump = .none ∧ Up s (n + 1) false
  | .attempting =>
    s.child = none ∧ s.pump = .none ∧
      ((s.status = .restarting ∨ s.status = .failed) ∧ s.restartCount ≤ kMaxRestartAttempts) ∧
        s.reads = some (n + 1, false)
  | .none | .finished => False

/-- The bridge once this child has been spawned. -/
structure After (s : RuntimeBridge) (n : Nat) : Prop where
  alive : s.crashed = false
  starting : s.starting = false
  children : s.children = n + 1
  stage : Stage s n s.supervisor

/-- The bridge before its first child or after. -/
def Sound (s : RuntimeBridge) : Prop := Before s ∨ ∃ n, After s n

theorem sound_new : Sound .new := .inl ⟨rfl, rfl, rfl, rfl, rfl, rfl, rfl, by simp [RuntimeBridge.new], .inl rfl⟩

variable {s : RuntimeBridge} {n : Nat}

theorem reads_more {read : Nat × Bool} (h : s.reads = some read) (note : Note) :
    (s.log ++ [note]).foldlM Note.next (0, false) = Note.next read note := by
  have h : s.log.foldlM Note.next (0, false) = some read := h
  rw [List.foldlM_append, h]
  show (Note.next read note).bind (List.foldlM Note.next · []) = _
  cases Note.next read note <;> rfl

theorem Before.start (h : Before s) (found : Bool) : Before (s.start found) := by
  unfold RuntimeBridge.start
  split
  · exact h
  · rename_i hOn
    have hStarting : s.starting = false := by
      cases hStart : s.starting with
      | false => rfl
      | true => exact absurd (.inr (h.starting.mp hStart)) hOn
    cases found with
    | true =>
      exact ⟨h.alive, h.supervisor, h.child, h.pump, h.log, h.children, rfl,
        ⟨fun _ => rfl, fun _ => rfl⟩, .inr (.inl rfl)⟩
    | false =>
      refine ⟨h.alive, h.supervisor, h.child, h.pump, h.log, h.children, rfl,
        ⟨fun hs => ?_, fun hs => ?_⟩, .inr (.inr rfl)⟩
      · exact absurd (hStarting.symm.trans hs) Bool.noConfusion
      · cases hs

theorem Before.started (h : Before s) (attempt : Attempt) : Sound (s.started attempt) := by
  unfold RuntimeBridge.started
  split
  · cases attempt with
    | spawnFailed =>
      exact .inl ⟨h.alive, h.supervisor, h.child, h.pump, h.log, h.children, h.reset,
        ⟨fun hs => (by cases hs), fun hs => (by cases hs)⟩, .inr (.inr rfl)⟩
    | handshakeFailed =>
      exact .inl ⟨h.alive, h.supervisor, rfl, h.pump, h.log, h.children, h.reset,
        ⟨fun hs => (by cases hs), fun hs => (by cases hs)⟩, .inr (.inr rfl)⟩
    | ready =>
      refine .inr ⟨0, ?_, rfl, ?_, false, ?_, ?_, rfl, h.reset, ?_⟩
      · show ((s.crashed || decide (s.pump ≠ .none)) || decide (s.supervisor ≠ .none)) = false
        rw [h.alive, h.pump, h.supervisor]
        rfl
      · exact congrArg (· + 1) h.children
      · exact congrArg (fun number => some (Child.mk number false)) h.children
      · exact h.children
      · show s.log.foldlM Note.next (0, false) = _
        rw [h.log]
        rfl
  · exact .inl h

/-- Before the first child only `Start` does something. -/
theorem Before.step (h : Before s) (e : Event) : Sound (RuntimeBridge.step s e) := by
  cases e with
  | start found => exact .inl (h.start found)
  | started attempt => exact h.started attempt
  | advance =>
    have hSame : s.advance = s := by
      unfold RuntimeBridge.advance
      rw [h.supervisor]
    exact .inl (show Before s.advance by rwa [hSame])
  | attempted attempt =>
    have hSame : s.attempted attempt = s := if_neg (by rw [h.supervisor]; decide)
    exact .inl (show Before (s.attempted attempt) by rwa [hSame])
  | receive =>
    have hSame : s.receive = s := by
      unfold RuntimeBridge.receive
      rw [h.pump]
    exact .inl (show Before s.receive by rwa [hSame])
  | dispatch =>
    have hSame : s.dispatchPayload = s := by
      unfold RuntimeBridge.dispatchPayload
      rw [h.pump]
    exact .inl (show Before s.dispatchPayload by rwa [hSame])
  | quit =>
    have hSame : s.quit = s := by
      unfold RuntimeBridge.quit
      rw [h.pump]
    exact .inl (show Before s.quit by rwa [hSame])
  | exit =>
    have hSame : s.exit = s := by
      unfold RuntimeBridge.exit
      rw [h.child]
    exact .inl (show Before s.exit by rwa [hSame])

theorem Stage.pumped {stage : Supervisor} (h : Stage s n stage) (hPump : s.pump ≠ .none) :
    s.pump.Of n ∧ ∃ down, s.reads = some (n, down) ∧
      ∀ t : RuntimeBridge, t.child = s.child → t.status = s.status →
        t.restartCount = s.restartCount → t.pump.Of n → t.reads = some (n, down) →
          Stage t n stage := by
  cases stage with
  | polling =>
    obtain ⟨down, hAt, hOf, hUp⟩ := h
    exact ⟨hOf, down, hUp.reads, fun t hChild hStatus hCount hOft hReads =>
      ⟨down, hChild.trans hAt, hOft, hStatus.trans hUp.ready, hCount.trans hUp.reset, hReads⟩⟩
  | noticed | joining =>
    obtain ⟨hAt, hOf, hUp⟩ := h
    exact ⟨hOf, true, hUp.reads, fun t hChild hStatus hCount hOft hReads =>
      ⟨hChild.trans hAt, hOft, hStatus.trans hUp.ready, hCount.trans hUp.reset, hReads⟩⟩
  | signalling | counting | attempting => exact absurd h.2.1 hPump
  | none | finished => exact h.elim

theorem After.receive (h : After s n) : After s.receive n := by
  unfold RuntimeBridge.receive
  split
  · rename_i child hAt
    obtain ⟨hOf, down, hReads, hStage⟩ := h.stage.pumped (by rw [hAt]; exact Pump.noConfusion)
    refine ⟨h.alive, h.starting, h.children, hStage _ rfl rfl rfl ?_ hReads⟩
    rw [hAt] at hOf
    split
    · trivial
    · exact hOf
  · exact h

theorem After.dispatchPayload (h : After s n) : After s.dispatchPayload n := by
  unfold RuntimeBridge.dispatchPayload
  split
  · rename_i child hAt
    obtain ⟨hOf, down, hReads, hStage⟩ := h.stage.pumped (by rw [hAt]; exact Pump.noConfusion)
    rw [hAt] at hOf
    obtain rfl : child = n := hOf
    refine ⟨h.alive, h.starting, h.children, hStage _ rfl rfl rfl rfl ?_⟩
    show (s.log ++ [_]).foldlM Note.next (0, false) = _
    rw [reads_more hReads]
    cases down with
    | false | true => exact if_pos rfl
  · exact h

theorem After.quit (h : After s n) : After s.quit n := by
  unfold RuntimeBridge.quit
  split
  · rename_i child hAt
    obtain ⟨-, down, hReads, hStage⟩ := h.stage.pumped (by rw [hAt]; exact Pump.noConfusion)
    exact ⟨h.alive, h.starting, h.children, hStage _ rfl rfl rfl trivial hReads⟩
  · exact h

theorem Stage.polling_of_child {stage : Supervisor} {child : Child} (h : Stage s n stage)
    (hChild : s.child = some child) :
    stage = .polling ∧ child.number = n ∧ s.pump.Of n ∧ Up s n child.exited := by
  cases stage with
  | polling =>
    obtain ⟨down, hAt, hOf, hUp⟩ := h
    obtain rfl : ⟨n, down⟩ = child := Option.some.inj (hAt.symm.trans hChild)
    exact ⟨rfl, rfl, hOf, hUp⟩
  | noticed | joining | signalling | counting | attempting =>
    exact absurd (h.1.symm.trans hChild) nofun
  | none | finished => exact h.elim

theorem After.exit (h : After s n) : After s.exit n := by
  unfold RuntimeBridge.exit
  split
  · rename_i number hChild
    obtain ⟨hPolling, rfl, hOf, hUp⟩ := h.stage.polling_of_child hChild
    refine ⟨h.alive, h.starting, h.children, ?_⟩
    show Stage _ number s.supervisor
    rw [hPolling]
    refine ⟨true, rfl, hOf, hUp.ready, hUp.reset, ?_⟩
    show (s.log ++ [_]).foldlM Note.next (0, false) = _
    rw [reads_more hUp.reads]
    exact if_pos rfl
  · exact h

theorem After.start (h : After s n) {found : Bool} (hMeets : Meets s (.start found)) :
    After (s.start found) n := by
  unfold RuntimeBridge.start
  split
  · exact h
  · rename_i hOn
    obtain ⟨hReady, hStarting⟩ := not_or.mp hOn
    have hStage := h.stage
    cases found with
    | true =>
      rw [hMeets hReady hStarting rfl] at hStage
      exact hStage.elim
    | false =>
      refine ⟨h.alive, h.starting, h.children, ?_⟩
      show Stage _ n s.supervisor
      cases hSupervisor : s.supervisor with
      | polling =>
        rw [hSupervisor] at hStage
        obtain ⟨down, -, -, hUp⟩ := hStage
        exact absurd hUp.ready hReady
      | noticed | joining | signalling | counting =>
        rw [hSupervisor] at hStage
        exact absurd hStage.2.2.ready hReady
      | attempting =>
        rw [hSupervisor] at hStage
        exact ⟨hStage.1, hStage.2.1, ⟨.inr rfl, Nat.zero_le _⟩, hStage.2.2.2⟩
      | none | finished =>
        rw [hSupervisor] at hStage
        exact hStage.elim

theorem After.attempted (h : After s n) {attempt : Attempt} (hMeets : Meets s (.attempted attempt)) :
    ∃ m, After (s.attempted attempt) m := by
  unfold RuntimeBridge.attempted
  split
  · rename_i hAt
    obtain rfl := hMeets hAt
    have hStage := h.stage
    rw [hAt] at hStage
    obtain ⟨-, hPump, -, hReads⟩ := hStage
    refine ⟨n + 1, ?_, h.starting, congrArg (· + 1) h.children, false, ?_, h.children, rfl, rfl, hReads⟩
    · show (s.crashed || decide (s.pump ≠ .none)) = false
      rw [h.alive, hPump]
      rfl
    · exact congrArg (fun number => some (Child.mk number false)) h.children
  · exact ⟨n, h⟩

theorem After.advance (h : After s n) : After s.advance n := by
  have hStage := h.stage
  unfold RuntimeBridge.advance
  split
  · rename_i hAt
    rw [hAt] at hStage
    obtain ⟨down, hChild, hOf, hUp⟩ := hStage
    split
    · rename_i number hExited
      obtain ⟨rfl, rfl⟩ := Child.mk.inj (Option.some.inj (hChild.symm.trans hExited))
      exact ⟨h.alive, h.starting, h.children, rfl, hOf, hUp.ready, hUp.reset, hUp.reads⟩
    · exact h
  · rename_i hAt
    rw [hAt] at hStage
    obtain ⟨hChild, hOf, hUp⟩ := hStage
    rw [if_neg (by rw [hUp.ready]; exact RuntimeBridgeStatus.noConfusion)]
    exact ⟨h.alive, h.starting, h.children, hChild, hOf, hUp.ready, hUp.reset, hUp.reads⟩
  · rename_i hAt
    rw [hAt] at hStage
    obtain ⟨hChild, -, hUp⟩ := hStage
    split
    · exact ⟨h.alive, h.starting, h.children, hChild, rfl, hUp.ready, hUp.reset, hUp.reads⟩
    · exact ⟨h.alive, h.starting, h.children, hChild, rfl, hUp.ready, hUp.reset, hUp.reads⟩
    · exact h
  · rename_i hAt
    rw [hAt] at hStage
    obtain ⟨hChild, hPump, hUp⟩ := hStage
    exact ⟨h.alive, h.starting, h.children, hChild, hPump, hUp.ready, hUp.reset,
      reads_more hUp.reads _⟩
  · rename_i hAt
    rw [hAt] at hStage
    obtain ⟨hChild, hPump, hUp⟩ := hStage
    have hLeft : s.restartCount + 1 ≤ kMaxRestartAttempts := by
      rw [hUp.reset]
      decide
    rw [if_neg (Nat.not_lt.mpr hLeft)]
    exact ⟨h.alive, h.starting, h.children, hChild, hPump, ⟨.inl rfl, hLeft⟩, hUp.reads⟩
  · exact h
  · exact h
  · exact h

theorem Sound.step {e : Event} (h : Sound s) (hMeets : Meets s e) :
    Sound (RuntimeBridge.step s e) := by
  rcases h with h | ⟨n, h⟩
  · exact h.step e
  · cases e with
    | start found => exact .inr ⟨n, h.start hMeets⟩
    | started attempt =>
      have hSame : s.started attempt = s := if_neg (by rw [h.starting]; exact Bool.noConfusion)
      exact .inr ⟨n, show After (s.started attempt) n by rwa [hSame]⟩
    | advance => exact .inr ⟨n, h.advance⟩
    | attempted attempt => exact .inr (h.attempted hMeets)
    | receive => exact .inr ⟨n, h.receive⟩
    | dispatch => exact .inr ⟨n, h.dispatchPayload⟩
    | quit => exact .inr ⟨n, h.quit⟩
    | exit => exact .inr ⟨n, h.exit⟩

theorem After.play_settle (h : After s n) : After (History.play step s settle) n :=
  h.dispatchPayload.quit.advance.advance.advance.advance.advance

theorem After.settled (h : After s n) (hDue : Due s) :
    (History.play step s settle).supervisor = .attempting := by
  obtain ⟨-, -, -, hStage⟩ := h
  obtain ⟨-, hExited⟩ := hDue
  rcases s with ⟨status, count, child, client, pumpStop, pump, supervisor, starting, crashed,
    children, log⟩
  cases supervisor with
  | polling =>
    obtain ⟨down, rfl, -, rfl, rfl, -⟩ := hStage
    obtain rfl : down = true := hExited _ rfl
    cases pump <;> rfl
  | noticed | joining =>
    obtain ⟨rfl, -, rfl, rfl, -⟩ := hStage
    cases pump <;> rfl
  | signalling | counting =>
    obtain ⟨rfl, rfl, rfl, rfl, -⟩ := hStage
    rfl
  | attempting => cases pump <;> rfl
  | none | finished => exact hStage.elim

theorem Stage.quiet {stage : Supervisor} (h : Stage s n stage) (hNot : stage ≠ .attempting) :
    s.status = .ready ∧ s.restartCount = 0 := by
  cases stage with
  | polling =>
    obtain ⟨down, -, -, hUp⟩ := h
    exact ⟨hUp.ready, hUp.reset⟩
  | noticed | joining | signalling | counting => exact ⟨h.2.2.ready, h.2.2.reset⟩
  | attempting => exact absurd rfl hNot
  | none | finished => exact h.elim

theorem Stage.reads {stage : Supervisor} (h : Stage s n stage) : s.reads ≠ none := by
  refine Option.ne_none_iff_exists'.mpr ?_
  cases stage with
  | polling =>
    obtain ⟨down, -, -, hUp⟩ := h
    exact ⟨_, hUp.reads⟩
  | noticed | joining | signalling | counting => exact ⟨_, h.2.2.reads⟩
  | attempting => exact ⟨_, h.2.2.2⟩
  | none | finished => exact h.elim

theorem After.not_failed (h : After s n) (hRest : AtRest s) : s.status ≠ .failed := by
  have hNot : s.supervisor ≠ .attempting := by
    rcases hRest.2 with hAt | hAt | hAt <;> rw [hAt] <;> exact Supervisor.noConfusion
  rw [(h.stage.quiet hNot).1]
  exact RuntimeBridgeStatus.noConfusion

theorem After.kept (h : After s n) : Kept s where
  alive := h.alive
  alone hStarting := absurd (h.starting.symm.trans hStarting) Bool.noConfusion
  signals := h.stage.reads
  restarts hDue := by
    have hAt := h.settled hDue
    have hStage := h.play_settle.stage
    rw [hAt] at hStage
    exact ⟨⟨n + 1, hStage.2.2.2⟩, .inl hAt⟩
  reset hReady := by
    by_cases hAt : s.supervisor = .attempting
    · have hStage := h.stage
      rw [hAt] at hStage
      rcases hStage.2.2.1.1 with hStatus | hStatus
      · exact absurd (hReady.symm.trans hStatus) RuntimeBridgeStatus.noConfusion
      · exact absurd (hReady.symm.trans hStatus) RuntimeBridgeStatus.noConfusion
    · exact (h.stage.quiet hAt).2
  spent hRest _ hFailed := absurd hFailed (h.not_failed hRest)
  again hRest hFailed := absurd hFailed (h.not_failed hRest)

theorem Before.again (h : Before s) (hFailed : s.status = .failed) :
    Running (History.play RuntimeBridge.step s [.start true, .started .ready]) := by
  obtain ⟨hAlive, hSupervisor, -, hPump, -, -, -, -, -⟩ := h
  rcases s with ⟨status, count, child, client, pumpStop, pump, supervisor, starting, crashed,
    children, log⟩
  obtain rfl : status = .failed := hFailed
  obtain rfl : crashed = false := hAlive
  obtain rfl : supervisor = .none := hSupervisor
  obtain rfl : pump = .none := hPump
  exact ⟨rfl, rfl, rfl, children, rfl⟩

theorem Before.kept (h : Before s) : Kept s where
  alive := h.alive
  alone _ := h.supervisor
  signals := by
    unfold RuntimeBridge.reads
    rw [h.log]
    exact Option.some_ne_none _
  restarts hDue := absurd h.supervisor hDue.1
  reset _ := h.reset
  spent _ hSome := absurd h.supervisor hSome
  again _ hFailed := h.again hFailed

theorem Sound.kept (h : Sound s) : Kept s := by
  rcases h with h | ⟨n, h⟩
  · exact h.kept
  · exact h.kept

theorem After.attempt_ready (h : After s n) {attempt : Attempt} (hAt : s.supervisor = .attempting)
    (hKept : Kept (s.attempted attempt)) : attempt = .ready := by
  have hStage := h.stage
  rw [hAt] at hStage
  unfold RuntimeBridge.attempted at hKept
  rw [if_pos hAt] at hKept
  cases attempt with
  | ready => rfl
  | spawnFailed | handshakeFailed =>
    have hSpent := hKept.spent ⟨h.starting, .inr (.inl rfl)⟩ Supervisor.noConfusion rfl
    exact absurd hSpent (Nat.not_lt.mpr hStage.2.2.1.2)

theorem Sound.meets {e : Event} (h : Sound s) (hKept : Kept (RuntimeBridge.step s e)) :
    Meets s e := by
  cases e with
  | start found =>
    intro hReady hStarting hFound
    have hKept : Kept (s.start found) := hKept
    unfold RuntimeBridge.start at hKept
    rw [if_neg (not_or.mpr ⟨hReady, hStarting⟩), if_pos hFound] at hKept
    exact hKept.alone rfl
  | attempted attempt =>
    intro hAt
    rcases h with h | ⟨n, h⟩
    · exact absurd (h.supervisor.symm.trans hAt) Supervisor.noConfusion
    · exact h.attempt_ready hAt hKept
  | started | advance | receive | dispatch | quit | exit => trivial

/-- In every run the runtime is kept alive after every step exactly if every step meets the condition. -/
theorem restarts_iff (es : List Event) :
    History.Each step (fun s e => Kept (step s e)) .new es ↔ History.Each step Meets .new es :=
  History.each_congr (I := Sound) sound_new (fun _ _ h hKept => h.step (h.meets hKept))
    (fun _ _ h => ⟨h.meets, fun hMeets => (h.step hMeets).kept⟩) es

/-- The child exits, and the first attempt to replace it fails. -/
theorem attempts_end :
    ¬History.Each step (fun s e => Kept (step s e)) .new
      [.start true, .started .ready, .exit, .advance, .advance, .quit, .advance, .advance, .advance,
        .attempted .handshakeFailed] := by
  rintro ⟨-, -, -, -, -, -, -, -, -, hKept, -⟩
  have hSpent := hKept.spent ⟨rfl, .inr (.inl rfl)⟩ (by decide) rfl
  exact absurd hSpent (by decide)

end Cronymax.Bridge
