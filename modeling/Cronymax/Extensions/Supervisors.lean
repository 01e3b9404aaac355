import Cronymax.Extensions.Registry

/-! The supervisors of an extension's hosts.  Each host has its own, with its own channel of signals; a
signal leads to a restart unless the extension is not activated or a restart is in progress. -/

namespace Cronymax.Extensions.Supervisors

/-- Where the supervisor of a host is. -/
inductive Supervisor where
  | idle
  | entering
  | restarting
  deriving DecidableEq

/-- A host with its supervisor and the signals that it has not received. -/
structure Host where
  crashed : Bool
  hung : Bool
  /-- The answer to `extension/activate`. -/
  reply : Option Bool
  stopped : Bool
  signals : Nat
  supervisor : Supervisor
  deriving DecidableEq

namespace Host

variable (x : Host)

def spawned : Host := ⟨false, false, none, false, 0, .idle⟩

/-- The process dies. -/
def crash : Host :=
  if x.crashed ∨ x.stopped then x else { x with crashed := true, signals := x.signals + 1 }

/-- The host stops answering. -/
def hang : Host :=
  if x.hung ∨ x.stopped then x else { x with hung := true, signals := x.signals + 1 }

/-- `extension/activate` is answered. -/
def answer (ok : Bool) : Host :=
  if x.crashed ∨ x.stopped ∨ x.reply.isSome then x else { x with reply := some ok }

def shutdown : Host := { x with stopped := true }

/-- The supervisor takes a signal. -/
def receive (activated : Bool) : Host :=
  if x.supervisor = .idle ∧ 0 < x.signals then
    { x with signals := x.signals - 1, supervisor := if activated then .entering else .idle }
  else x

def wait : Host := { x with supervisor := .idle }

end Host

/-- Where the restart in flight is. -/
inductive Stage where
  /-- `try_restart` counts the attempt. -/
  | counting
  | backingOff
  | tearingDown
  | spawning
  | inserting (host : Nat)
  | awaiting (host : Nat)
  /-- `disable_after_crash` deactivates. -/
  | deactivating
  | disabling
  | clearing
  | releasing
  deriving DecidableEq

/-- The restart that is going on. -/
structure Flight where
  owner : Nat
  stage : Stage
  deriving DecidableEq

/-- Where `activate` is. -/
inductive Starting where
  | spawning
  | inserting (host : Nat)
  | awaiting (host : Nat)
  | marking
  | rollingBack
  | failed
  | done
  deriving DecidableEq

/-- The runtime of one extension: its hosts, their supervisors and the flight of a restart. -/
structure ExtensionRuntime where
  activated : Bool
  enabled : Bool
  disabledReason : Option DisabledReason
  handle : Option Nat
  /-- A `u32`: removed once it is over the budget. -/
  restartCount : Nat
  flight : Option Flight
  hosts : List Host
  starting : Starting

inductive Event where
  | crash (host : Nat)
  | hang (host : Nat)
  | answer (host : Nat) (ok : Bool)
  | receive (host : Nat)
  | enter (host : Nat)
  | advance (spawned : Bool)
  /-- `activate` makes its next step. -/
  | start (spawned : Bool)

namespace ExtensionRuntime

variable (maxRestarts : Nat) (s : ExtensionRuntime)

def new : ExtensionRuntime := ⟨false, true, none, none, 0, none, [], .spawning⟩

def edit (i : Nat) (f : Host → Host) : ExtensionRuntime := { s with hosts := s.hosts.modify i f }

/-- `host.shutdown()` of the handle that has been taken. -/
def dropHandle : ExtensionRuntime :=
  match s.handle with
  | some k => { s.edit k .shutdown with handle := none }
  | none => s

/-- The host has been sent `extension/activate`. -/
def Asked (i : Nat) : Prop := s.starting = .awaiting i ∨ s.flight.map (·.stage) = some (.awaiting i)

instance (i : Nat) : Decidable (s.Asked i) := inferInstanceAs (Decidable (_ ∨ _))

/-- A supervisor enters the single flight, or finds it taken. -/
def enter (i : Nat) : ExtensionRuntime :=
  if s.hosts[i]?.map (·.supervisor) = some .entering then
    if s.flight.isSome then s.edit i .wait
    else { s.edit i fun x => { x with supervisor := .restarting } with
      flight := some ⟨i, .counting⟩ }
  else s

def goto (owner : Nat) (stage : Stage) : ExtensionRuntime :=
  { s with flight := some ⟨owner, stage⟩ }

def outcome (k : Nat) : Option Bool :=
  s.hosts[k]?.bind fun x => if x.reply.isSome then x.reply else if x.crashed then some false else none

/-- `deactivate`, which does nothing when the extension is not activated. -/
def deactivate : ExtensionRuntime :=
  if s.activated then { s.dropHandle with activated := false } else s

def spawn : ExtensionRuntime := { s with hosts := s.hosts ++ [.spawned] }

/-- The next step of a restart. -/
def advanceFlight (spawned : Bool) (owner : Nat) : Stage → ExtensionRuntime
  | .counting =>
    { s with restartCount := s.restartCount + 1 }.goto owner
      (if maxRestarts < s.restartCount + 1 then .deactivating else .backingOff)
  | .backingOff => s.goto owner (if s.activated then .tearingDown else .releasing)
  | .tearingDown => s.dropHandle.goto owner .spawning
  | .spawning =>
    if spawned then s.spawn.goto owner (.inserting s.hosts.length) else s.goto owner .deactivating
  | .inserting k => { s with handle := some k }.goto owner (.awaiting k)
  | .awaiting k =>
    match s.outcome k with
    | some ok => s.goto owner (if ok then .releasing else .deactivating)
    | none => s
  | .deactivating => s.deactivate.goto owner .disabling
  | .disabling => { s with enabled := false, disabledReason := some .crash }.goto owner .clearing
  | .clearing => { s with restartCount := 0 }.goto owner .releasing
  | .releasing => { s.edit owner .wait with flight := none }

def advance (spawned : Bool) : ExtensionRuntime :=
  match s.flight with
  | some f => s.advanceFlight maxRestarts spawned f.owner f.stage
  | none => s

/-- The next step of `activate`. -/
def start (spawned : Bool) : ExtensionRuntime :=
  match s.starting with
  | .spawning =>
    if spawned then { s.spawn with starting := .inserting s.hosts.length }
    else { s with starting := .rollingBack }
  | .inserting k => { s with handle := some k, starting := .awaiting k }
  | .awaiting k =>
    match s.outcome k with
    | some ok => { s with starting := if ok then .marking else .rollingBack }
    | none => s
  | .marking => { s with activated := true, starting := .done }
  | .rollingBack => { s.dropHandle with starting := .failed }
  | .failed | .done => s

def step (s : ExtensionRuntime) : Event → ExtensionRuntime
  | .crash i => s.edit i .crash
  | .hang i => s.edit i .hang
  | .answer i ok => if s.Asked i then s.edit i (·.answer ok) else s
  | .receive i => s.edit i (·.receive s.activated)
  | .enter i => s.enter i
  | .advance spawned => s.advance maxRestarts spawned
  | .start spawned => s.start spawned

end ExtensionRuntime

end Cronymax.Extensions.Supervisors
