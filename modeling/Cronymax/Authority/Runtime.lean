import Cronymax.Atomic.Program
import Cronymax.Authority.State

/-! The runtime authority.  An operation decides under the lock what becomes of the state: it refuses,
or commits a new state, which is saved before events are emitted and reviews are answered.  What
the operating system will answer is part of the model: the outcome of each save to come and each
reading of the clock to come. -/

namespace Cronymax.Authority

open Atomic

/-- `PersistenceError`. -/
inductive PersistenceError where
  | io (text : String)
  | serde (text : String)
  | migration (onDisk understood : UInt32)
deriving DecidableEq

inductive AuthorityError where
  | unknownSpace (id : SpaceId)
  | unknownRun (id : RunId)
  | unknownReview (id : ReviewId)
  | unknownSession (id : SessionId)
  | invalidTransition (run : RunId) (state : RunStatus) (action : String)
  | reviewAlreadyResolved
  | persistence (e : PersistenceError)
deriving DecidableEq

structure ReviewResolution where
  decision : PermissionState
  notes : Option String
deriving DecidableEq

/-- A oneshot channel, by its number. -/
structure Completion where
  channel : Nat
deriving DecidableEq

structure ReviewHandle where
  id : ReviewId
  completion : Completion
deriving DecidableEq

structure Subscription where
  topic : String
  /-- A `u64` that grows by one for each event delivered: as long as these are fewer than 2^64 it is their
  number. -/
  nextSeq : Nat
deriving DecidableEq

/-- The other end of a subscription. -/
structure Receiver where
  received : List RuntimeEvent
  dropped : Bool

/-- What the lock guards. -/
structure AuthorityInner where
  snapshot : Snapshot
  subscriptions : Table SubscriptionId Subscription
  pendingResolutions : Table ReviewId Completion
  flowSessions : Table String String
  taskTrees : Table RunId TaskTree

/-- A payload with the topics that it is emitted on. -/
structure Emission where
  topics : List String
  payload : RuntimeEventPayload

/-- `RuntimeAuthority`: what its lock guards, what was saved and sent, and what the clock and the file
system are going to answer. -/
structure RuntimeAuthority where
  inner : AuthorityInner
  receivers : Table SubscriptionId Receiver
  completions : Nat
  resolutions : List (Completion × ReviewResolution)
  emitted : List Emission
  saved : Snapshot
  faults : List (Option PersistenceError)
  clock : List Int

def runTopic (id : RunId) : String := "run:" ++ id.uuid

/-- `run_topics`: the run's own and its session's. -/
def runTopics (runId : RunId) (sessionId : Option SessionId) : List String :=
  runTopic runId :: (sessionId.map fun sid => "session:" ++ sid.text).toList

def Subscription.listens (sub : Subscription) (topics : List String) : Bool :=
  sub.topic = "*" || topics.contains sub.topic

namespace RuntimeAuthority

variable (w : RuntimeAuthority)

/-- The error of the next save, if it fails. -/
def fault : Option PersistenceError := w.faults.headD none

/-- `now_ms`. -/
def now : Int := w.clock.headD 0

def tick : RuntimeAuthority := { w with clock := w.clock.tail }

@[grind =] def run? (runId : RunId) : Option Run := w.inner.snapshot.runs.lookup runId

@[grind =] def status? (runId : RunId) : Option RunStatus := w.inner.snapshot.status? runId

def review? (reviewId : ReviewId) : Option PendingReview := w.inner.snapshot.reviews.lookup reviewId

def hears (id : SubscriptionId) : Bool := (w.receivers.lookup id).any fun r => !r.dropped

/-- `emit_scoped`: a subscription whose receiver is gone is dropped. -/
def emitScoped (topics : List String) (payload : RuntimeEventPayload) : RuntimeAuthority :=
  { w.tick with
    inner := { w.inner with
      subscriptions := w.inner.subscriptions.filterMap fun id sub =>
        if !sub.listens topics then some sub
        else if w.hears id then some { sub with nextSeq := sub.nextSeq + 1 }
        else none }
    receivers := w.receivers.filterMap fun id r =>
      match w.inner.subscriptions.lookup id with
      | some sub =>
        if sub.listens topics && !r.dropped then
          some { r with received := r.received ++ [⟨sub.nextSeq, w.now, payload⟩] }
        else some r
      | none => some r
    emitted := w.emitted ++ [⟨topics, payload⟩] }

end RuntimeAuthority

/-- What a section does besides the edit of the snapshot. -/
inductive Effect where
  | emit (topics : List String) (payload : RuntimeEventPayload)
  | open (id : SubscriptionId) (topic : String)
  | close (id : SubscriptionId)
  | drop (id : SubscriptionId)
  | park (reviewId : ReviewId)
  | fire (reviewId : ReviewId) (resolution : ReviewResolution)

@[grind =] def Effect.apply : Effect → RuntimeAuthority → RuntimeAuthority
  | .emit topics payload, w => w.emitScoped topics payload
  | .open id topic, w =>
    { w with
      inner := { w.inner with subscriptions := w.inner.subscriptions.insert id ⟨topic, 0⟩ }
      receivers := w.receivers.insert id ⟨[], false⟩ }
  | .close id, w =>
    { w with inner := { w.inner with subscriptions := w.inner.subscriptions.erase id } }
  | .drop id, w => { w with receivers := w.receivers.modify id fun r => { r with dropped := true } }
  | .park reviewId, w =>
    { w with
      inner := { w.inner with
        pendingResolutions := w.inner.pendingResolutions.insert reviewId ⟨w.completions⟩ }
      completions := w.completions + 1 }
  | .fire reviewId resolution, w =>
    match w.inner.pendingResolutions.lookup reviewId with
    | some tx =>
      { w with
        inner := { w.inner with pendingResolutions := w.inner.pendingResolutions.erase reviewId }
        resolutions := w.resolutions ++ [(tx, resolution)] }
    | none => w

def RuntimeAuthority.perform (w : RuntimeAuthority) (effects : List Effect) : RuntimeAuthority :=
  effects.foldl (fun w e => e.apply w) w

/-- How a section saves the snapshot. -/
inductive Saves where
  | checked
  | ignored
  | never
deriving DecidableEq

/-- What a call returns. -/
inductive Reply where
  | unit
  | flag (b : Bool)
  | thread (thread : List ChatMessage)
  | run (id : RunId)
  | review (id : ReviewId)
  | task (id : TaskId)
  | status (status : RunStatus)
  | subscription (id : SubscriptionId)
  | handle (handle : ReviewHandle)
deriving DecidableEq

/-- A snapshot that a section has made, how it is saved, and what follows. -/
structure Commit where
  snapshot : Snapshot
  flowSessions : Table String String
  taskTrees : Table RunId TaskTree
  saves : Saves
  effects : List Effect
  reply : Reply

/-- A section refuses, gives up halfway, or commits. -/
inductive Decision where
  | refuse (e : AuthorityError)
  | abort (e : AuthorityError) (snapshot : Snapshot)
  | commit (c : Commit)

namespace RuntimeAuthority

variable (w : RuntimeAuthority)

/-- A commit that keeps the tables beside the snapshot. -/
@[grind =] def put (snapshot : Snapshot) (saves : Saves) (effects : List Effect) (reply : Reply) : Decision :=
  .commit ⟨snapshot, w.inner.flowSessions, w.inner.taskTrees, saves, effects, reply⟩

/-- A commit without an edit. -/
def keep (effects : List Effect) (reply : Reply) : Decision :=
  w.put w.inner.snapshot .never effects reply

def store (c : Commit) : RuntimeAuthority :=
  { w with
    inner := { w.inner with
      snapshot := c.snapshot, flowSessions := c.flowSessions, taskTrees := c.taskTrees }
    saved := if c.saves = .never ∨ w.fault.isSome then w.saved else c.snapshot
    faults := if c.saves = .never then w.faults else w.faults.tail }

@[grind =] def failsWith (c : Commit) : Option PersistenceError := if c.saves = .checked then w.fault else none

/-- The state after a decision: an edit in memory stays where its save fails. -/
def settle : Decision → RuntimeAuthority
  | .refuse _ => w
  | .abort _ snapshot => { w with inner := { w.inner with snapshot } }
  | .commit c =>
    match w.failsWith c with
    | some _ => w.store c
    | none => (w.store c).perform c.effects

/-- What the call returns. -/
@[grind =] def answer : Decision → Except AuthorityError Reply
  | .refuse e | .abort e _ => .error e
  | .commit c =>
    match w.failsWith c with
    | some e => .error (.persistence e)
    | none => .ok c.reply

end RuntimeAuthority

end Cronymax.Authority
