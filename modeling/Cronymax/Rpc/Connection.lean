import Cronymax.Atomic.Program
import Cronymax.Rpc.Codec
import Mathlib.Data.List.AList

/-! One connection: the state that its callers and its read loop share, what `dispatch` makes of a
frame, and the read loop `Connection::run`.  A call is named by a number.  Its oneshot channel is
found under that number, and the sender of the channel is the number too. -/

namespace Cronymax.Rpc

open Atomic

/-- What a `Response` frame says: a result, or the error of the peer. -/
abbrev ResponseResult := Except Value Value

/-- What a response says. -/
def responseResult (error result : Value) : ResponseResult :=
  if error.isNil then .ok result else .error error

/-- What a oneshot channel holds for its receiver. -/
inductive Channel where
  | empty
  | sent (outcome : ResponseResult)
  | dropped

/-- What the loop spawns for a frame. -/
inductive Spawned where
  | notify (method : String) (params : Value)
  | request (msgid : UInt32) (method : String) (params : Value) (known : Bool)

structure RpcServer where
  handlers : List String
  notifyHandlers : List String

/-- What the two halves of a connection share. -/
structure Connection where
  nextMsgid : UInt32
  pending : AList fun _ : UInt32 => Nat
  channels : Nat → Channel
  inFlight : AList fun _ : UInt32 => Bool
  handlers : RpcServer
  spawned : List Spawned

namespace Connection

variable (conn : Connection)

def setChannel (call : Nat) (c : Channel) : Connection :=
  { conn with channels := fun i => if i = call then c else conn.channels i }

/-- `tx.send`: a channel takes one outcome. -/
def send (call : Nat) (outcome : ResponseResult) : Connection :=
  match conn.channels call with
  | .empty => conn.setChannel call (.sent outcome)
  | _ => conn

/-- A sender that has not sent is dropped. -/
def dropSender (call : Nat) : Connection :=
  match conn.channels call with
  | .empty => conn.setChannel call .dropped
  | _ => conn

/-- `fetch_add` on the counter, which wraps. -/
def allocate : Connection := { conn with nextMsgid := conn.nextMsgid + 1 }

/-- `pending.insert`, which drops the sender that it replaces. -/
def insertPending (msgid : UInt32) (call : Nat) : Connection :=
  let conn' := match conn.pending.lookup msgid with
    | some old => conn.dropSender old
    | none => conn
  { conn' with pending := conn.pending.insert msgid call }

/-- `pending.remove` on the way out of a call whose frame was not written. -/
def removePending (msgid : UInt32) : Connection :=
  let conn' := match conn.pending.lookup msgid with
    | some old => conn.dropSender old
    | none => conn
  { conn' with pending := conn.pending.erase msgid }

/-- The table is emptied. -/
def drain : Connection := { conn with pending := ∅ }

/-- `dispatch`. -/
def dispatch : Frame → Connection
  | .response msgid error result =>
    match conn.pending.lookup msgid with
    | some call =>
      ({ conn with pending := conn.pending.erase msgid }).send call (responseResult error result)
    | none => conn
  | .notify method params =>
    match Frame.parseCancel (.notify method params) with
    | some msgid =>
      match conn.inFlight.lookup msgid with
      | some _ => { conn with inFlight := conn.inFlight.insert msgid true }
      | none => conn
    | none =>
      if method ∈ conn.handlers.notifyHandlers then
        { conn with spawned := conn.spawned ++ [.notify method params] }
      else conn
  | .request msgid method params =>
    { conn with
      inFlight := conn.inFlight.insert msgid false
      spawned := conn.spawned ++
        [.request msgid method params (decide (method ∈ conn.handlers.handlers))] }

end Connection

/-- The read loop's steps on the connection. -/
inductive LoopAct where
  | dispatch (frame : Frame)
  /-- `pending.drain()`. -/
  | drain
  | fail (call : Nat) (reason : Value)

instance : Acts LoopAct Connection where
  apply
    | .dispatch frame, conn => conn.dispatch frame
    | .drain, conn => conn.drain
    | .fail call reason, conn => conn.send call (.error reason)

abbrev LoopProg (α : Type) := Prog LoopAct Connection Error α

/-- What a `read` returns when it returns bytes. -/
abbrev Chunk := { bytes : List UInt8 // bytes ≠ [] }

/-- How the reads come to an end. -/
inductive Ending where
  /-- The peer has closed the stream: `Ok(0)`. -/
  | closed
  | failed (message : String)

def sendFailures (reason : Value) : List Nat → LoopProg Unit
  | [] => pure ()
  | call :: calls => do
    let _ ← Prog.perform (.fail call reason)
    sendFailures reason calls

/-- `fail_all_pending`. -/
def failAllPending (reason : String) : LoopProg Unit := do
  let conn ← Prog.perform .drain
  sendFailures (.string reason) (conn.pending.entries.map (·.2))

variable (M : MessagePack)

/-- The loop over the frames of a buffer. -/
def decodeAll (buf : List UInt8) : LoopProg (List UInt8) :=
  match _hRead : Frame.decodeOne M buf with
  | .ok (some (frame, consumed)) => do
    let _ ← Prog.perform (.dispatch frame)
    decodeAll (buf.drop consumed)
  | .ok none => pure buf
  | .error e => do
    failAllPending ("decode error: " ++ e.display)
    .fail e
termination_by buf.length
decreasing_by exact (Frame.decoder M).length_drop_lt _hRead

/-- The chunks as they come. -/
def receive : List Chunk → List UInt8 → LoopProg (List UInt8)
  | [], buf => pure buf
  | chunk :: chunks, buf => do
    let buf ← decodeAll M (buf ++ chunk.1)
    receive chunks buf

/-- `Connection::run` on a stream that is read in these chunks. -/
def run (chunks : List Chunk) (ending : Ending) : LoopProg Unit := do
  let _ ← receive M chunks []
  match ending with
  | .closed => failAllPending "connection closed"
  | .failed message => do
    failAllPending ("read error: " ++ message)
    .fail (.rpc ("read: " ++ message))

end Cronymax.Rpc
