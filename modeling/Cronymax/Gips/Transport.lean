/-! The transport from the runtime to the host.  The dispatch loop sends over the connection that the
accept thread has cached, or leaves the frame to the accept thread, which flushes what is pending when
the host sends its next message. -/

namespace Cronymax.Gips

/-- How far a call of `send` has come. -/
inductive Sender where
  | idle
  /-- `shutdown` was not set. -/
  | checked
  | buffering
  | replying (connection : Nat)
  | caching (connection : Nat)
deriving DecidableEq

/-- A flush: the frames that it has taken and those that have come since. -/
structure Flush where
  connection : Nat
  frames : List Nat
  failed : Option (List Nat)
  since : List Nat
deriving DecidableEq

/-- Where the accept thread is. -/
inductive Acceptor where
  | idle
  | cached
  | flushing (flush : Flush)
deriving DecidableEq

/-- A frame is the number of its call of `send`. -/
structure GipsTransport where
  shutdown : Bool
  closed : Bool
  connection : Option Nat
  pending : List Nat
  sender : Sender
  acceptor : Acceptor
  /-- The calls of `send` that have returned. -/
  sends : Nat
  /-- The calls that have returned `Ok`. -/
  accepted : List Nat
  newest : Nat
  delivered : List Nat

inductive Event where
  /-- `send` looks at `shutdown`. -/
  | check
  | take
  | buffer
  | reply (ok : Bool)
  | recache
  | accept (parsed : Bool)
  | drain
  | flushReply (ok : Bool)
  | requeue
  | flushEnd
  /-- The two sections of `close`. -/
  | shutDown
  | close
deriving DecidableEq

def Flush.push (flush : Flush) (frame : Nat) : Flush := { flush with since := flush.since ++ [frame] }

def Acceptor.push (frame : Nat) : Acceptor → Acceptor
  | .flushing flush => .flushing (flush.push frame)
  | acceptor => acceptor

namespace GipsTransport

variable (s : GipsTransport)

def start : GipsTransport where
  shutdown := false
  closed := false
  connection := none
  pending := []
  sender := .idle
  acceptor := .idle
  sends := 0
  accepted := []
  newest := 0
  delivered := []

/-- The call of `send` returns. -/
def returns (ok : Bool) : GipsTransport :=
  { s with
    sender := .idle
    sends := s.sends + 1
    accepted := if ok then s.accepted ++ [s.sends] else s.accepted }

/-- `send` looks at the flag. -/
def check : GipsTransport :=
  match s.sender with
  | .idle => if s.shutdown then s.returns false else { s with sender := .checked }
  | _ => s

/-- `send` takes the cached connection. -/
def take : GipsTransport :=
  match s.sender with
  | .checked =>
    if s.closed then s.returns false
    else
      match s.connection with
      | some c => { s with connection := none, sender := .replying c }
      | none => { s with sender := .buffering }
  | _ => s

/-- `send` puts its frame into the queue. -/
def buffer : GipsTransport :=
  match s.sender with
  | .buffering =>
    { s.returns true with
      pending := s.pending ++ [s.sends]
      acceptor := s.acceptor.push s.sends }
  | _ => s

/-- The peer answers to the frame of `send`, or does not. -/
def reply (ok : Bool) : GipsTransport :=
  match s.sender with
  | .replying c =>
    if ok then { s with sender := .caching c, delivered := s.delivered ++ [s.sends] }
    else s.returns false
  | _ => s

def putBack (c : Nat) : Option Nat :=
  if s.closed = false ∧ s.connection = none then some c else s.connection

/-- `send` puts the connection back. -/
def recache : GipsTransport :=
  match s.sender with
  | .caching c => { s.returns true with connection := s.putBack c }
  | _ => s

/-- A connection is accepted. -/
def accept (parsed : Bool) : GipsTransport :=
  match s.acceptor with
  | .idle =>
    { s with
      connection := if s.closed then s.connection else some (s.newest + 1)
      newest := if s.closed then s.newest else s.newest + 1
      acceptor := if parsed then .cached else .idle }
  | _ => s

/-- The flush takes the queue. -/
def drain : GipsTransport :=
  match s.acceptor with
  | .cached =>
    match s.closed, s.connection, s.pending with
    | false, some c, frame :: rest =>
      { s with
        connection := none
        pending := []
        acceptor := .flushing ⟨c, frame :: rest, none, []⟩ }
    | _, _, _ => { s with acceptor := .idle }
  | _ => s

/-- The peer answers to a frame of the flush, or does not. -/
def flushReply (ok : Bool) : GipsTransport :=
  match s.acceptor with
  | .flushing ⟨c, frame :: rest, none, since⟩ =>
    if ok then
      { s with
        acceptor := .flushing ⟨c, rest, none, since⟩
        delivered := s.delivered ++ [frame] }
    else { s with acceptor := .flushing ⟨c, frame :: rest, some (frame :: rest), since⟩ }
  | _ => s

/-- The frames that are left go back to the queue. -/
def requeue : GipsTransport :=
  match s.acceptor with
  | .flushing ⟨c, frame :: rest, some failed, since⟩ =>
    { s with
      acceptor := .flushing ⟨c, rest, some failed, since⟩
      pending := if s.closed then s.pending else frame :: s.pending }
  | _ => s

/-- The flush ends and its connection is cached. -/
def flushEnd : GipsTransport :=
  match s.acceptor with
  | .flushing ⟨c, [], none, _⟩ => { s with acceptor := .idle, connection := s.putBack c }
  | .flushing ⟨_, [], some _, _⟩ => { s with acceptor := .idle }
  | _ => s

/-- `close`. -/
def close : GipsTransport :=
  if s.shutdown then { s with closed := true, connection := none, pending := [] } else s

def step (s : GipsTransport) : Event → GipsTransport
  | .check => s.check
  | .take => s.take
  | .buffer => s.buffer
  | .reply ok => s.reply ok
  | .recache => s.recache
  | .accept parsed => s.accept parsed
  | .drain => s.drain
  | .flushReply ok => s.flushReply ok
  | .requeue => s.requeue
  | .flushEnd => s.flushEnd
  | .shutDown => { s with shutdown := true }
  | .close => s.close

end GipsTransport

end Cronymax.Gips
