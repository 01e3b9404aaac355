import Mathlib.Data.List.Basic

/-! The dispatch loop of one connection.  It greets the client, and then waits for three things at once:
messages in the sink, messages of the client, and the keepalive.  Each step of the loop ends where it
waits for something, and what comes of the wait is the event of the next step. -/

namespace Cronymax.Protocol

structure ProtocolVersion where
  major : UInt16
  minor : UInt16
  patch : UInt16
deriving DecidableEq

namespace ProtocolVersion

/-- `is_compatible_with`. -/
def isCompatibleWith (v other : ProtocolVersion) : Bool :=
  if v.major ≠ other.major then false
  else if v.major = 0 then v.minor = other.minor
  else true

def text (v : ProtocolVersion) : String :=
  toString v.major ++ "." ++ toString v.minor ++ "." ++ toString v.patch

end ProtocolVersion

def protocolVersion : ProtocolVersion := ⟨0, 1, 0⟩

def crateVersion : String := "0.1.0"

structure CorrelationId where
  uuid : String
deriving DecidableEq

structure SubscriptionId where
  uuid : String
deriving DecidableEq

/-- What the three surfaces carry. -/
structure Surfaces where
  ControlRequest : Type
  ControlResponse : Type
  RuntimeEvent : Type
  CapabilityRequest : Type
  CapabilityResponse : Type

inductive GoodbyeReason where
  | protocolMismatch
  | handshakeRequired
  | protocolViolation
  | shutdown
deriving DecidableEq

inductive ClientToRuntime (S : Surfaces) where
  | hello (protocol : ProtocolVersion) (clientName clientVersion : String)
  | control (id : CorrelationId) (request : S.ControlRequest)
  | capabilityReply (id : CorrelationId) (response : S.CapabilityResponse)
  | pong

inductive RuntimeToClient (S : Surfaces) where
  | welcome (protocol : ProtocolVersion) (runtimeVersion : String)
  | goodbye (reason : GoodbyeReason) (message : String)
  | control (id : CorrelationId) (response : S.ControlResponse)
  | event (subscription : SubscriptionId) (event : S.RuntimeEvent)
  | capabilityCall (id : CorrelationId) (request : S.CapabilityRequest)
  | ping

/-- What the handler's sink is given. -/
inductive Pushed (S : Surfaces) where
  | event (subscription : SubscriptionId) (event : S.RuntimeEvent)
  | capabilityCall (id : CorrelationId) (request : S.CapabilityRequest)

def Pushed.message {S : Surfaces} : Pushed S → RuntimeToClient S
  | .event subscription ev => .event subscription ev
  | .capabilityCall id request => .capabilityCall id request

inductive HandlerCall (S : Surfaces) where
  | onConnected
  | handleControl (id : CorrelationId) (request : S.ControlRequest)
  | handleCapabilityReply (id : CorrelationId) (response : S.CapabilityResponse)
  | onDisconnected

inductive TransportError where
  | closed
  | io (message : String)
  | decode (message : String)
  | encode (message : String)
deriving DecidableEq

inductive DispatchError where
  | transport (e : TransportError)
  | handshakeRequired (sent : String)
  | protocolMismatch (host runtime : ProtocolVersion)
deriving DecidableEq

/-- Where a message is handed to the transport. -/
inductive Site where
  /-- Instead of a `Welcome`. -/
  | refusal (e : DispatchError)
  | welcome
  | drain (drained : Nat)
  | select
  | flush (result : Except DispatchError Unit)

/-- Where the session stands. -/
inductive Phase (S : Surfaces) where
  | hello
  | connecting
  | draining (drained : Nat)
  | selecting
  | serving (id : CorrelationId)
  | replying
  | closing (result : Except DispatchError Unit)
  | flushing (result : Except DispatchError Unit)
  | sending (site : Site) (msg : RuntimeToClient S)
  | returned (result : Except DispatchError Unit)

/-- A session with what it has received, sent and called. -/
structure Connection (S : Surfaces) where
  phase : Phase S
  outRx : List (RuntimeToClient S)
  received : List (ClientToRuntime S)
  calls : List (HandlerCall S)
  pushed : List (RuntimeToClient S)
  sent : List (RuntimeToClient S)

/-- What happens to a session. -/
inductive Event (S : Surfaces) where
  | push (m : Pushed S)
  | recv (answer : Except TransportError (ClientToRuntime S))
  | take
  /-- `send` returns. -/
  | sent (fault : Option TransportError)
  /-- `handle_control` returns. -/
  | responded (response : S.ControlResponse)
  | handled
  | tick

variable {S : Surfaces}

def Connection.start : Connection S := ⟨.hello, [], [], [], [], []⟩

def Phase.hasSink : Phase S → Bool
  | .hello | .sending (.refusal _) _ | .sending .welcome _ | .returned _ => false
  | _ => true

namespace Connection

variable (c : Connection S)

/-- A message comes to the outbound channel. -/
def enqueue (msg : RuntimeToClient S) : Connection S :=
  { c with outRx := c.outRx ++ [msg], pushed := c.pushed ++ [msg] }

def call (x : HandlerCall S) (phase : Phase S) : Connection S :=
  { c with phase, calls := c.calls ++ [x] }

/-- The session ends. -/
def leave (result : Except DispatchError Unit) : Connection S :=
  c.call .onDisconnected (.closing result)

def refuse (kind : String) : Phase S :=
  .sending (.refusal (.handshakeRequired kind))
    (.goodbye .handshakeRequired ("Hello required before " ++ kind))

def mismatch (protocol : ProtocolVersion) (clientName clientVersion : String) : Phase S :=
  .sending (.refusal (.protocolMismatch protocol protocolVersion))
    (.goodbye .protocolMismatch ("host " ++ clientName ++ " " ++ clientVersion ++
      " speaks protocol " ++ protocol.text ++ ", runtime speaks " ++ protocolVersion.text))

/-- The first message decides. -/
def handshake : ClientToRuntime S → Phase S
  | .hello protocol clientName clientVersion =>
    if protocolVersion.isCompatibleWith protocol then
      .sending .welcome (.welcome protocolVersion crateVersion)
    else mismatch protocol clientName clientVersion
  | .control _ _ => refuse "Control"
  | .capabilityReply _ _ => refuse "CapabilityReply"
  | .pong => refuse "Pong"

def helloTwice : RuntimeToClient S := .goodbye .protocolViolation "Hello sent twice"

/-- What a message after the handshake leads to. -/
def inbound : ClientToRuntime S → Connection S
  | .hello _ _ _ => (c.enqueue helloTwice).leave (.error (.handshakeRequired "Hello after Welcome"))
  | .control id request => c.call (.handleControl id request) (.serving id)
  | .capabilityReply id response => c.call (.handleCapabilityReply id response) .replying
  | .pong => { c with phase := .draining 0 }

@[grind =] def receive (msg : ClientToRuntime S) : Connection S :=
  { c with received := c.received ++ [msg] }

/-- The transport answers. -/
def recv : Except TransportError (ClientToRuntime S) → Connection S :=
  fun answer => match c.phase, answer with
  | .hello, .ok msg => { c.receive msg with phase := handshake msg }
  | .hello, .error e => { c with phase := .returned (.error (.transport e)) }
  | .selecting, .ok msg => (c.receive msg).inbound msg
  | .selecting, .error .closed => c.leave (.ok ())
  | .selecting, .error e => c.leave (.error (.transport e))
  | _, _ => c

/-- The next outbound message is taken. -/
def takeTo (site : Site) (otherwise : Phase S) : Connection S :=
  match c.outRx with
  | msg :: rest => { c with phase := .sending site msg, outRx := rest }
  | [] => { c with phase := otherwise }

def take : Connection S :=
  match c.phase with
  | .draining drained =>
    if drained < 64 then c.takeTo (.drain drained) .selecting else { c with phase := .selecting }
  | .selecting => c.takeTo .select .selecting
  | .flushing result => c.takeTo (.flush result) (.returned result)
  | _ => c

def deliver (msg : RuntimeToClient S) : Connection S := { c with sent := c.sent ++ [msg] }

/-- A message has been sent. -/
def delivered (msg : RuntimeToClient S) : Site → Connection S
  | .refusal e => { c.deliver msg with phase := .returned (.error e) }
  | .welcome => (c.deliver msg).call .onConnected .connecting
  | .drain drained => { c.deliver msg with phase := .draining (drained + 1) }
  | .select => { c.deliver msg with phase := .draining 0 }
  | .flush result => { c.deliver msg with phase := .flushing result }

/-- A message could not be sent. -/
def undelivered (e : TransportError) : Site → Connection S
  | .refusal refused => { c with phase := .returned (.error refused) }
  | .welcome => { c with phase := .returned (.error (.transport e)) }
  | .drain _ => { c with phase := .selecting }
  | .select => c.leave (.error (.transport e))
  | .flush result => { c with phase := .flushing result }

/-- A send has come to its end. -/
def finish (fault : Option TransportError) : Connection S :=
  match c.phase, fault with
  | .sending site msg, none => c.delivered msg site
  | .sending site _, some e => c.undelivered e site
  | _, _ => c

/-- The handler answers a request. -/
def respond (response : S.ControlResponse) : Connection S :=
  match c.phase with
  | .serving id => { c.enqueue (.control id response) with phase := .draining 0 }
  | _ => c

/-- The handler has returned. -/
def resume : Connection S :=
  match c.phase with
  | .connecting | .replying => { c with phase := .draining 0 }
  | .closing result => { c with phase := .flushing result }
  | _ => c

/-- The time of the next ping has come. -/
def tick : Connection S :=
  match c.phase with
  | .selecting => { c.enqueue .ping with phase := .draining 0 }
  | _ => c

@[grind =] def step : Event S → Connection S
  | .push m => if c.phase.hasSink then c.enqueue m.message else c
  | .recv answer => c.recv answer
  | .take => c.take
  | .sent fault => c.finish fault
  | .responded response => c.respond response
  | .handled => c.resume
  | .tick => c.tick

end Connection

end Cronymax.Protocol
