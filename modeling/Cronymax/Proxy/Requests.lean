import Mathlib.Data.List.Basic

/-! The requests of the host to the runtime.  A request is registered under its id before it is sent, and
the entry is taken away by a reply, by a restart of the runtime, by a send that fails, or when the proxy
is detached. -/

namespace Cronymax.Proxy

variable {J : Type*}

/-- What a request is answered with. -/
inductive Payload (J : Type*) where
  | response (json : J)
  | error (code message : String)

namespace Payload

def detached : Payload J := .error "detached" "proxy detached"

def sendFailed : Payload J := .error "send_failed" "bridge invoke failed"

def runtimeRestarted : Payload J := .error "runtime_restarted" "runtime restarted; retrying"

end Payload

inductive Phase (J : Type*) where
  | rejected
  | checked
  /-- The entry is in `pending_`. -/
  | registered
  | failing
  /-- `SendControl` has returned true. -/
  | accepted
  /-- `SendControlSync` waits. -/
  | waiting
  | failed
  | answered (json : J)

def Payload.outcome : Payload J → Bool → Phase J
  | .response json, false => .answered json
  | _, _ => .failed

/-- A call of `SendControl`, or of `SendControlSync`. -/
structure Call (J : Type*) where
  sync : Bool
  phase : Phase J
  got : List (Payload J × Bool)

/-- An answer on its way to its call. -/
structure Delivery (J : Type*) where
  id : Nat
  payload : Payload J
  isError : Bool

/-- The proxy with its calls and the answers on their way. -/
structure RuntimeProxy (J : Type*) where
  /-- `bridge_` is set. -/
  attached : Bool
  /-- `Detach` has still to drain `pending_`. -/
  detaching : Bool
  crashed : Bool
  calls : List (Call J)
  /-- The keys of `pending_`. -/
  pending : List Nat
  inFlight : List (Delivery J)
  replied : List (Nat × J)

inductive Event (J : Type*) where
  | attach
  /-- `Detach` forgets the bridge. -/
  | detach
  | drain
  | send (sync : Bool)
  | register (id : Nat)
  | invoke (id : Nat) (ok : Bool)
  | fail (id : Nat)
  | wake (id : Nat)
  | timeOut (id : Nat)
  | reply (id : Nat) (response : J) (kind : Option String)
  | restart
  | deliver (place : Nat)

namespace RuntimeProxy

variable (s : RuntimeProxy J)

def new : RuntimeProxy J := ⟨false, false, false, [], [], [], []⟩

/-- A call begins, if the proxy is attached. -/
def send (sync : Bool) : RuntimeProxy J :=
  { s with calls := s.calls ++ [⟨sync, if s.attached then .checked else .rejected, []⟩] }

/-- The call is entered. -/
def register (id : Nat) : RuntimeProxy J :=
  match s.calls[id]? with
  | some ⟨sync, .checked, got⟩ =>
    { s with calls := s.calls.set id ⟨sync, .registered, got⟩, pending := s.pending ++ [id] }
  | _ => s

/-- The request is handed to the bridge. -/
def invoke (id : Nat) (ok : Bool) : RuntimeProxy J :=
  match s.calls[id]? with
  | some ⟨sync, .registered, got⟩ =>
    if s.attached then
      { s with
        calls := s.calls.set id
          ⟨sync, if ok then (if sync then .waiting else .accepted) else .failing, got⟩ }
    else { s with crashed := true }
  | _ => s

/-- The call that could not be sent is answered. -/
def fail (id : Nat) : RuntimeProxy J :=
  match s.calls[id]? with
  | some ⟨sync, .failing, got⟩ =>
    { s with
      calls := s.calls.set id ⟨sync, .failed, got⟩
      pending := s.pending.filter (· ≠ id)
      inFlight :=
        if sync = false ∧ id ∈ s.pending then s.inFlight ++ [⟨id, .sendFailed, true⟩]
        else s.inFlight }
  | _ => s

/-- A call that waits is woken. -/
def wake (id : Nat) : RuntimeProxy J :=
  match s.calls[id]? with
  | some ⟨true, .waiting, (payload, isError) :: rest⟩ =>
    { s with
      calls := s.calls.set id
        ⟨true, payload.outcome isError, (payload, isError) :: rest⟩ }
  | _ => s

/-- A call that waits has waited long enough. -/
def timeOut (id : Nat) : RuntimeProxy J :=
  match s.calls[id]? with
  | some ⟨true, .waiting, []⟩ => { s with calls := s.calls.set id ⟨true, .failed, []⟩ }
  | _ => s

def logged (id : Nat) (response : J) : RuntimeProxy J :=
  { s with replied := s.replied ++ [(id, response)] }

def take (id : Nat) (response : J) (kind : Option String) : RuntimeProxy J :=
  { s with
    pending := s.pending.filter (· ≠ id)
    inFlight :=
      match kind with
      | some kind => s.inFlight ++ [⟨id, .response response, kind = "err"⟩]
      | none => s.inFlight }

/-- `HandleControlReply`. -/
def handleControlReply (id : Nat) (response : J) (kind : Option String) : RuntimeProxy J :=
  if id ∈ s.pending then (s.logged id response).take id response kind else s.logged id response

/-- `HandleBridgeRestarting`. -/
def handleBridgeRestarting : RuntimeProxy J :=
  { s with
    pending := []
    inFlight := s.inFlight ++ s.pending.map (⟨·, .runtimeRestarted, true⟩) }

def answer (id : Nat) (payload : Payload J) (isError : Bool) : List (Call J) :=
  s.calls.modify id fun call => { call with got := call.got ++ [(payload, isError)] }

/-- An answer reaches its call. -/
def deliver (place : Nat) : RuntimeProxy J :=
  match s.inFlight[place]? with
  | some d =>
    { s with inFlight := s.inFlight.eraseIdx place, calls := s.answer d.id d.payload d.isError }
  | none => s

/-- `Detach`, its second part. -/
def detachDrain : RuntimeProxy J :=
  if s.detaching then
    { s with
      detaching := false
      pending := []
      calls := s.calls.mapIdx fun id call =>
        if id ∈ s.pending then { call with got := call.got ++ [(.detached, true)] } else call }
  else s

def act : Event J → RuntimeProxy J
  | .attach => { s with attached := true }
  | .detach => { s with attached := false, detaching := true }
  | .drain => s.detachDrain
  | .send sync => s.send sync
  | .register id => s.register id
  | .invoke id ok => s.invoke id ok
  | .fail id => s.fail id
  | .wake id => s.wake id
  | .timeOut id => s.timeOut id
  | .reply id response kind => s.handleControlReply id response kind
  | .restart => s.handleBridgeRestarting
  | .deliver place => s.deliver place

def step (s : RuntimeProxy J) (e : Event J) : RuntimeProxy J := if s.crashed then s else s.act e

end RuntimeProxy

end Cronymax.Proxy
