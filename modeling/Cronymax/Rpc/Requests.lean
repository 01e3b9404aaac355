import Cronymax.Atomic.History
import Cronymax.Rpc.Connection

/-! Calls of `Connection::request` beside the read loop.  A call draws its msgid, makes its entry in
`pending`, writes its frame, and waits for its oneshot channel; the read loop dispatches frames until
it stops, drains `pending`, and fails the senders that it has drained.  These are separate steps, and
any of them may come next. -/

namespace Cronymax.Rpc

/-- How a call fails. -/
inductive Failure where
  | write (e : Error)
  | peer (error : Value)
  | cancelled

/-- How far a call of `request` has come. -/
inductive Phase where
  | allocated
  /-- The entry in `pending` is made. -/
  | inserted
  | failed (e : Error)
  /-- `rx.await`. -/
  | waiting
  | done (result : Except Failure Value)

def Phase.open : Phase → Bool
  | .allocated | .inserted | .waiting => true
  | _ => false

def Phase.isDone : Phase → Bool
  | .done _ => true
  | _ => false

/-- A call of `request`, with the first response to it. -/
structure Call where
  msgid : UInt32
  phase : Phase
  first : Option ResponseResult

/-- The loop that reads, and how it ends. -/
inductive ReadLoop where
  | running
  | failing (reason : String) (senders : List Nat)
  | ended

/-- The connection with its calls and its loop. -/
structure System where
  conn : Connection
  calls : List Call
  readLoop : ReadLoop

/-- What a call or the loop does next. -/
inductive Event where
  | start
  | insert (call : Nat)
  | write (call : Nat) (fault : Option Error)
  | remove (call : Nat)
  | receive (call : Nat)
  | frame (f : Frame)
  | stop (reason : String)
  | fail

/-- What a call returns for a response. -/
def answer : ResponseResult → Except Failure Value
  | .ok value => .ok value
  | .error e => .error (.peer e)

/-- A call whose response comes first keeps it. -/
def Call.note (f : Frame) (c : Call) : Call :=
  match f with
  | .response msgid error result =>
    if c.msgid = msgid ∧ c.phase.open ∧ c.first.isNone then
      { c with first := some (responseResult error result) }
    else c
  | _ => c

def ReadLoop.isRunning : ReadLoop → Bool
  | .running => true
  | _ => false

/-- The senders that are still to be failed. -/
def ReadLoop.drained : ReadLoop → List Nat
  | .failing _ senders => senders
  | _ => []

namespace System

def opened (handlers : RpcServer) : System :=
  ⟨⟨1, ∅, fun _ => .empty, ∅, handlers, []⟩, [], .running⟩

variable (s : System)

def setPhase (i : Nat) (phase : Phase) : System :=
  { s with calls := s.calls.modify i fun c => { c with phase } }

/-- What an event does to the system. -/
def step : Event → System
  | .start =>
    { s with
      conn := s.conn.allocate
      calls := s.calls ++ [⟨s.conn.nextMsgid, .allocated, none⟩] }
  | .insert i =>
    match s.calls[i]? with
    | some ⟨msgid, .allocated, _⟩ =>
      { s with conn := s.conn.insertPending msgid i }.setPhase i .inserted
    | _ => s
  | .write i fault =>
    match s.calls[i]?, fault with
    | some ⟨_, .inserted, _⟩, none => s.setPhase i .waiting
    | some ⟨_, .inserted, _⟩, some e => s.setPhase i (.failed e)
    | _, _ => s
  | .remove i =>
    match s.calls[i]? with
    | some ⟨msgid, .failed e, _⟩ =>
      { s with conn := s.conn.removePending msgid }.setPhase i (.done (.error (.write e)))
    | _ => s
  | .receive i =>
    match s.calls[i]?, s.conn.channels i with
    | some ⟨_, .waiting, _⟩, .sent outcome => s.setPhase i (.done (answer outcome))
    | some ⟨_, .waiting, _⟩, .dropped => s.setPhase i (.done (.error .cancelled))
    | _, _ => s
  | .frame f =>
    match s.readLoop with
    | .running => { s with conn := s.conn.dispatch f, calls := s.calls.map (Call.note f) }
    | _ => s
  | .stop reason =>
    match s.readLoop with
    | .running =>
      { s with
        conn := s.conn.drain
        readLoop := .failing reason (s.conn.pending.entries.map (·.2)) }
    | _ => s
  | .fail =>
    match s.readLoop with
    | .failing reason (i :: senders) =>
      { s with
        conn := s.conn.send i (.error (.string reason))
        readLoop := .failing reason senders }
    | .failing _ [] => { s with readLoop := .ended }
    | _ => s

/-- The requests are told apart and answered: no two that are outstanding share a msgid; a request
that returns does so with the first `Response` for it, or without one because its frame was not
written or the read loop is over; and once the read loop is over, nobody waits for an answer that
cannot come. -/
structure Correlated : Prop where
  distinct : ∀ {i j : Nat} {c d : Call}, s.calls[i]? = some c → s.calls[j]? = some d →
    c.phase.isDone = false → d.phase.isDone = false → c.msgid = d.msgid → i = j
  answered : ∀ {i : Nat} {c : Call} {o : ResponseResult}, s.calls[i]? = some c → c.first = some o →
    (c.phase.open → s.conn.channels i = .sent o) ∧ ∀ r, c.phase = .done r → r = answer o
  unanswered : ∀ {i : Nat} {c : Call} {r : Except Failure Value}, s.calls[i]? = some c →
    c.first = none → c.phase = .done r → (∃ e, r = .error (.write e)) ∨
      s.readLoop.isRunning = false ∧ ∃ reason, r = .error (.peer (.string reason))
  noEntry : s.readLoop = .ended → ∀ m i, s.conn.pending.lookup m = some i →
    ∃ c, s.calls[i]? = some c ∧ (c.phase = .inserted ∨ ∃ e, c.phase = .failed e)
  noWait : s.readLoop = .ended → ∀ i c, s.calls[i]? = some c → c.phase = .waiting →
    ∃ o, s.conn.channels i = .sent o

/-- No message id comes back while its call waits, and a write succeeds before the loop ends and before
the response comes. -/
def Ordered : Event → Prop
  | .start => ∀ c ∈ s.calls, c.phase.isDone = false → c.msgid ≠ s.conn.nextMsgid
  | .write i none => ∀ c, s.calls[i]? = some c → c.phase = .inserted →
    s.readLoop.isRunning ∨ s.conn.pending.lookup c.msgid ≠ some i
  | .write i (some _) => ∀ c, s.calls[i]? = some c → c.phase = .inserted → c.first = none
  | .frame (.response msgid _ _) => s.readLoop.isRunning →
    ∀ c ∈ s.calls, c.phase = .allocated → c.msgid ≠ msgid
  | _ => True

/-- The system after an event, where it can happen. -/
inductive Takes : Event → System → Prop where
  | start : Takes .start
      { s with
        conn := s.conn.allocate
        calls := s.calls ++ [⟨s.conn.nextMsgid, .allocated, none⟩] }
  | insert {i : Nat} {c : Call} (hCall : s.calls[i]? = some c) (hPhase : c.phase = .allocated) :
      Takes (.insert i) ({ s with conn := s.conn.insertPending c.msgid i }.setPhase i .inserted)
  | written {i : Nat} {c : Call} (hCall : s.calls[i]? = some c) (hPhase : c.phase = .inserted) :
      Takes (.write i none) (s.setPhase i .waiting)
  | unwritten {i : Nat} {c : Call} {e : Error} (hCall : s.calls[i]? = some c)
      (hPhase : c.phase = .inserted) : Takes (.write i (some e)) (s.setPhase i (.failed e))
  | remove {i : Nat} {c : Call} {e : Error} (hCall : s.calls[i]? = some c)
      (hPhase : c.phase = .failed e) : Takes (.remove i)
        ({ s with conn := s.conn.removePending c.msgid }.setPhase i (.done (.error (.write e))))
  | receive {i : Nat} {c : Call} {o : ResponseResult} (hCall : s.calls[i]? = some c)
      (hPhase : c.phase = .waiting) (hChannel : s.conn.channels i = .sent o) :
      Takes (.receive i) (s.setPhase i (.done (answer o)))
  | cancelled {i : Nat} {c : Call} (hCall : s.calls[i]? = some c) (hPhase : c.phase = .waiting)
      (hChannel : s.conn.channels i = .dropped) :
      Takes (.receive i) (s.setPhase i (.done (.error .cancelled)))
  | frame {f : Frame} (hLoop : s.readLoop = .running) : Takes (.frame f)
      { s with conn := s.conn.dispatch f, calls := s.calls.map (Call.note f) }
  | stop {reason : String} (hLoop : s.readLoop = .running) : Takes (.stop reason)
      { s with
        conn := s.conn.drain
        readLoop := .failing reason (s.conn.pending.entries.map (·.2)) }
  | fail {reason : String} {i : Nat} {senders : List Nat}
      (hLoop : s.readLoop = .failing reason (i :: senders)) : Takes .fail
        { s with
          conn := s.conn.send i (.error (.string reason))
          readLoop := .failing reason senders }
  | finish {reason : String} (hLoop : s.readLoop = .failing reason []) :
      Takes .fail { s with readLoop := .ended }

variable {s}

theorem step_cases (e : Event) : s.step e = s ∨ s.Takes e (s.step e) := by
  cases e with
  | start => exact .inr .start
  | insert i =>
    dsimp only [step]
    split
    · exact .inr (.insert (by assumption) rfl)
    · exact .inl rfl
  | write i fault =>
    dsimp only [step]
    split
    · exact .inr (.written (by assumption) rfl)
    · exact .inr (.unwritten (by assumption) rfl)
    · exact .inl rfl
  | remove i =>
    dsimp only [step]
    split
    · exact .inr (.remove (by assumption) rfl)
    · exact .inl rfl
  | receive i =>
    dsimp only [step]
    split
    · exact .inr (.receive (by assumption) rfl (by assumption))
    · exact .inr (.cancelled (by assumption) rfl (by assumption))
    · exact .inl rfl
  | frame f =>
    dsimp only [step]
    split
    · exact .inr (.frame (by assumption))
    · exact .inl rfl
  | stop reason =>
    dsimp only [step]
    split
    · exact .inr (.stop (by assumption))
    · exact .inl rfl
  | fail =>
    dsimp only [step]
    split
    · exact .inr (.fail (by assumption))
    · exact .inr (.finish (by assumption))
    · exact .inl rfl

end System

end Cronymax.Rpc
