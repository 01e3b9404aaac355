import Cronymax.Atomic.History
import Cronymax.Protocol.Dispatch

/-! The discipline of a session.  A message that the transport fails to take in the priority pass is
lost while the loop goes on, an answer may be lost in the final flush of a connection that ends well,
and what comes into the sink behind a Goodbye is sent behind it. -/

namespace Cronymax.Protocol

open Atomic

variable {S : Surfaces}

def RuntimeToClient.isGoodbye : RuntimeToClient S → Bool
  | .goodbye _ _ => true
  | _ => false

def ClientToRuntime.requestId : ClientToRuntime S → Option CorrelationId
  | .control id _ => some id
  | _ => none

/-- The request that a message answers. -/
def RuntimeToClient.answerId : RuntimeToClient S → Option CorrelationId
  | .control id _ => some id
  | _ => none

namespace Phase

/-- The messages that are being sent. -/
@[grind =] def inFlight : Phase S → List (RuntimeToClient S)
  | .sending (.drain _) msg | .sending .select msg | .sending (.flush _) msg => [msg]
  | _ => []

/-- The requests that are being served. -/
@[grind =] def served : Phase S → List CorrelationId
  | .serving id => [id]
  | _ => []

/-- The phases after the handshake. -/
@[grind =] def loops : Phase S → Bool
  | .connecting | .draining _ | .selecting | .serving _ | .replying | .sending (.drain _) _
  | .sending .select _ => true
  | _ => false

/-- The phases of the handshake. -/
def opens : Phase S → Bool
  | .hello | .sending (.refusal _) _ | .sending .welcome _ => true
  | _ => false

@[grind =] def fails : Phase S → Bool
  | .sending (.refusal _) _ | .closing (.error _) | .flushing (.error _)
  | .sending (.flush (.error _)) _ | .returned (.error _) => true
  | _ => false

@[simp] theorem reads_serving (id : CorrelationId) :
    (serving id : Phase S).inFlight = [] ∧ (serving id : Phase S).served = [id] ∧
      (serving id : Phase S).loops = true ∧ (serving id : Phase S).opens = false ∧
      (serving id : Phase S).fails = false := by
  simp [inFlight, served, loops, opens, fails]

end Phase

namespace Connection

variable (c : Connection S)

/-- What is still to be sent. -/
@[grind =] def waiting : List (RuntimeToClient S) := c.phase.inFlight ++ c.outRx

/-- The requests that have been received. -/
@[grind =] def requests : List CorrelationId := c.received.filterMap (·.requestId)

/-- The requests whose answers were sent. -/
@[grind =] def answered : List CorrelationId := c.sent.filterMap (·.answerId)

/-- The requests whose answers are still to be sent. -/
@[grind =] def unanswered : List CorrelationId := c.waiting.filterMap (·.answerId) ++ c.phase.served

/-- The handshake was refused: a Goodbye and nothing else. -/
def Refused : Prop :=
  ∃ reason message e, c.sent = [.goodbye reason message] ∧ c.calls = [] ∧
    c.phase = .returned (.error e)

/-- What is promised of a session. -/
structure Discipline : Prop where
  welcome : c.sent = [] ∨ (∃ rest, c.sent = .welcome protocolVersion crateVersion :: rest) ∨ c.Refused
  hello : c.calls ≠ [] → ∃ protocol name version rest,
    c.received = .hello protocol name version :: rest ∧ protocolVersion.isCompatibleWith protocol
  answers : c.phase.fails = false → c.requests = c.answered ++ c.unanswered
  answered : c.phase = .returned (.ok ()) → c.requests = c.answered
  order : c.sent.tail.Sublist c.pushed
  whole : c.phase.loops → c.pushed = c.sent.tail ++ c.waiting
  last : ∀ msg ∈ c.sent.dropLast, msg.isGoodbye = false

/-- A send fails only where nothing is lost by it. -/
def Meets (e : Event S) : Prop :=
  match c.phase, e with
  | .sending (.drain _) _, .sent fault => fault = none
  | .sending (.flush result) msg, .sent fault =>
    (result = .ok () → msg.answerId.isSome → fault = none) ∧
      (fault = none → ∀ earlier ∈ c.sent, earlier.isGoodbye = false)
  | _, _ => True

/-- A connection whose handshake is through. -/
structure Connected : Prop where
  past : c.phase.opens = false
  hello : ∃ protocol name version rest,
    c.received = .hello protocol name version :: rest ∧ protocolVersion.isCompatibleWith protocol
  welcome : ∃ rest, c.sent = .welcome protocolVersion crateVersion :: rest
  order : ∃ tried, c.pushed = tried ++ c.waiting ∧ c.sent.tail.Sublist tried ∧
    (c.phase.loops → c.sent.tail = tried)
  answers : c.phase.fails = false → c.requests = c.answered ++ c.unanswered
  silent : c.phase.loops → ∀ msg ∈ c.pushed, msg.isGoodbye = false
  last : ∀ msg ∈ c.sent.dropLast, msg.isGoodbye = false
  drained : ∀ result, c.phase = .returned result → c.outRx = []

/-- How a session can stand. -/
inductive Sound : Connection S → Prop where
  | hello : Sound .start
  | refusing (e : DispatchError) (reason : GoodbyeReason) (message : String)
      (received : List (ClientToRuntime S)) :
      Sound ⟨.sending (.refusal e) (.goodbye reason message), [], received, [], [], []⟩
  | refused (e : DispatchError) (reason : GoodbyeReason) (message : String)
      (received : List (ClientToRuntime S)) :
      Sound ⟨.returned (.error e), [], received, [], [], [.goodbye reason message]⟩
  | failed (e : DispatchError) (received : List (ClientToRuntime S)) :
      Sound ⟨.returned (.error e), [], received, [], [], []⟩
  | welcoming (protocol : ProtocolVersion) (name version : String)
      (hCompatible : protocolVersion.isCompatibleWith protocol) :
      Sound ⟨.sending .welcome (.welcome protocolVersion crateVersion), [],
        [.hello protocol name version], [], [], []⟩
  | connected {c : Connection S} (h : c.Connected) : Sound c

variable {c}

theorem Connected.move (h : c.Connected) {c' : Connection S} (hReceived : c'.received = c.received)
    (hSent : c'.sent = c.sent) (hPushed : c'.pushed = c.pushed) (hWaiting : c'.waiting = c.waiting)
    (hServed : c'.phase.served = c.phase.served) (hLoops : c'.phase.loops → c.phase.loops)
    (hFails : c'.phase.fails = false → c.phase.fails = false)
    (hDrained : ∀ result, c'.phase = .returned result → c'.outRx = [])
    (hPast : c'.phase.opens = false) : c'.Connected where
  past := hPast
  hello := hReceived ▸ h.hello
  welcome := hSent ▸ h.welcome
  order := by
    obtain ⟨tried, hTried, hSub, hAll⟩ := h.order
    rw [hPushed, hWaiting, hSent]
    exact ⟨tried, hTried, hSub, fun hLoop => hAll (hLoops hLoop)⟩
  answers := fun hOk => by
    have hBefore := h.answers (hFails hOk)
    unfold requests answered unanswered at hBefore ⊢
    rw [hReceived, hSent, hWaiting, hServed]
    exact hBefore
  silent := fun hLoop => hPushed ▸ h.silent (hLoops hLoop)
  last := hSent ▸ h.last
  drained := hDrained

theorem Connected.enqueue (h : c.Connected) (msg : RuntimeToClient S) (hAnswer : msg.answerId = none)
    (hGoodbye : c.phase.loops → msg.isGoodbye = false) (hSink : c.phase.hasSink = true) :
    (c.enqueue msg).Connected where
  past := h.past
  hello := h.hello
  welcome := h.welcome
  order := by
    obtain ⟨tried, hTried, hSub, hAll⟩ := h.order
    refine ⟨tried, ?_, hSub, hAll⟩
    simp only [Connection.enqueue, waiting] at hTried ⊢
    rw [hTried]
    simp only [List.append_assoc]
  answers := fun hOk => by
    have hBefore := h.answers hOk
    simp only [requests, answered, unanswered, waiting, Connection.enqueue, List.filterMap_append,
      List.filterMap_cons, hAnswer, List.filterMap_nil, List.append_nil] at hBefore ⊢
    exact hBefore
  silent := fun hLoop msg' hMem => by
    rcases List.mem_append.mp hMem with hMem | hMem
    · exact h.silent hLoop msg' hMem
    · rw [List.mem_singleton.mp hMem]
      exact hGoodbye hLoop
  last := h.last
  drained := fun result hPhase => by
    rw [show c.phase = .returned result from hPhase] at hSink
    cases hSink

theorem Connected.respond (h : c.Connected) {id : CorrelationId} (hPhase : c.phase = .serving id)
    (response : S.ControlResponse) :
    Connected { c.enqueue (.control id response) with phase := .draining 0 } where
  past := rfl
  hello := h.hello
  welcome := h.welcome
  order := by
    obtain ⟨tried, hTried, hSub, hAll⟩ := h.order
    refine ⟨tried, ?_, hSub, fun _ => hAll (by simp [hPhase])⟩
    simp only [Connection.enqueue, waiting, hPhase, Phase.inFlight, List.nil_append] at hTried ⊢
    rw [hTried, List.append_assoc]
  answers := fun _ => by
    have hBefore := h.answers (by simp [hPhase])
    simp only [requests, answered, unanswered, waiting, Connection.enqueue, hPhase, Phase.inFlight,
      Phase.served, List.nil_append, List.filterMap_append, List.append_nil] at hBefore ⊢
    rw [hBefore]
    rfl
  silent := fun _ msg' hMem => by
    rcases List.mem_append.mp hMem with hMem | hMem
    · exact h.silent (by simp [hPhase]) msg' hMem
    · rw [List.mem_singleton.mp hMem]
      rfl
  last := h.last
  drained := fun _ hReturned => by cases hReturned

theorem Connected.deliver (h : c.Connected) {msg : RuntimeToClient S}
    (hInFlight : c.phase.inFlight = [msg]) (hServed : c.phase.served = [])
    (hSilent : ∀ earlier ∈ c.sent, earlier.isGoodbye = false) {phase : Phase S}
    (hInFlight' : phase.inFlight = []) (hServed' : phase.served = [])
    (hLoops : phase.loops → c.phase.loops) (hFails : phase.fails = false → c.phase.fails = false)
    (hReturned : ∀ result, phase ≠ .returned result) (hPast : phase.opens = false) :
    Connected { c.deliver msg with phase } where
  past := hPast
  hello := h.hello
  welcome := by
    obtain ⟨rest, hSent⟩ := h.welcome
    exact ⟨rest ++ [msg], by simp [Connection.deliver, hSent]⟩
  order := by
    obtain ⟨tried, hTried, hSub, hAll⟩ := h.order
    obtain ⟨rest, hSent⟩ := h.welcome
    refine ⟨tried ++ [msg], ?_, ?_, fun hLoop => ?_⟩
    · simp only [Connection.deliver, waiting, hInFlight, hInFlight', List.nil_append] at hTried ⊢
      rw [hTried, List.append_assoc]
    · simp only [Connection.deliver, hSent, List.cons_append, List.tail_cons] at hSub ⊢
      exact hSub.append (List.Sublist.refl _)
    · have hTail := hAll (hLoops hLoop)
      simp only [Connection.deliver, hSent, List.cons_append, List.tail_cons] at hTail ⊢
      rw [hTail]
  answers := fun hOk => by
    have hBefore := h.answers (hFails hOk)
    simp only [requests, answered, unanswered, waiting, Connection.deliver, hInFlight, hInFlight',
      hServed, hServed', List.nil_append, List.append_nil, List.filterMap_append] at hBefore ⊢
    rw [hBefore, List.append_assoc]
  silent := fun hLoop => h.silent (hLoops hLoop)
  last := by
    simp only [Connection.deliver, List.dropLast_concat]
    exact hSilent
  drained := fun result hPhase => absurd hPhase (hReturned result)

theorem Connected.lose (h : c.Connected) (msg : RuntimeToClient S)
    (hInFlight : c.phase.inFlight = [msg]) (hServed : c.phase.served = []) {phase : Phase S}
    (hInFlight' : phase.inFlight = []) (hServed' : phase.served = [])
    (hLoops : phase.loops = false)
    (hFails : phase.fails = false → c.phase.fails = false ∧ msg.answerId = none)
    (hReturned : ∀ result, phase ≠ .returned result) (hPast : phase.opens = false) :
    Connected { c with phase } where
  past := hPast
  hello := h.hello
  welcome := h.welcome
  order := by
    obtain ⟨tried, hTried, hSub, -⟩ := h.order
    refine ⟨tried ++ [msg], ?_, hSub.trans (List.sublist_append_left _ _), fun hLoop => ?_⟩
    · simp only [waiting, hInFlight, hInFlight', List.nil_append] at hTried ⊢
      rw [hTried, List.append_assoc]
    · rw [hLoops] at hLoop
      cases hLoop
  answers := fun hOk => by
    obtain ⟨hBeforeOk, hAnswer⟩ := hFails hOk
    have hBefore := h.answers hBeforeOk
    simp only [requests, answered, unanswered, waiting, hInFlight, hInFlight', hServed, hServed',
      List.nil_append, List.append_nil, List.filterMap_append, List.filterMap_cons, hAnswer,
      List.filterMap_nil] at hBefore ⊢
    exact hBefore
  silent := fun hLoop => by
    rw [hLoops] at hLoop
    cases hLoop
  last := h.last
  drained := fun result hPhase => absurd hPhase (hReturned result)

theorem Connected.sent_silent (h : c.Connected) (hLoops : c.phase.loops) :
    ∀ earlier ∈ c.sent, earlier.isGoodbye = false := by
  obtain ⟨rest, hSent⟩ := h.welcome
  obtain ⟨tried, hTried, -, hAll⟩ := h.order
  have hTail := hAll hLoops
  rw [hSent, List.tail_cons] at hTail
  intro earlier hMem
  rw [hSent] at hMem
  rcases List.mem_cons.mp hMem with rfl | hMem
  · rfl
  · refine h.silent hLoops earlier ?_
    rw [hTried, ← hTail]
    exact List.mem_append_left _ hMem

theorem Connected.leave (h : c.Connected) (hSelecting : c.phase = .selecting)
    (result : Except DispatchError Unit) : (c.leave result).Connected := by
  refine h.move rfl rfl rfl ?_ ?_ ?_ ?_ ?_ rfl
  · simp [waiting, Connection.leave, Connection.call, Phase.inFlight, hSelecting]
  · simp [Connection.leave, Connection.call, Phase.served, hSelecting]
  · simp [Connection.leave, Connection.call, Phase.loops]
  · simp [Phase.fails, hSelecting]
  · simp [Connection.leave, Connection.call]

theorem Connected.receive (h : c.Connected) (msg : ClientToRuntime S) (hId : msg.requestId = none) :
    (c.receive msg).Connected where
  past := h.past
  hello := by
    obtain ⟨protocol, name, version, rest, hReceived, hCompatible⟩ := h.hello
    exact ⟨protocol, name, version, rest ++ [msg], by simp [Connection.receive, hReceived], hCompatible⟩
  welcome := h.welcome
  order := h.order
  answers := fun hOk => by
    have hBefore := h.answers hOk
    simp only [requests, answered, unanswered, waiting, Connection.receive, List.filterMap_append,
      List.filterMap_cons, hId, List.filterMap_nil, List.append_nil] at hBefore ⊢
    exact hBefore
  silent := h.silent
  last := h.last
  drained := h.drained

theorem Connected.serve (h : c.Connected) (hSelecting : c.phase = .selecting) (id : CorrelationId)
    (request : S.ControlRequest) :
    ((c.receive (.control id request)).call (.handleControl id request) (.serving id)).Connected where
  past := rfl
  hello := by
    obtain ⟨protocol, name, version, rest, hReceived, hCompatible⟩ := h.hello
    exact ⟨protocol, name, version, rest ++ [.control id request],
      by simp [Connection.call, Connection.receive, hReceived], hCompatible⟩
  welcome := h.welcome
  order := by
    obtain ⟨tried, hTried, hSub, hAll⟩ := h.order
    refine ⟨tried, ?_, hSub, fun _ => hAll (by rw [hSelecting]; rfl)⟩
    simpa [waiting, hSelecting, Phase.inFlight, Connection.call, Connection.receive] using hTried
  answers := fun _ => by
    have hBefore := h.answers (by rw [hSelecting]; rfl)
    simp only [requests, answered, unanswered, waiting, Connection.call, Connection.receive, hSelecting,
      Phase.inFlight, Phase.served, List.nil_append, List.append_nil, List.filterMap_append]
      at hBefore ⊢
    rw [hBefore, List.append_assoc]
    rfl
  silent := fun _ => h.silent (by rw [hSelecting]; rfl)
  last := h.last
  drained := fun _ hReturned => by cases hReturned

theorem Connected.inbound (h : c.Connected) (hSelecting : c.phase = .selecting)
    (msg : ClientToRuntime S) : ((c.receive msg).inbound msg).Connected := by
  cases msg with
  | hello protocol name version =>
    have hReceive := h.receive (.hello protocol name version) rfl
    have hPhase : (c.receive (.hello protocol name version)).phase = .selecting := hSelecting
    have hLeave := hReceive.leave hPhase (.error (.handshakeRequired "Hello after Welcome"))
    exact hLeave.enqueue helloTwice rfl (fun hLoop => by cases hLoop) rfl
  | control id request => exact h.serve hSelecting id request
  | capabilityReply id response =>
    have hReceive := h.receive (.capabilityReply id response) rfl
    refine hReceive.move rfl rfl rfl ?_ ?_ ?_ ?_ ?_ rfl
    · simp [waiting, Connection.inbound, Connection.call, Connection.receive, Phase.inFlight, hSelecting]
    · simp [Connection.inbound, Connection.call, Connection.receive, Phase.served, hSelecting]
    · simp [Connection.receive, Phase.loops, hSelecting]
    · simp [Connection.receive, Phase.fails, hSelecting]
    · simp [Connection.inbound, Connection.call]
  | pong =>
    have hReceive := h.receive .pong rfl
    refine hReceive.move rfl rfl rfl ?_ ?_ ?_ ?_ ?_ rfl
    · simp [waiting, Connection.inbound, Connection.receive, Phase.inFlight, hSelecting]
    · simp [Connection.inbound, Connection.receive, Phase.served, hSelecting]
    · simp [Connection.receive, Phase.loops, hSelecting]
    · simp [Connection.receive, Phase.fails, hSelecting]
    · simp [Connection.inbound]

theorem Connected.takeTo (h : c.Connected) (hInFlight : c.phase.inFlight = [])
    (hServed : c.phase.served = []) {site : Site} {otherwise : Phase S}
    (hSite : ∀ msg : RuntimeToClient S, (Phase.sending site msg).inFlight = [msg] ∧
      ((Phase.sending site msg).loops → c.phase.loops) ∧
      ((Phase.sending site msg).fails = false → c.phase.fails = false) ∧
      (Phase.sending site msg).opens = false)
    (hOtherwise : otherwise.inFlight = [] ∧ otherwise.served = [] ∧
      (otherwise.loops → c.phase.loops) ∧ (otherwise.fails = false → c.phase.fails = false) ∧
      otherwise.opens = false) :
    (c.takeTo site otherwise).Connected := by
  unfold Connection.takeTo
  split
  · rename_i msg rest hOut
    refine h.move rfl rfl rfl ?_ ?_ (hSite msg).2.1 (hSite msg).2.2.1
      (fun result hPhase => by cases hPhase) (hSite msg).2.2.2
    · simp [waiting, (hSite msg).1, hInFlight, hOut]
    · rw [hServed]
      rfl
  · rename_i hOut
    refine h.move rfl rfl rfl ?_ ?_ hOtherwise.2.2.1 hOtherwise.2.2.2.1 (fun _ _ => hOut)
      hOtherwise.2.2.2.2
    · simp [waiting, hOtherwise.1, hInFlight]
    · rw [hServed]
      exact hOtherwise.2.1

theorem Connected.take (h : c.Connected) : c.take.Connected := by
  unfold Connection.take
  split
  · rename_i drained hPhase
    split
    · refine h.takeTo (by rw [hPhase]; rfl) (by rw [hPhase]; rfl)
        (fun msg => ⟨rfl, fun _ => ?_, fun _ => ?_, rfl⟩) ⟨rfl, rfl, fun _ => ?_, fun _ => ?_, rfl⟩ <;> rw [hPhase] <;> rfl
    · refine h.move rfl rfl rfl ?_ ?_ ?_ ?_ ?_ rfl <;>
        simp [waiting, Phase.inFlight, Phase.served, Phase.loops, Phase.fails, hPhase]
  · rename_i hPhase
    refine h.takeTo (by rw [hPhase]; rfl) (by rw [hPhase]; rfl)
      (fun msg => ⟨rfl, fun _ => ?_, fun _ => ?_, rfl⟩) ⟨rfl, rfl, fun _ => ?_, fun _ => ?_, rfl⟩ <;> rw [hPhase] <;> rfl
  · rename_i result hPhase
    refine h.takeTo (by rw [hPhase]; rfl) (by rw [hPhase]; rfl) (fun msg => ⟨rfl, ?_, ?_, rfl⟩)
      ⟨rfl, rfl, ?_, ?_, rfl⟩ <;> cases result <;> simp [hPhase, Phase.loops, Phase.fails]
  · exact h

theorem Connected.delivered (h : c.Connected) {site : Site} {msg : RuntimeToClient S}
    (hPhase : c.phase = .sending site msg)
    (hSilent : ∀ earlier ∈ c.sent, earlier.isGoodbye = false) : (c.delivered msg site).Connected := by
  have hPast := h.past
  rw [hPhase] at hPast
  cases site with
  | refusal e => cases hPast
  | welcome => cases hPast
  | drain drained =>
    refine h.deliver (by rw [hPhase]; rfl) (by rw [hPhase]; rfl) hSilent rfl rfl ?_ ?_ ?_ rfl <;>
      simp [hPhase, Phase.loops, Phase.fails]
  | select =>
    refine h.deliver (by rw [hPhase]; rfl) (by rw [hPhase]; rfl) hSilent rfl rfl ?_ ?_ ?_ rfl <;>
      simp [hPhase, Phase.loops, Phase.fails]
  | flush result =>
    refine h.deliver (by rw [hPhase]; rfl) (by rw [hPhase]; rfl) hSilent rfl rfl ?_ ?_ ?_ rfl <;>
      cases result <;> simp [hPhase, Phase.loops, Phase.fails]

theorem Connected.finish (h : c.Connected) {fault : Option TransportError}
    (hMeets : c.Meets (.sent fault)) : (c.finish fault).Connected := by
  unfold Connection.finish
  split
  · rename_i site msg hPhase
    refine h.delivered hPhase ?_
    unfold Meets at hMeets
    rw [hPhase] at hMeets
    cases site with
    | refusal e => exact h.sent_silent (by have := h.past; rw [hPhase] at this; cases this)
    | welcome => exact h.sent_silent (by have := h.past; rw [hPhase] at this; cases this)
    | drain drained => exact h.sent_silent (by rw [hPhase]; rfl)
    | select => exact h.sent_silent (by rw [hPhase]; rfl)
    | flush result => exact hMeets.2 rfl
  · rename_i site msg e hPhase
    unfold Meets at hMeets
    rw [hPhase] at hMeets
    cases site with
    | refusal _ => have := h.past; rw [hPhase] at this; cases this
    | welcome => have := h.past; rw [hPhase] at this; cases this
    | drain drained => cases hMeets
    | select =>
      have hLost : Connected { c with phase := .closing (.error (.transport e)) } := h.lose msg
        (by rw [hPhase]; rfl) (by rw [hPhase]; rfl) rfl rfl rfl (fun hFails => by cases hFails)
        (fun _ hReturned => by cases hReturned) rfl
      exact hLost.move rfl rfl rfl rfl rfl id id (fun _ hReturned => by cases hReturned) rfl
    | flush result =>
      refine h.lose msg (by rw [hPhase]; rfl) (by rw [hPhase]; rfl) rfl rfl rfl ?_
        (fun _ hReturned => by cases hReturned) rfl
      cases result with
      | error _ => exact fun hFails => by cases hFails
      | ok _ =>
        refine fun _ => ⟨by rw [hPhase]; rfl, ?_⟩
        by_contra hAnswer
        have := hMeets.1 rfl (Option.isSome_iff_ne_none.mpr hAnswer)
        cases this
  · exact h

theorem Connected.step (h : c.Connected) {e : Event S} (hMeets : c.Meets e) :
    (c.step e).Connected := by
  cases e with
  | push m =>
    simp only [Connection.step]
    split
    · rename_i hSink
      cases m <;> exact h.enqueue _ rfl (fun _ => rfl) hSink
    · exact h
  | recv answer =>
    simp only [Connection.step, Connection.recv]
    split
    · rename_i hPhase
      have := h.past
      rw [hPhase] at this
      cases this
    · rename_i hPhase
      have := h.past
      rw [hPhase] at this
      cases this
    · rename_i msg hPhase
      exact h.inbound hPhase msg
    · rename_i hPhase
      exact h.leave hPhase _
    · rename_i _ hPhase
      exact h.leave hPhase _
    · exact h
  | take => exact h.take
  | sent fault => exact h.finish hMeets
  | responded response =>
    simp only [Connection.step, Connection.respond]
    split
    · rename_i id hPhase
      exact h.respond hPhase response
    · exact h
  | handled =>
    simp only [Connection.step, Connection.resume]
    split
    · rename_i hPhase
      refine h.move rfl rfl rfl ?_ ?_ ?_ ?_ ?_ rfl <;>
        simp [waiting, Phase.inFlight, Phase.served, Phase.loops, Phase.fails, hPhase]
    · rename_i hPhase
      refine h.move rfl rfl rfl ?_ ?_ ?_ ?_ ?_ rfl <;>
        simp [waiting, Phase.inFlight, Phase.served, Phase.loops, Phase.fails, hPhase]
    · rename_i result hPhase
      refine h.move rfl rfl rfl ?_ ?_ ?_ ?_ ?_ rfl <;> cases result <;>
        simp [waiting, Phase.inFlight, Phase.served, Phase.loops, Phase.fails, hPhase]
    · exact h
  | tick =>
    simp only [Connection.step, Connection.tick]
    split
    · rename_i hPhase
      have hPing := h.enqueue .ping rfl (fun _ => rfl) (by rw [hPhase]; rfl)
      refine hPing.move rfl rfl rfl ?_ ?_ ?_ ?_ ?_ rfl <;>
        simp [waiting, Connection.enqueue, Phase.inFlight, Phase.served, Phase.loops, Phase.fails,
          hPhase]
    · exact h

theorem connected_of_welcome {protocol : ProtocolVersion} {name version : String}
    (hCompatible : protocolVersion.isCompatibleWith protocol) (calls : List (HandlerCall S)) :
    Connected ⟨.connecting, [], [.hello protocol name version], calls, [],
      [.welcome protocolVersion crateVersion]⟩ where
  past := rfl
  hello := ⟨protocol, name, version, [], rfl, hCompatible⟩
  welcome := ⟨[], rfl⟩
  order := ⟨[], rfl, List.Sublist.refl _, fun _ => rfl⟩
  answers := fun _ => rfl
  silent := fun _ _ hMem => by cases hMem
  last := fun _ hMem => by cases hMem
  drained := fun _ hReturned => by cases hReturned

theorem Sound.step (h : Sound c) {e : Event S} (hMeets : c.Meets e) : Sound (c.step e) := by
  cases h with
  | hello =>
    cases e with
    | recv answer =>
      cases answer with
      | error e => exact .failed _ _
      | ok msg =>
        cases msg with
        | hello protocol name version =>
          simp only [Connection.step, Connection.recv, Connection.start, Connection.receive, handshake]
          split
          · rename_i hCompatible
            exact .welcoming protocol name version hCompatible
          · exact .refusing _ _ _ _
        | control id request => exact .refusing _ _ _ _
        | capabilityReply id response => exact .refusing _ _ _ _
        | pong => exact .refusing _ _ _ _
    | _ => exact .hello
  | refusing refusal reason message received =>
    cases e with
    | sent fault =>
      cases fault with
      | none => exact .refused _ _ _ _
      | some e => exact .failed _ _
    | _ => exact .refusing _ _ _ _
  | refused refusal reason message received => cases e <;> exact .refused _ _ _ _
  | failed refusal received => cases e <;> exact .failed _ _
  | welcoming protocol name version hCompatible =>
    cases e with
    | sent fault =>
      cases fault with
      | none => exact .connected (connected_of_welcome hCompatible _)
      | some e => exact .failed _ _
    | _ => exact .welcoming protocol name version hCompatible
  | connected h => exact .connected (h.step hMeets)

theorem Connected.discipline (h : c.Connected) : c.Discipline where
  welcome := .inr (.inl h.welcome)
  hello := fun _ => h.hello
  answers := h.answers
  answered := fun hReturned => by
    have hAnswers := h.answers (by rw [hReturned]; rfl)
    have hOut := h.drained _ hReturned
    simpa [unanswered, waiting, hReturned, hOut, Phase.inFlight, Phase.served] using hAnswers
  order := by
    obtain ⟨tried, hTried, hSub, -⟩ := h.order
    rw [hTried]
    exact hSub.trans (List.sublist_append_left _ _)
  whole := fun hLoops => by
    obtain ⟨tried, hTried, -, hAll⟩ := h.order
    rw [hTried, hAll hLoops]
  last := h.last

theorem discipline_of_silence (hSent : c.sent = []) (hCalls : c.calls = []) (hPushed : c.pushed = [])
    (hLoops : c.phase.loops = false)
    (hOpen : c.phase.fails = false → c.requests = [] ∧ c.unanswered = []) : c.Discipline where
  welcome := .inl hSent
  hello := fun hCalled => absurd hCalls hCalled
  answers := fun hFails => by
    rw [(hOpen hFails).1, (hOpen hFails).2, Connection.answered, hSent]
    rfl
  answered := fun hReturned => by
    rw [(hOpen (by rw [hReturned]; rfl)).1, Connection.answered, hSent]
    rfl
  order := by
    rw [hSent, hPushed]
    exact List.Sublist.refl _
  whole := fun hLoop => by
    rw [hLoops] at hLoop
    cases hLoop
  last := by
    rw [hSent]
    exact fun _ hMem => by cases hMem

theorem Sound.discipline (h : Sound c) : c.Discipline := by
  cases h with
  | hello => exact discipline_of_silence rfl rfl rfl rfl fun _ => ⟨rfl, rfl⟩
  | refusing e reason message received =>
    exact discipline_of_silence rfl rfl rfl rfl fun hFails => by cases hFails
  | refused e reason message received =>
    exact ⟨.inr (.inr ⟨reason, message, e, rfl, rfl, rfl⟩), fun hCalled => absurd rfl hCalled,
      (fun hFails => by cases hFails), (fun hReturned => by cases hReturned), List.Sublist.refl _,
      (fun hLoop => by cases hLoop), (fun _ hMem => by cases hMem)⟩
  | failed e received => exact discipline_of_silence rfl rfl rfl rfl fun hFails => by cases hFails
  | welcoming protocol name version hCompatible =>
    exact discipline_of_silence rfl rfl rfl rfl fun _ => ⟨rfl, rfl⟩
  | connected h => exact h.discipline

theorem step_delivered {site : Site} {msg : RuntimeToClient S} (hPhase : c.phase = .sending site msg) :
    c.step (.sent none) = c.delivered msg site := by
  simp only [Connection.step, finish]
  rw [hPhase]

theorem step_undelivered {site : Site} {msg : RuntimeToClient S}
    (hPhase : c.phase = .sending site msg) (e : TransportError) :
    c.step (.sent (some e)) = c.undelivered e site := by
  simp only [Connection.step, finish]
  rw [hPhase]

theorem Connected.meets (h : c.Connected) {e : Event S} (hDiscipline : (c.step e).Discipline) :
    c.Meets e := by
  unfold Meets
  split
  · rename_i drained msg fault hPhase
    cases fault with
    | none => rfl
    | some lost =>
      exfalso
      obtain ⟨tried, hTried, -, hAll⟩ := h.order
      have hTail := hAll (by rw [hPhase]; rfl)
      rw [step_undelivered hPhase] at hDiscipline
      have hWhole := hDiscipline.whole rfl
      simp only [undelivered, waiting, Phase.inFlight, List.nil_append] at hWhole
      rw [hTried, hTail, waiting, hPhase, Phase.inFlight] at hWhole
      have hLength := congrArg List.length hWhole
      simp only [List.length_append, List.length_cons, List.length_nil] at hLength
      omega
  · rename_i result msg fault hPhase
    constructor
    · rintro rfl hAnswer
      cases fault with
      | none => rfl
      | some lost =>
        exfalso
        have hBefore := h.answers (by rw [hPhase]; rfl)
        rw [step_undelivered hPhase] at hDiscipline
        have hAfter := hDiscipline.answers rfl
        obtain ⟨id, hId⟩ := Option.isSome_iff_exists.mp hAnswer
        simp only [undelivered, requests, answered, unanswered, waiting, hPhase,
          Phase.inFlight, Phase.served, List.nil_append, List.append_nil, List.filterMap_append,
          List.filterMap_cons, hId, List.filterMap_nil] at hBefore hAfter
        have hLength := congrArg List.length (hBefore.symm.trans hAfter)
        simp only [List.length_append, List.length_cons, List.length_nil] at hLength
        omega
    · rintro rfl earlier hEarlier
      rw [step_delivered hPhase] at hDiscipline
      have hLast : ∀ m ∈ (c.sent ++ [msg]).dropLast, m.isGoodbye = false := hDiscipline.last
      rw [List.dropLast_concat] at hLast
      exact hLast earlier hEarlier
  · trivial

theorem Sound.meets (h : Sound c) {e : Event S} (hDiscipline : (c.step e).Discipline) : c.Meets e := by
  cases h with
  | connected h => exact h.meets hDiscipline
  | _ => cases e <;> trivial

/-- In every run of the loop, every state keeps the discipline exactly if every step meets its
condition. -/
theorem discipline_iff (events : List (Event S)) :
    History.Each Connection.step (fun c e => (c.step e).Discipline) .start events ↔
      History.Each Connection.step Meets .start events :=
  (History.each_congr (I := Sound) .hello (fun _ _ hSound hMeets => hSound.step hMeets)
    (fun _ _ hSound => ⟨fun hMeets => (hSound.step hMeets).discipline, hSound.meets⟩) events).symm

end Connection

abbrev pings : Surfaces := ⟨Unit, Unit, Unit, Unit, Unit⟩

def lostAnswer : List (Event pings) :=
  [.recv (.ok (.hello protocolVersion "host" "1.0.0")), .sent none, .handled, .take,
    .recv (.ok (.control ⟨"4be0643f-1d98-473b-97cd-ca98a65347dd"⟩ ())), .responded (), .take,
    .sent (some (.io "broken pipe")), .recv (.error .closed), .handled, .take]

/-- The connection ends well, and the request has no answer. -/
theorem answer_lost :
    ¬History.Each Connection.step (fun c e => (c.step e).Discipline) (.start : Connection pings)
      lostAnswer := by
  intro hEach
  obtain ⟨-, -, -, -, -, -, -, -, -, -, hDiscipline, -⟩ := hEach
  have hAnswered := hDiscipline.answered rfl
  cases hAnswered

end Cronymax.Protocol
