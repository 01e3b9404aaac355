import Cronymax.Extensions.Turn

/-! A turn whose messages are sent in the order of their frames arrives whole.  `Sequential` is the
invariant: what is in the channel and what the loop has taken are the messages of the first tasks,
and these are the tasks that have delivered theirs. -/

namespace Cronymax.Extensions

open Atomic

/-- The messages of a turn with these events. -/
def sentBy (events : List AgentSessionEvent) : List Message := events.map .event ++ [.turnDone]

def Step.frames : Step → List Message
  | .frame message => [message]
  | _ => []

/-- The messages that come in. -/
def framesOf (steps : List Step) : List Message := steps.flatMap Step.frames

def AgentSessionEvent.textChunk : AgentSessionEvent → Option String
  | .text chunk => some chunk
  | _ => none

def AgentSessionEvent.announces : AgentSessionEvent → Option RunOutcome
  | .done stopReason errorMessage =>
    if stopReason = "error" then some (.failed (errorMessage.getD "extension reported error"))
    else some .succeeded
  | _ => none

/-- The text of a turn. -/
def replyOf (events : List AgentSessionEvent) : String :=
  events.foldl (fun reply ev => reply ++ (ev.textChunk.getD "")) ""

/-- The end that the events tell. -/
def announcedBy (events : List AgentSessionEvent) : Option RunOutcome :=
  (events.filterMap (·.announces)).getLast?

namespace Turn

theorem handle_assistantText (t : Turn) (ev : AgentSessionEvent) :
    (t.handle ev).assistantText = t.assistantText ++ ev.textChunk.getD "" := by
  cases ev with
  | done stopReason errorMessage =>
    simp only [handle, observe, translateEvent, AgentSessionEvent.textChunk]
    by_cases h : stopReason = "error" <;> simp [h]
  | _ => simp [handle, observe, translateEvent, emit, AgentSessionEvent.textChunk]

theorem handle_finalStatus (t : Turn) (ev : AgentSessionEvent) :
    (t.handle ev).finalStatus = ev.announces.or t.finalStatus := by
  cases ev with
  | done stopReason errorMessage =>
    simp only [handle, observe, translateEvent, AgentSessionEvent.announces]
    by_cases h : stopReason = "error" <;> simp [h]
  | _ => simp [handle, observe, translateEvent, emit, AgentSessionEvent.announces]

theorem foldl_assistantText (events : List AgentSessionEvent) (t : Turn) :
    (events.foldl handle t).assistantText =
      events.foldl (fun reply ev => reply ++ (ev.textChunk.getD "")) t.assistantText := by
  induction events generalizing t with
  | nil => rfl
  | cons ev events ih => rw [List.foldl_cons, ih, handle_assistantText, List.foldl_cons]

theorem foldl_finalStatus (events : List AgentSessionEvent) (t : Turn) :
    (events.foldl handle t).finalStatus = (announcedBy events).or t.finalStatus := by
  induction events generalizing t with
  | nil => rfl
  | cons ev events ih =>
    rw [List.foldl_cons, ih, handle_finalStatus, announcedBy, announcedBy, ← Option.or_assoc]
    congr 1
    cases hFirst : ev.announces with
    | none => simp [hFirst]
    | some o =>
      rw [List.filterMap_cons_some hFirst, List.getLast?_cons]
      cases (events.filterMap (·.announces)).getLast? <;> rfl

theorem take_all (events : List AgentSessionEvent) :
    (sentBy events).foldl take start = events.foldl handle start := by
  rw [sentBy, List.foldl_append, List.foldl_map]
  rfl

end Turn

namespace Exchange

/-- What the turn has received and what lies in its channel. -/
@[grind =] def log (x : Exchange) : List Message := x.received ++ x.channel

@[grind =] def messages (x : Exchange) : List Message := x.tasks.map (·.message)

/-- The turn is delivered: the loop takes the messages of the host in their order; when it is over, it
has taken all of them, so that the reply is the text of all chunks and the outcome the one that the
last `done` event announces; and no message is lost on the way. -/
structure Whole (events : List AgentSessionEvent) (x : Exchange) : Prop where
  inOrder : x.received <+: sentBy events
  taken : x.ended → x.received = sentBy events
  reply : x.ended → ∀ prompt, (x.turn.result prompt).assistantText = replyOf events
  document : x.ended → ∀ prompt ports port text,
    (x.turn.result prompt).document ports = some (port, text) → text = replyOf events
  outcome : x.ended → ∀ prompt o, announcedBy events = some o → (x.turn.result prompt).outcome = o
  nothingLost : (∀ t ∈ x.tasks, t.stage = .delivered ∨ t.stage = .dropped) → x.log = x.messages

/-- A message is looked up and sent only where those before it are. -/
def InOrder (x : Exchange) : Step → Prop
  | .lookup i => ∀ message, x.tasks[i]? = some ⟨message, .spawned⟩ → x.registered
  | .send i => ∀ message, x.tasks[i]? = some ⟨message, .sending⟩ →
    x.messages[x.log.length]? = some message
  | _ => True

def deliveries (x : Exchange) : Nat := x.tasks.countP (·.stage = .delivered)

/-- The messages come in the order of the events. -/
structure Sequential (events : List AgentSessionEvent) (x : Exchange) : Prop where
  frames : x.messages <+: sentBy events
  logged : x.log <+: x.messages
  count : x.deliveries = x.log.length
  kept : ∀ t ∈ x.tasks, t.stage ≠ .dropped
  turn_eq : x.turn = x.received.foldl Turn.take .start
  ended : x.ended → ∃ before, x.received = before ++ [.turnDone]
  listening : x.listening = false → x.ended

theorem idle_sequential (events : List AgentSessionEvent) : idle.Sequential events where
  frames := List.nil_prefix
  logged := List.nil_prefix
  count := rfl
  kept _ h := by cases h
  turn_eq := rfl
  ended h := by cases h
  listening h := by cases h

variable {events : List AgentSessionEvent} {x : Exchange} {i : Nat} {message : Message}

/-- `TurnDone` is the last message of the host. -/
theorem prefix_to_turnDone {before : List Message} (h : before ++ [.turnDone] <+: sentBy events) :
    before ++ [.turnDone] = sentBy events := by
  rcases List.prefix_concat_iff.mp h with hEq | hPart
  · exact hEq
  · have hMem : Message.turnDone ∈ events.map Message.event :=
      hPart.subset (List.mem_append_right _ List.mem_cons_self)
    obtain ⟨ev, -, hEvent⟩ := List.mem_map.mp hMem
    cases hEvent

theorem Sequential.taken (h : x.Sequential events) (hEnded : x.ended) : x.received = sentBy events := by
  obtain ⟨before, hReceived⟩ := h.ended hEnded
  have hPart : x.received <+: sentBy events :=
    ((List.prefix_append _ _).trans h.logged).trans h.frames
  rw [hReceived] at hPart ⊢
  exact prefix_to_turnDone hPart

theorem Sequential.all_delivered (h : x.Sequential events) (hEnded : x.ended) :
    ∀ t ∈ x.tasks, t.stage = .delivered := by
  have hLength : x.tasks.length ≤ x.deliveries := by
    have hTasks := h.frames.length_le
    rw [← h.taken hEnded, messages, List.length_map] at hTasks
    rw [h.count, log, List.length_append]
    omega
  have hAll := List.countP_eq_length.mp (Nat.le_antisymm List.countP_le_length hLength)
  exact fun t ht => by simpa using hAll t ht

theorem Sequential.whole (h : x.Sequential events) : x.Whole events := by
  have hTurn : x.ended → x.turn = events.foldl Turn.handle .start := by
    intro hEnded
    rw [h.turn_eq, h.taken hEnded, Turn.take_all]
  have hReply : x.ended → ∀ prompt, (x.turn.result prompt).assistantText = replyOf events := by
    intro hEnded prompt
    show x.turn.assistantText = _
    rw [hTurn hEnded, Turn.foldl_assistantText]
    rfl
  refine ⟨((List.prefix_append _ _).trans h.logged).trans h.frames, h.taken, hReply, ?_, ?_, ?_⟩
  · intro hEnded prompt ports port text hDocument
    rw [← hReply hEnded prompt]
    unfold TurnResult.document at hDocument
    split at hDocument
    · obtain ⟨port', -, hPair⟩ := Option.map_eq_some_iff.mp hDocument
      exact (Prod.mk.inj hPair).2.symm
    · cases hDocument
  · intro hEnded prompt o hAnnounced
    show x.turn.finalStatus.getD prompt.outcome = o
    rw [hTurn hEnded, Turn.foldl_finalStatus, hAnnounced]
    rfl
  · intro hAll
    have hDelivered : ∀ t ∈ x.tasks, decide (t.stage = .delivered) = true := by
      intro t ht
      exact decide_eq_true ((hAll t ht).resolve_right (h.kept t ht))
    refine h.logged.eq_of_length ?_
    rw [← h.count, messages, List.length_map]
    exact List.countP_eq_length.mpr hDelivered

theorem messages_setTask {stage : Stage} (hTask : x.tasks[i]? = some ⟨message, stage⟩)
    (stage' : Stage) : (x.setTask i ⟨message, stage'⟩).messages = x.messages := by
  obtain ⟨hi, hGet⟩ := List.getElem?_eq_some_iff.mp hTask
  have hBound : i < (x.tasks.map (·.message)).length := by simpa using hi
  have hMessage : message = (x.tasks.map (·.message))[i] := by simp [hGet]
  show (x.tasks.set i _).map _ = _
  rw [List.map_set, hMessage]
  exact List.set_getElem_self _

theorem mem_setTask {t t' : Task} (h : t' ∈ (x.setTask i t).tasks) : t' = t ∨ t' ∈ x.tasks :=
  (List.mem_or_eq_of_mem_set h).symm

theorem deliveries_setTask {stage : Stage} (hTask : x.tasks[i]? = some ⟨message, stage⟩)
    (hStage : stage ≠ .delivered) (stage' : Stage) :
    (x.setTask i ⟨message, stage'⟩).deliveries =
      x.deliveries + if stage' = .delivered then 1 else 0 := by
  obtain ⟨hi, hGet⟩ := List.getElem?_eq_some_iff.mp hTask
  show (x.tasks.set i _).countP _ = _
  rw [List.countP_set hi, hGet]
  simp [hStage, deliveries]

theorem Sequential.lookup (h : x.Sequential events)
    (hTask : x.tasks[i]? = some ⟨message, .spawned⟩) :
    (x.setTask i ⟨message, .sending⟩).Sequential events where
  frames := by
    rw [messages_setTask hTask]
    exact h.frames
  logged := by
    rw [messages_setTask hTask]
    exact h.logged
  count := by
    rw [deliveries_setTask hTask (by simp)]
    exact h.count
  kept t ht := by
    rcases mem_setTask ht with rfl | ht
    · simp
    · exact h.kept t ht
  turn_eq := h.turn_eq
  ended := h.ended
  listening := h.listening

theorem Sequential.send (h : x.Sequential events) (hTask : x.tasks[i]? = some ⟨message, .sending⟩)
    (hDue : x.messages[x.log.length]? = some message) :
    ({ x with channel := x.channel ++ [message] }.setTask i ⟨message, .delivered⟩).Sequential
      events where
  frames := by
    rw [messages_setTask (x := { x with channel := x.channel ++ [_] }) hTask]
    exact h.frames
  logged := by
    rw [messages_setTask (x := { x with channel := x.channel ++ [_] }) hTask]
    show x.received ++ (x.channel ++ [message]) <+: x.messages
    obtain ⟨rest, hRest⟩ := h.logged
    rw [← hRest, List.getElem?_append_right (Nat.le_refl _), Nat.sub_self] at hDue
    cases rest with
    | nil => cases hDue
    | cons first rest =>
      cases hDue
      refine ⟨rest, ?_⟩
      rw [← hRest, log]
      simp
  count := by
    rw [deliveries_setTask (x := { x with channel := x.channel ++ [_] }) hTask (by simp)]
    show x.deliveries + 1 = (x.received ++ (x.channel ++ [message])).length
    rw [h.count, log]
    simp only [List.length_append, List.length_singleton]
    omega
  kept t ht := by
    rcases mem_setTask ht with rfl | ht
    · simp
    · exact h.kept t ht
  turn_eq := h.turn_eq
  ended := h.ended
  listening := h.listening

theorem Sequential.frame (h : x.Sequential events) (hFrames : x.messages ++ [message] <+: sentBy events) :
    ({ x with tasks := x.tasks ++ [⟨message, .spawned⟩] } : Exchange).Sequential events where
  frames := by simpa [messages] using hFrames
  logged := by
    refine h.logged.trans ?_
    simp [messages]
  count := by
    have hCount := h.count
    simpa [deliveries, List.countP_append, log] using hCount
  kept t ht := by
    rcases List.mem_append.mp ht with ht | ht
    · exact h.kept t ht
    · rw [List.mem_singleton.mp ht]
      simp
  turn_eq := h.turn_eq
  ended := h.ended
  listening := h.listening

theorem Sequential.recv (h : x.Sequential events) {rest : List Message} (hEnded : x.ended = false)
    (hChannel : x.channel = message :: rest) : (x.step .recv).Sequential events := by
  have hStep : x.step .recv = { x with
      channel := rest
      received := x.received ++ [message]
      turn := x.turn.take message
      ended := message.isTurnDone } := by
    simp only [step, hEnded, hChannel]
  have hLog : (x.step .recv).log = x.log := by
    rw [hStep, log, log, hChannel]
    simp
  refine ⟨?_, ?_, ?_, ?_, ?_, ?_, ?_⟩
  · rw [hStep]
    exact h.frames
  · rw [hLog, hStep]
    exact h.logged
  · rw [hLog, hStep]
    exact h.count
  · rw [hStep]
    exact h.kept
  · rw [hStep]
    show x.turn.take message = (x.received ++ [message]).foldl Turn.take .start
    rw [List.foldl_append, ← h.turn_eq]
    rfl
  · rw [hStep]
    intro hNow
    cases message with
    | event ev => cases hNow
    | turnDone => exact ⟨x.received, rfl⟩
  · intro hListening
    rw [hStep] at hListening
    have hBefore := h.listening hListening
    rw [hEnded] at hBefore
    cases hBefore

theorem messages_step (e : Step) : (x.step e).messages = x.messages ++ e.frames := by
  cases e with
  | frame message => simp [step, messages, Step.frames]
  | lookup i =>
    refine Eq.trans ?_ (List.append_nil _).symm
    dsimp only [step]
    split
    · exact messages_setTask (by assumption) _
    · rfl
  | send i =>
    refine Eq.trans ?_ (List.append_nil _).symm
    dsimp only [step]
    split
    · split
      · split
        · exact messages_setTask (x := { x with channel := x.channel ++ [_] }) (by assumption) _
        · rfl
      · exact messages_setTask (by assumption) _
    · rfl
  | recv =>
    refine Eq.trans ?_ (List.append_nil _).symm
    dsimp only [step]
    split <;> rfl
  | unregister =>
    refine Eq.trans ?_ (List.append_nil _).symm
    dsimp only [step]
    split <;> rfl
  | leave =>
    refine Eq.trans ?_ (List.append_nil _).symm
    dsimp only [step]
    split <;> rfl
  | register => simp [step, messages, Step.frames]

theorem Sequential.step (h : x.Sequential events) {e : Step} (hOrder : x.InOrder e)
    (hFrames : x.messages ++ e.frames <+: sentBy events) : (x.step e).Sequential events := by
  cases e with
  | register => exact { h with }
  | frame message => exact h.frame hFrames
  | lookup i =>
    dsimp only [Exchange.step]
    split
    · rename_i message hTask
      rw [if_pos (hOrder message hTask)]
      exact h.lookup hTask
    · exact h
  | send i =>
    dsimp only [Exchange.step]
    split
    · rename_i message hTask
      split
      · split
        · exact h.send hTask (hOrder message hTask)
        · exact h
      · -- the receiver goes only when every task has delivered its message
        rename_i hListening
        have hEnded := h.listening (by simpa using hListening)
        have hStage := h.all_delivered hEnded _ (List.mem_of_getElem? hTask)
        cases hStage
    · exact h
  | recv =>
    cases hEnded : x.ended with
    | true =>
      have hSame : x.step .recv = x := by simp only [Exchange.step, hEnded]
      rw [hSame]
      exact h
    | false =>
      cases hChannel : x.channel with
      | nil =>
        have hSame : x.step .recv = x := by simp only [Exchange.step, hEnded, hChannel]
        rw [hSame]
        exact h
      | cons message rest => exact h.recv hEnded hChannel
  | unregister =>
    dsimp only [Exchange.step]
    split
    · exact { h with }
    · exact h
  | leave =>
    dsimp only [Exchange.step]
    split
    · rename_i hLeave
      exact { h with listening := fun _ => hLeave.1 }
    · exact h

/-- What the host sends in a turn is delivered whole and in order, in every run in which the handler
tasks keep the order of their frames. -/
theorem whole_of_inOrder (events : List AgentSessionEvent) (steps : List Step)
    (hSent : framesOf steps <+: sentBy events)
    (hOrder : History.Each Exchange.step InOrder idle steps) :
    (History.play Exchange.step idle steps).Whole events := by
  suffices hRun : ∀ (rest : List Step) (x : Exchange), x.Sequential events →
      x.messages ++ framesOf rest <+: sentBy events → History.Each Exchange.step InOrder x rest →
      (History.play Exchange.step x rest).Sequential events from
    (hRun steps idle (idle_sequential events) hSent hOrder).whole
  intro rest
  induction rest with
  | nil => exact fun x h _ _ => h
  | cons e rest ih =>
    rintro x h hFrames ⟨hFirst, hRest⟩
    rw [framesOf, List.flatMap_cons, ← List.append_assoc] at hFrames
    have hNext := h.step hFirst ((List.prefix_append _ _).trans hFrames)
    exact ih (x.step e) hNext (by rw [messages_step]; exact hFrames) hRest

def greeting : List Step :=
  [.register, .frame (.event (.text "hello")), .frame .turnDone, .lookup 0, .send 0, .recv,
    .lookup 1, .send 1, .recv]

/-- A text and the end of the turn, each received before the next is sent. -/
theorem greeting_whole :
    (History.play Exchange.step idle greeting).Whole [.text "hello"] := by
  refine whole_of_inOrder [.text "hello"] greeting List.prefix_rfl
    ⟨trivial, trivial, trivial, fun _ _ => rfl, fun message hTask => ?_, trivial, fun _ _ => rfl,
      fun message hTask => ?_, trivial, trivial⟩
  · cases hTask
    rfl
  · cases hTask
    rfl

def overtaken : List Step :=
  [.register, .frame (.event (.text "hello")), .frame .turnDone, .lookup 0, .lookup 1, .send 1,
    .recv, .send 0]

/-- The end of the turn overtakes its text, which is lost though the turn succeeds. -/
theorem overtaken_loses :
    ¬(History.play Exchange.step idle overtaken).Whole [.text "hello"] ∧
      (History.play Exchange.step idle overtaken).turn.result .ok = ⟨.succeeded, ""⟩ := by
  refine ⟨fun h => ?_, rfl⟩
  have hReply := h.reply rfl .ok
  revert hReply
  decide

end Exchange

end Cronymax.Extensions
