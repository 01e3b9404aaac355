import Cronymax.Atomic.Noninterference
import Cronymax.Extensions.Turn
import Mathlib.Logic.Function.Basic

/-! The router of agent sessions, which all extensions share.  The notifies of an extension name a
session; the router looks for its sink by that id alone. -/

namespace Cronymax.Extensions.Sessions

variable {E I : Type*} [DecidableEq E] [DecidableEq I]

/-- The bound of a turn's queue. -/
def capacity : Nat := 64

/-- Where `run_extension_turn` is. -/
inductive Phase where
  | refused
  | running
  | over
  | finished
  deriving DecidableEq

/-- A turn, with the channel of its session. -/
structure Session (I : Type*) where
  sessionId : I
  phase : Phase
  waiting : List Message
  queue : List Message
  received : List Message

namespace Session

variable (x : Session I)

/-- A notification comes to the queue. -/
def send (i : Nat) : Session I :=
  match x.waiting[i]? with
  | some message =>
    if x.phase = .finished then { x with waiting := x.waiting.eraseIdx i }
    else if x.queue.length < capacity then
      { x with waiting := x.waiting.eraseIdx i, queue := x.queue ++ [message] }
    else x
  | none => x

/-- The turn takes the next event. -/
def recv : Session I :=
  match x.phase, x.queue with
  | .running, message :: rest =>
    { x with
      queue := rest
      received := x.received ++ [message]
      phase := if message.isTurnDone then .over else .running }
  | _, _ => x

/-- The sender is gone and nothing is left. -/
def hangUp (routed : Bool) : Session I :=
  if x.phase = .running ∧ x.queue = [] ∧ x.waiting = [] ∧ routed = false then { x with phase := .over }
  else x

end Session

/-- `AgentSessionRouter` with the turns of every extension. -/
structure AgentSessionRouter (E I : Type*) where
  inner : I → Option (E × Nat)
  turns : E → List (Session I)

inductive Event (E I : Type*) where
  | register (ext : E) (sessionId : I)
  | notify (ext : E) (sessionId : I) (message : Message)
  | send (ext : E) (turn i : Nat)
  | recv (ext : E) (turn : Nat)
  | hangUp (ext : E) (turn : Nat)
  | finish (ext : E) (turn : Nat)
  | closeAllFor (ext : E)

/-- The extension that the event is about. -/
def Event.owner : Event E I → E
  | .register ext _ | .notify ext _ _ | .send ext _ _ | .recv ext _ | .hangUp ext _ | .finish ext _
  | .closeAllFor ext => ext

namespace AgentSessionRouter

variable (s : AgentSessionRouter E I)

def new : AgentSessionRouter E I := ⟨fun _ => none, fun _ => []⟩

/-- One turn changes. -/
def edit (ext : E) (turn : Nat) (f : Session I → Session I) : AgentSessionRouter E I :=
  { s with turns := Function.update s.turns ext ((s.turns ext).modify turn f) }

def begin (ext : E) (x : Session I) : AgentSessionRouter E I :=
  { s with turns := Function.update s.turns ext (s.turns ext ++ [x]) }

/-- The turn of a session begins, unless the session has one. -/
def register (ext : E) (sessionId : I) : AgentSessionRouter E I :=
  if (s.inner sessionId).isSome then s.begin ext ⟨sessionId, .refused, [], [], []⟩
  else
    { s.begin ext ⟨sessionId, .running, [], [], []⟩ with
      inner := Function.update s.inner sessionId (some (ext, (s.turns ext).length)) }

/-- `route_event` and `route_turn_done`, up to the send. -/
def route (sessionId : I) (message : Message) : AgentSessionRouter E I :=
  match s.inner sessionId with
  | some (owner, turn) => s.edit owner turn fun x => { x with waiting := x.waiting ++ [message] }
  | none => s

def unregister (sessionId : I) : AgentSessionRouter E I :=
  { s with inner := Function.update s.inner sessionId none }

/-- `close_all_for`. -/
def closeAllFor (ext : E) : AgentSessionRouter E I :=
  { s with inner := fun sessionId => (s.inner sessionId).filter (·.1 ≠ ext) }

def hangUp (ext : E) (turn : Nat) : AgentSessionRouter E I :=
  s.edit ext turn fun x => x.hangUp (s.inner x.sessionId = some (ext, turn))

def finish (ext : E) (turn : Nat) : AgentSessionRouter E I :=
  match (s.turns ext)[turn]? with
  | some x =>
    if x.phase = .over then
      (s.unregister x.sessionId).edit ext turn fun x => { x with phase := .finished }
    else s
  | none => s

def step (s : AgentSessionRouter E I) : Event E I → AgentSessionRouter E I
  | .register ext sessionId => s.register ext sessionId
  | .notify _ sessionId message => s.route sessionId message
  | .send ext turn i => s.edit ext turn (·.send i)
  | .recv ext turn => s.edit ext turn (·.recv)
  | .hangUp ext turn => s.hangUp ext turn
  | .finish ext turn => s.finish ext turn
  | .closeAllFor ext => s.closeAllFor ext

end AgentSessionRouter

end Cronymax.Extensions.Sessions

/-! Which runs keep the sessions of the extensions apart.  `Alike` relates the router to the one that an
extension would have alone; it is kept as long as no extension names a session id that stands for a
session of another one. -/

namespace Cronymax.Extensions.Sessions

open Atomic Atomic.Noninterference
open AgentSessionRouter (step)

variable {E I : Type*} [DecidableEq E]

/-- What there is of one extension. -/
def view (ext : E) (s : AgentSessionRouter E I) : List (Session I) × (I → Option (E × Nat)) :=
  (s.turns ext, fun sessionId => (s.inner sessionId).filter (·.1 = ext))

/-- If the id has a sink, then the extension owns it. -/
def Owns (s : AgentSessionRouter E I) (ext : E) (sessionId : I) : Prop :=
  ∀ sink, s.inner sessionId = some sink → sink.1 = ext

/-- The session that an event names is the extension's own. -/
def Meets (s : AgentSessionRouter E I) : Event E I → Prop
  | .register ext sessionId | .notify ext sessionId _ => Owns s ext sessionId
  | .finish ext turn => ∀ x, (s.turns ext)[turn]? = some x → x.phase = .over → Owns s ext x.sessionId
  | _ => True

/-- The sinks are those of turns. -/
def Known (s : AgentSessionRouter E I) : Prop :=
  ∀ sessionId sink, s.inner sessionId = some sink → sink.2 < (s.turns sink.1).length

/-- `t` is what `ext` would have alone. -/
structure Alike (ext : E) (s t : AgentSessionRouter E I) : Prop where
  turns : s.turns ext = t.turns ext
  inner : ∀ sessionId, (s.inner sessionId).filter (·.1 = ext) = t.inner sessionId
  known : Known s

theorem alike_new (ext : E) : Alike ext (.new : AgentSessionRouter E I) .new :=
  ⟨rfl, fun _ => rfl, fun _ _ hAt => nomatch hAt⟩

variable {s t : AgentSessionRouter E I} {ext other : E} {sessionId : I} {turn : Nat}

theorem Alike.view_eq (h : Alike ext s t) : view ext s = view ext t := by
  refine Prod.ext h.turns (funext fun sessionId => ?_)
  show (s.inner sessionId).filter _ = (t.inner sessionId).filter _
  rw [← h.inner, Option.filter_filter]
  congr 1
  funext sink
  exact (Bool.and_self _).symm

theorem known_edit (h : Known s) (f : Session I → Session I) : Known (s.edit ext turn f) := by
  intro sessionId sink hAt
  have hLt := h sessionId sink hAt
  show sink.2 < (Function.update s.turns ext _ sink.1).length
  by_cases hSame : sink.1 = ext
  · rw [hSame, Function.update_self, List.length_modify]
    exact hSame ▸ hLt
  · rw [Function.update_of_ne hSame]
    exact hLt

theorem known_begin (h : Known s) (x : Session I) : Known (s.begin ext x) := by
  intro sessionId sink hAt
  have hLt := h sessionId sink hAt
  show sink.2 < (Function.update s.turns ext _ sink.1).length
  by_cases hSame : sink.1 = ext
  · rw [hSame, Function.update_self, List.length_append]
    have hLt : sink.2 < (s.turns ext).length := hSame ▸ hLt
    omega
  · rw [Function.update_of_ne hSame]
    exact hLt

theorem Alike.edit (h : Alike ext s t) (f : Session I → Session I) :
    Alike ext (s.edit ext turn f) (t.edit ext turn f) := by
  refine ⟨?_, h.inner, known_edit h.known f⟩
  show Function.update s.turns ext _ ext = Function.update t.turns ext _ ext
  rw [Function.update_self, Function.update_self, h.turns]

theorem Alike.edit_other (h : Alike ext s t) (hNot : other ≠ ext) (f : Session I → Session I) :
    Alike ext (s.edit other turn f) t := by
  refine ⟨?_, h.inner, known_edit h.known f⟩
  show Function.update s.turns other _ ext = _
  rw [Function.update_of_ne (Ne.symm hNot)]
  exact h.turns

theorem Alike.begin (h : Alike ext s t) (x : Session I) :
    Alike ext (s.begin ext x) (t.begin ext x) := by
  refine ⟨?_, h.inner, known_begin h.known x⟩
  show Function.update s.turns ext _ ext = Function.update t.turns ext _ ext
  rw [Function.update_self, Function.update_self, h.turns]

theorem Alike.begin_other (h : Alike ext s t) (hNot : other ≠ ext) (x : Session I) :
    Alike ext (s.begin other x) t := by
  refine ⟨?_, h.inner, known_begin h.known x⟩
  show Function.update s.turns other _ ext = _
  rw [Function.update_of_ne (Ne.symm hNot)]
  exact h.turns

theorem Alike.lookup (h : Alike ext s t) (hOwns : Owns s ext sessionId) :
    s.inner sessionId = t.inner sessionId := by
  rw [← h.inner]
  cases hAt : s.inner sessionId with
  | none => rfl
  | some sink => rw [Option.filter_some_pos (by simpa using hOwns sink hAt)]

theorem Alike.closeAllFor (h : Alike ext s t) :
    Alike ext (s.closeAllFor ext) (t.closeAllFor ext) := by
  refine ⟨h.turns, fun id => ?_, fun id sink hAt => ?_⟩
  · show Option.filter _ ((s.inner id).filter _) = (t.inner id).filter _
    rw [← h.inner, Option.filter_filter, Option.filter_filter]
    congr 1
    funext sink
    exact Bool.and_comm _ _
  · exact h.known id sink (Option.filter_eq_some_iff.mp hAt).1

theorem Alike.closeAllFor_other (h : Alike ext s t) (hNot : other ≠ ext) :
    Alike ext (s.closeAllFor other) t := by
  refine ⟨h.turns, fun id => ?_, fun id sink hAt => ?_⟩
  · show Option.filter _ ((s.inner id).filter _) = _
    rw [← h.inner, Option.filter_filter]
    congr 1
    funext sink
    by_cases hOwn : sink.1 = ext
    · simp [hOwn, Ne.symm hNot]
    · simp [hOwn]
  · exact h.known id sink (Option.filter_eq_some_iff.mp hAt).1

theorem Alike.route (h : Alike ext s t) (hOwns : Owns s ext sessionId) (message : Message) :
    Alike ext (s.route sessionId message) (t.route sessionId message) := by
  have hSame := h.lookup hOwns
  unfold AgentSessionRouter.route
  rw [← hSame]
  cases hAt : s.inner sessionId with
  | none => exact h
  | some sink =>
    obtain ⟨owner, turn⟩ := sink
    obtain rfl : owner = ext := hOwns _ hAt
    exact h.edit _

theorem Alike.route_other (h : Alike ext s t) (hNot : other ≠ ext) (hOwns : Owns s other sessionId)
    (message : Message) : Alike ext (s.route sessionId message) t := by
  unfold AgentSessionRouter.route
  cases hAt : s.inner sessionId with
  | none => exact h
  | some sink =>
    obtain ⟨owner, turn⟩ := sink
    obtain rfl : owner = other := hOwns _ hAt
    exact h.edit_other hNot _

theorem Alike.routed (h : Alike ext s t) (id : I) :
    s.inner id = some (ext, turn) ↔ t.inner id = some (ext, turn) := by
  rw [← h.inner, Option.filter_eq_some_iff]
  exact ⟨fun hAt => ⟨hAt, decide_eq_true rfl⟩, fun hAt => hAt.1⟩

theorem Alike.hangUp (h : Alike ext s t) : Alike ext (s.hangUp ext turn) (t.hangUp ext turn) := by
  have hSame : (fun x : Session I => x.hangUp (s.inner x.sessionId = some (ext, turn))) =
      fun x => x.hangUp (t.inner x.sessionId = some (ext, turn)) :=
    funext fun x => congrArg x.hangUp (decide_eq_decide.mpr (h.routed x.sessionId))
  unfold AgentSessionRouter.hangUp
  rw [hSame]
  exact h.edit _

theorem route_seen (h : Alike ext s t) {turn : Nat} (hAt : s.inner sessionId = some (ext, turn))
    (message : Message) : view ext (s.route sessionId message) ≠ view ext t := by
  intro hView
  have hLt := h.known sessionId _ hAt
  unfold AgentSessionRouter.route at hView
  rw [hAt] at hView
  have hTurns : Function.update s.turns ext _ ext = t.turns ext := congrArg Prod.fst hView
  rw [Function.update_self, ← h.turns] at hTurns
  have hTurn := congrArg (·[turn]?) hTurns
  simp only [List.getElem?_modify_eq, List.getElem?_eq_getElem hLt] at hTurn
  have hWaiting := congrArg (fun x => x.waiting.length) (Option.some.inj hTurn)
  have hMore : ((s.turns ext)[turn].waiting ++ [message]).length =
    (s.turns ext)[turn].waiting.length := hWaiting
  rw [List.length_append] at hMore
  exact absurd hMore (Nat.ne_of_gt (Nat.lt_succ_self _))

variable [DecidableEq I]

theorem Alike.unregister (h : Alike ext s t) (sessionId : I) :
    Alike ext (s.unregister sessionId) (t.unregister sessionId) := by
  refine ⟨h.turns, fun id => ?_, fun id sink hAt => ?_⟩
  · show Option.filter _ (Function.update s.inner sessionId none id) =
      Function.update t.inner sessionId none id
    by_cases hSame : id = sessionId
    · subst hSame
      rw [Function.update_self, Function.update_self]
      rfl
    · rw [Function.update_of_ne hSame, Function.update_of_ne hSame]
      exact h.inner id
  · have hAt : Function.update s.inner sessionId none id = some sink := hAt
    by_cases hSame : id = sessionId
    · rw [hSame, Function.update_self] at hAt
      cases hAt
    · rw [Function.update_of_ne hSame] at hAt
      exact h.known id sink hAt

theorem Alike.unregister_other (h : Alike ext s t) (hNot : other ≠ ext)
    (hOwns : Owns s other sessionId) : Alike ext (s.unregister sessionId) t := by
  refine ⟨h.turns, fun id => ?_, (h.unregister sessionId).known⟩
  show Option.filter _ (Function.update s.inner sessionId none id) = _
  by_cases hSame : id = sessionId
  · subst hSame
    rw [Function.update_self, ← h.inner]
    cases hAt : s.inner id with
    | none => rfl
    | some sink =>
      rw [Option.filter_some_neg (by simpa using fun hOwn => hNot ((hOwns sink hAt).symm.trans hOwn))]
      rfl
  · rw [Function.update_of_ne hSame]
    exact h.inner id

/-- The router after `register`, where the id is free. -/
theorem register_free (hFree : s.inner sessionId = none) :
    s.register ext sessionId =
      { s.begin ext ⟨sessionId, .running, [], [], []⟩ with
        inner := Function.update s.inner sessionId (some (ext, (s.turns ext).length)) } := by
  unfold AgentSessionRouter.register
  rw [hFree]
  rfl

theorem register_taken {sink : E × Nat} (hAt : s.inner sessionId = some sink) :
    s.register ext sessionId = s.begin ext ⟨sessionId, .refused, [], [], []⟩ := by
  unfold AgentSessionRouter.register
  rw [hAt]
  rfl

theorem known_register (h : Known s) (ext : E) (sessionId : I) :
    Known (s.register ext sessionId) := by
  cases hAt : s.inner sessionId with
  | some sink =>
    rw [register_taken hAt]
    exact known_begin h _
  | none =>
    rw [register_free hAt]
    intro id sink hSink
    have hSink : Function.update s.inner sessionId _ id = some sink := hSink
    by_cases hSame : id = sessionId
    · rw [hSame, Function.update_self] at hSink
      obtain rfl := Option.some.inj hSink
      show (s.turns ext).length < (Function.update s.turns ext _ ext).length
      rw [Function.update_self, List.length_append]
      exact Nat.lt_succ_self _
    · rw [Function.update_of_ne hSame] at hSink
      exact known_begin h _ id sink hSink

theorem Alike.register (h : Alike ext s t) (hOwns : Owns s ext sessionId) :
    Alike ext (s.register ext sessionId) (t.register ext sessionId) := by
  have hSame := h.lookup hOwns
  cases hAt : s.inner sessionId with
  | some sink =>
    rw [register_taken hAt, register_taken (hSame ▸ hAt)]
    exact h.begin _
  | none =>
    have hKnown := known_register h.known ext sessionId
    rw [register_free hAt] at hKnown ⊢
    rw [register_free (hSame ▸ hAt)]
    refine ⟨(h.begin _).turns, fun id => ?_, hKnown⟩
    show Option.filter _ (Function.update s.inner sessionId _ id) =
      Function.update t.inner sessionId _ id
    by_cases hId : id = sessionId
    · subst hId
      rw [Function.update_self, Function.update_self, ← h.turns]
      exact Option.filter_some_pos (by simp)
    · rw [Function.update_of_ne hId, Function.update_of_ne hId]
      exact h.inner id

theorem Alike.register_other (h : Alike ext s t) (hNot : other ≠ ext) :
    Alike ext (s.register other sessionId) t := by
  cases hAt : s.inner sessionId with
  | some sink =>
    rw [register_taken hAt]
    exact h.begin_other hNot _
  | none =>
    have hKnown := known_register h.known other sessionId
    rw [register_free hAt] at hKnown ⊢
    refine ⟨(h.begin_other hNot ⟨sessionId, .running, [], [], []⟩).turns, fun id => ?_, hKnown⟩
    show Option.filter _ (Function.update s.inner sessionId _ id) = _
    by_cases hId : id = sessionId
    · subst hId
      rw [Function.update_self, ← h.inner, hAt]
      exact Option.filter_some_neg (by simpa using hNot)
    · rw [Function.update_of_ne hId]
      exact h.inner id

theorem Alike.finish (h : Alike ext s t) :
    Alike ext (s.finish ext turn) (t.finish ext turn) := by
  unfold AgentSessionRouter.finish
  rw [← h.turns]
  cases hAt : (s.turns ext)[turn]? with
  | none => exact h
  | some x =>
    show Alike ext (if x.phase = .over then _ else s) (if x.phase = .over then _ else t)
    split
    · exact (h.unregister x.sessionId).edit _
    · exact h

theorem Alike.finish_other (h : Alike ext s t) (hNot : other ≠ ext)
    (hMeets : Meets s (.finish other turn)) : Alike ext (s.finish other turn) t := by
  unfold AgentSessionRouter.finish
  cases hAt : (s.turns other)[turn]? with
  | none => exact h
  | some x =>
    show Alike ext (if x.phase = .over then _ else s) t
    split
    · rename_i hOver
      exact (h.unregister_other hNot (hMeets x hAt hOver)).edit_other hNot _
    · exact h

theorem alike_mine (s t : AgentSessionRouter E I) (e : Event E I) (h : Alike e.owner s t)
    (hMeets : Meets s e) : Alike e.owner (step s e) (step t e) := by
  cases e with
  | register ext sessionId => exact h.register hMeets
  | notify ext sessionId message => exact h.route hMeets message
  | send ext turn i => exact h.edit _
  | recv ext turn => exact h.edit _
  | hangUp ext turn => exact h.hangUp
  | finish ext turn => exact h.finish
  | closeAllFor ext => exact h.closeAllFor

theorem alike_other (ext : E) (s t : AgentSessionRouter E I) (e : Event E I) (hNot : e.owner ≠ ext)
    (h : Alike ext s t) (hMeets : Meets s e) : Alike ext (step s e) t := by
  cases e with
  | register other sessionId => exact h.register_other hNot
  | notify other sessionId message => exact h.route_other hNot hMeets message
  | send other turn i => exact h.edit_other hNot _
  | recv other turn => exact h.edit_other hNot _
  | hangUp other turn => exact h.edit_other hNot _
  | finish other turn => exact h.finish_other hNot hMeets
  | closeAllFor other => exact h.closeAllFor_other hNot

/-- The sink of another extension stops `register`. -/
theorem register_seen (h : Alike ext s t) {sink : E × Nat} (hAt : s.inner sessionId = some sink)
    (hView : view ext (s.register ext sessionId) = view ext (t.register ext sessionId)) :
    sink.1 = ext := by
  by_contra hNot
  have hFree : t.inner sessionId = none := by
    rw [← h.inner, hAt]
    exact Option.filter_some_neg (by simpa using hNot)
  rw [register_taken hAt, register_free hFree] at hView
  have hTurns : Function.update s.turns ext _ ext = Function.update t.turns ext _ ext :=
    congrArg Prod.fst hView
  rw [Function.update_self, Function.update_self, h.turns] at hTurns
  have hLast := List.singleton_inj.mp (List.append_cancel_left hTurns)
  exact absurd (congrArg Session.phase hLast) Phase.noConfusion

theorem finish_seen (h : Alike ext s t) {x : Session I} (hTurn : (s.turns other)[turn]? = some x)
    (hOver : x.phase = .over) {k : Nat} (hAt : s.inner x.sessionId = some (ext, k)) :
    view ext (s.finish other turn) ≠ view ext t := by
  intro hView
  unfold AgentSessionRouter.finish at hView
  rw [hTurn] at hView
  have hInner : view ext (if x.phase = .over then _ else s) = view ext t := hView
  rw [if_pos hOver] at hInner
  have hNone : Option.filter _ (Function.update s.inner x.sessionId none x.sessionId) =
      Option.filter _ (t.inner x.sessionId) := congrFun (congrArg Prod.snd hInner) x.sessionId
  rw [Function.update_self, (h.routed x.sessionId).mp hAt, Option.filter_some_pos (by simp)] at hNone
  cases hNone

theorem seen (s : AgentSessionRouter E I) (e : Event E I) (t : E → AgentSessionRouter E I)
    (h : ∀ ext, Alike ext s (t ext))
    (hView : ∀ ext, view ext (step s e) = view ext (follow step Event.owner ext (t ext) e)) :
    Meets s e := by
  cases e with
  | register ext sessionId =>
    intro sink hAt
    have hIs : (Event.register ext sessionId).owner = ext := rfl
    have hOwn := hView ext
    rw [follow_own hIs] at hOwn
    exact register_seen (h ext) hAt hOwn
  | notify ext sessionId message =>
    intro sink hAt
    by_contra hNot
    have hOther := hView sink.1
    rw [follow_other (Ne.symm hNot)] at hOther
    exact route_seen (h sink.1) hAt message hOther
  | finish ext turn =>
    intro x hTurn hOver sink hAt
    by_contra hNot
    have hOther := hView sink.1
    rw [follow_other (Ne.symm hNot)] at hOther
    exact finish_seen (h sink.1) hTurn hOver hAt hOther
  | send | recv | hangUp | closeAllFor => trivial

/-- In every run no extension is disturbed, exactly if every step meets the condition. -/
theorem sessions_apart_iff (es : List (Event E I)) :
    Undisturbed step Event.owner view .new es ↔ History.Each step Meets .new es :=
  undisturbed_iff Alike (fun _ _ _ h => h.view_eq) alike_mine alike_other seen alike_new es

/-- One extension ends a turn of another by its session id. -/
theorem turn_ended_by_other :
    ¬Undisturbed step Event.owner view (.new : AgentSessionRouter Nat Nat)
      [.register 0 7, .notify 1 7 .turnDone] := by
  intro hAlike
  have hView := congrArg Prod.fst (hAlike [.register 0 7, .notify 1 7 .turnDone] [] rfl 0)
  have hWaiting := congrArg (List.map fun x : Session Nat => x.waiting.length) hView
  exact absurd hWaiting (by decide)

end Cronymax.Extensions.Sessions
