import Cronymax.Atomic.History

/-! The capability calls to the host.  A call registers its waiter before it has found a way to send, and
only a reply and the timeout take the waiter away. -/

namespace Cronymax.Handler

variable {R : Type*}

namespace Capabilities

def noSink : String := "call_capability: no active transport sink"

def sinkClosed : String := "call_capability: transport sink closed"

def timedOut : String :=
  "call_capability: timed out after 120s waiting for C++ capability reply"

/-- Where a call of `call_capability` is. -/
inductive Phase (R : Type*) where
  | inserted
  | sending (session : Nat)
  | waiting (session : Nat)
  | expired
  | returned (result : Except String R)

/-- A call of `call_capability`. -/
structure Call (R : Type*) where
  phase : Phase R
  response : Option R

/-- The sink, the waiters and the calls. -/
structure RuntimeHandler (R : Type*) where
  sink : Option Nat
  sessions : Nat
  ended : Nat
  calls : List (Call R)
  /-- The keys of `pending_capabilities`. -/
  pending : List Nat
  replied : List (Nat × R)

/-- The steps of a call after the first one. -/
inductive Advance where
  | lookup
  | send (ok : Bool)
  | receive
  | elapse
  | remove
deriving DecidableEq

inductive Event (R : Type*) where
  | call
  | advance (id : Nat) (a : Advance)
  | reply (id : Nat) (response : R)
  | connect
  | disconnect

/-- The call has returned. -/
def Call.Returned (call : Call R) : Prop := ∃ result, call.phase = .returned result

/-- The receiver of the call is there. -/
def Call.Listens (call : Call R) : Prop :=
  match call.phase with
  | .inserted | .sending _ | .waiting _ => True
  | .expired | .returned _ => False

instance (call : Call R) : Decidable call.Listens := by
  unfold Call.Listens
  split <;> infer_instance

namespace Call

variable (sink : Option Nat) (call : Call R)

/-- The call takes the sink that is there. -/
def lookup : Option (Call R) :=
  match call.phase, sink with
  | .inserted, none => some { call with phase := .returned (.error noSink) }
  | .inserted, some session => some { call with phase := .sending session }
  | _, _ => none

/-- The call sends its request. -/
def send (ok : Bool) : Option (Call R) :=
  match call.phase with
  | .sending session =>
    if ok then some { call with phase := .waiting session }
    else some { call with phase := .returned (.error sinkClosed) }
  | _ => none

/-- The answer has come. -/
def receive : Option (Call R) :=
  match call.phase, call.response with
  | .waiting _, some response => some { call with phase := .returned (.ok response) }
  | _, _ => none

/-- The time is over. -/
def elapse : Option (Call R) :=
  match call.phase, call.response with
  | .waiting _, none => some { call with phase := .expired }
  | _, _ => none

/-- A call whose time is over removes its waiter. -/
def remove : Option (Call R) :=
  match call.phase with
  | .expired => some { call with phase := .returned (.error timedOut) }
  | _ => none

def advance : Advance → Option (Call R)
  | .lookup => call.lookup sink
  | .send ok => call.send ok
  | .receive => call.receive
  | .elapse => call.elapse
  | .remove => call.remove

end Call

def Call.deliver (call : Call R) (response : R) : Call R :=
  if call.Listens then { call with response := some response } else call

namespace RuntimeHandler

variable (s : RuntimeHandler R)

def new : RuntimeHandler R := ⟨none, 0, 0, [], [], []⟩

def call : RuntimeHandler R :=
  { s with
    calls := s.calls ++ [⟨.inserted, none⟩]
    pending := s.pending ++ [s.calls.length] }

def advance (id : Nat) (a : Advance) : RuntimeHandler R :=
  match (s.calls[id]?).bind (Call.advance s.sink · a) with
  | some call =>
    { s with
      calls := s.calls.set id call
      pending := if a = .remove then s.pending.filter (· ≠ id) else s.pending }
  | none => s

/-- `handle_capability_reply`. -/
def handleCapabilityReply (id : Nat) (response : R) : RuntimeHandler R :=
  if id ∈ s.pending then
    { s with
      pending := s.pending.filter (· ≠ id)
      calls := s.calls.modify id (Call.deliver · response)
      replied := s.replied ++ [(id, response)] }
  else { s with replied := s.replied ++ [(id, response)] }

/-- `on_connected`. -/
def onConnected : RuntimeHandler R := { s with sessions := s.sessions + 1, sink := some (s.sessions + 1) }

/-- `on_disconnected`: the waiters stay. -/
def onDisconnected : RuntimeHandler R := { s with sink := none, ended := s.sessions }

def step (s : RuntimeHandler R) : Event R → RuntimeHandler R
  | .call => s.call
  | .advance id a => s.advance id a
  | .reply id response => s.handleCapabilityReply id response
  | .connect => s.onConnected
  | .disconnect => s.onDisconnected

end RuntimeHandler

end Capabilities

end Cronymax.Handler

/-! Which runs leave the capability calls settled: every call that returns takes its waiter with it, and
no call waits for a session that has ended. -/

namespace Cronymax.Handler.Capabilities

open Atomic
open RuntimeHandler (step)

variable {R : Type*}

/-- What holds of the calls after every step. -/
structure Settled (s : RuntimeHandler R) : Prop where
  own : ∀ (id : Nat) (call : Call R) response, s.calls[id]? = some call → call.phase = .returned (.ok response) →
    (id, response) ∈ s.replied
  clean : ∀ id ∈ s.pending, ∃ call, s.calls[id]? = some call ∧ ¬call.Returned
  free : ∀ (id : Nat) (call : Call R) session, s.calls[id]? = some call → call.phase = .waiting session →
    call.response = none → s.ended < session
  ends : ∀ id < s.calls.length, ∀ ok, ∃ call, call.Returned ∧
    (History.play step s [.advance id .lookup, .advance id (.send ok), .advance id .receive,
      .advance id .elapse, .advance id .remove]).calls[id]? = some call

/-- What is asked of a step, besides. -/
structure Kept (s : RuntimeHandler R) (e : Event R) : Prop where
  once : ∀ (id : Nat) (call : Call R), s.calls[id]? = some call → call.Returned → (step s e).calls[id]? = some call
  idle : ∀ id response, e = .reply id response →
    (∀ call, s.calls[id]? = some call → call.Returned) →
    step s e = { s with replied := s.replied ++ [(id, response)] }

/-- A registered call finds a sink, sends in a session that goes on, and does not wait when its session
ends. -/
def Meets (s : RuntimeHandler R) : Event R → Prop
  | .advance id .lookup => ∀ call : Call R, s.calls[id]? = some call → call.phase = .inserted →
    id ∈ s.pending → s.sink ≠ none
  | .advance id (.send ok) => ∀ (call : Call R) session, s.calls[id]? = some call →
    call.phase = .sending session → id ∈ s.pending → ok = true ∧ s.ended < session
  | .disconnect => ∀ (id : Nat) (call : Call R) session, s.calls[id]? = some call → call.phase = .waiting session →
    id ∉ s.pending
  | _ => True

/-- What holds of a call and its waiter. -/
structure Fits (s : RuntimeHandler R) (id : Nat) (call : Call R) : Prop where
  waits : call.Listens → (id ∈ s.pending ↔ call.response = none)
  gone : call.Returned → id ∉ s.pending
  own : ∀ response, call.response = some response → (id, response) ∈ s.replied
  result : ∀ response, call.phase = .returned (.ok response) → (id, response) ∈ s.replied
  free : ∀ session, call.phase = .waiting session → call.response = none → s.ended < session
  begun : ∀ session, call.phase = .sending session ∨ call.phase = .waiting session →
    session ≤ s.sessions

/-- Every call fits its phase, and whoever waits is registered. -/
structure Sound (s : RuntimeHandler R) : Prop where
  fits : ∀ (id : Nat) (call : Call R), s.calls[id]? = some call → Fits s id call
  known : ∀ id ∈ s.pending, id < s.calls.length
  begun : ∀ session, s.sink = some session → session ≤ s.sessions

theorem sound_new : Sound (.new : RuntimeHandler R) where
  fits id call hAt := by cases hAt
  known id hId := absurd hId List.not_mem_nil
  begun session hSink := by cases hSink

variable {s t : RuntimeHandler R} {id : Nat} {call : Call R} {a : Advance} {response : R}

namespace RuntimeHandler

theorem advance_none (h : (s.calls[id]?).bind (Call.advance s.sink · a) = none) :
    s.advance id a = s := by
  unfold advance
  rw [h]

theorem advance_some {call' : Call R} (h : (s.calls[id]?).bind (Call.advance s.sink · a) = some call') :
    s.advance id a =
      { s with
        calls := s.calls.set id call'
        pending := if a = .remove then s.pending.filter (· ≠ id) else s.pending } := by
  unfold advance
  rw [h]

end RuntimeHandler

def Call.run (sink : Option Nat) (call : Call R) (as : List Advance) : Call R :=
  as.foldl (fun call a => (Call.advance sink call a).getD call) call

theorem play_advances (as : List Advance) (hAt : s.calls[id]? = some call) :
    (History.play step s (as.map (.advance id ·))).calls[id]? = some (call.run s.sink as) := by
  induction as generalizing s call with
  | nil => exact hAt
  | cons a as ih =>
    have hBind : (s.calls[id]?).bind (Call.advance s.sink · a) = Call.advance s.sink call a := by
      rw [hAt]
      rfl
    have hLt := (List.getElem?_eq_some_iff.mp hAt).1
    rw [List.map_cons, History.play_cons]
    show (History.play step (s.advance id a) _).calls[id]? = _
    cases hNext : Call.advance s.sink call a with
    | none =>
      rw [RuntimeHandler.advance_none (hBind.trans hNext), ih hAt]
      show _ = some (Call.run s.sink ((Call.advance s.sink call a).getD call) as)
      rw [hNext]
      rfl
    | some call' =>
      rw [RuntimeHandler.advance_some (hBind.trans hNext), ih (List.getElem?_set_self hLt)]
      show _ = some (Call.run s.sink ((Call.advance s.sink call a).getD call) as)
      rw [hNext]
      rfl

theorem Call.run_returned (sink : Option Nat) (call : Call R) (ok : Bool) :
    (call.run sink [.lookup, .send ok, .receive, .elapse, .remove]).Returned := by
  obtain ⟨phase, response⟩ := call
  cases phase with
  | inserted =>
    cases sink with
    | none => exact ⟨_, rfl⟩
    | some session =>
      cases ok with
      | false => exact ⟨_, rfl⟩
      | true =>
        cases response with
        | none | some => exact ⟨_, rfl⟩
  | sending session =>
    cases ok with
    | false => exact ⟨_, rfl⟩
    | true =>
      cases response with
      | none | some => exact ⟨_, rfl⟩
  | waiting session =>
    cases response with
    | none | some => exact ⟨_, rfl⟩
  | expired | returned => exact ⟨_, rfl⟩

theorem Sound.settled (h : Sound s) : Settled s where
  own id call response hAt hPhase := (h.fits id call hAt).result response hPhase
  clean id hId := by
    have hLt := h.known id hId
    refine ⟨s.calls[id], List.getElem?_eq_getElem hLt, fun hReturned => ?_⟩
    exact (h.fits id _ (List.getElem?_eq_getElem hLt)).gone hReturned hId
  free id call session hAt := (h.fits id call hAt).free session
  ends id hLt ok :=
    ⟨_, Call.run_returned s.sink s.calls[id] ok,
      play_advances [.lookup, .send ok, .receive, .elapse, .remove] (List.getElem?_eq_getElem hLt)⟩

theorem Fits.other (h : Fits s id call) (hPending : id ∈ t.pending ↔ id ∈ s.pending)
    (hReplied : ∀ reply ∈ s.replied, reply ∈ t.replied) (hEnded : t.ended = s.ended)
    (hSessions : s.sessions ≤ t.sessions) : Fits t id call where
  waits hListens := hPending.trans (h.waits hListens)
  gone hReturned hId := h.gone hReturned (hPending.mp hId)
  own response hResponse := hReplied _ (h.own response hResponse)
  result response hPhase := hReplied _ (h.result response hPhase)
  free session hPhase hNone := hEnded ▸ h.free session hPhase hNone
  begun session hPhase := Nat.le_trans (h.begun session hPhase) hSessions

theorem Sound.set (h : Sound s) {call' : Call R} {pending : List Nat}
    (hOther : ∀ j ≠ id, j ∈ pending ↔ j ∈ s.pending) (hFewer : ∀ j ∈ pending, j ∈ s.pending)
    (hFits : Fits { s with calls := s.calls.set id call', pending } id call') :
    Sound { s with calls := s.calls.set id call', pending } where
  fits j callj hAt := by
    have hAt : (s.calls.set id call')[j]? = some callj := hAt
    by_cases hSame : j = id
    · subst hSame
      rw [List.getElem?_set] at hAt
      simp only [if_true] at hAt
      split at hAt
      · obtain rfl : call' = callj := Option.some.inj hAt
        exact hFits
      · cases hAt
    · rw [List.getElem?_set_ne (Ne.symm hSame)] at hAt
      exact (h.fits j callj hAt).other (hOther j hSame) (fun _ hr => hr) rfl (Nat.le_refl _)
  known j hj := by
    show j < (s.calls.set id call').length
    rw [List.length_set]
    exact h.known j (hFewer j hj)
  begun := h.begun

theorem Sound.move (h : Sound s) {call' : Call R} (hFits : Fits s id call') :
    Sound { s with calls := s.calls.set id call' } :=
  h.set (fun _ _ => Iff.rfl) (fun _ (hj : _ ∈ s.pending) => hj)
    ⟨hFits.waits, hFits.gone, hFits.own, hFits.result, hFits.free, hFits.begun⟩

namespace Fits

variable {call' : Call R}

theorem of_returned {result : Except String R} {response : Option R} (hGone : id ∉ s.pending)
    (hOwn : ∀ r, response = some r → (id, r) ∈ s.replied)
    (hResult : ∀ r, result = .ok r → (id, r) ∈ s.replied) :
    Fits s id ⟨.returned result, response⟩ where
  waits hListens := hListens.elim
  gone _ := hGone
  own := hOwn
  result r hPhase := hResult r (Phase.returned.inj hPhase)
  free session hPhase := by cases hPhase
  begun session hPhase := by rcases hPhase with hPhase | hPhase <;> cases hPhase

theorem lookup (h : Fits s id call) (hBegun : ∀ session, s.sink = some session → session ≤ s.sessions)
    (hNext : call.lookup s.sink = some call')
    (hMeets : call.phase = .inserted → id ∈ s.pending → s.sink ≠ none) : Fits s id call' := by
  unfold Call.lookup at hNext
  split at hNext
  · rename_i hPhase hSink
    obtain rfl := Option.some.inj hNext
    exact of_returned (fun hId => hMeets hPhase hId hSink) h.own fun r hOk => by cases hOk
  · rename_i session hPhase hSink
    obtain rfl := Option.some.inj hNext
    have hListens : call.Listens := by
      unfold Call.Listens
      rw [hPhase]
      trivial
    refine ⟨fun _ => h.waits hListens, fun ⟨_, hResult⟩ => (by cases hResult), h.own,
      fun _ hResult => (by cases hResult), fun _ hWaits => (by cases hWaits), fun session' hOr => ?_⟩
    rcases hOr with hOr | hOr
    · rw [← Phase.sending.inj hOr]
      exact hBegun session hSink
    · cases hOr
  · cases hNext

theorem send (h : Fits s id call) {ok : Bool} (hNext : call.send ok = some call')
    (hMeets : ∀ session, call.phase = .sending session → id ∈ s.pending →
      ok = true ∧ s.ended < session) : Fits s id call' := by
  unfold Call.send at hNext
  split at hNext
  · rename_i session hPhase
    split at hNext
    · obtain rfl := Option.some.inj hNext
      have hListens : call.Listens := by
        unfold Call.Listens
        rw [hPhase]
        trivial
      refine ⟨fun _ => h.waits hListens, fun ⟨_, hResult⟩ => (by cases hResult), h.own,
        fun _ hResult => (by cases hResult), fun session' hWaits hNone => ?_, fun session' hOr => ?_⟩
      · rw [← Phase.waiting.inj hWaits]
        exact (hMeets session hPhase ((h.waits hListens).mpr hNone)).2
      · rcases hOr with hOr | hOr
        · cases hOr
        · rw [← Phase.waiting.inj hOr]
          exact h.begun session (.inl hPhase)
    · rename_i hFails
      obtain rfl := Option.some.inj hNext
      exact of_returned (fun hId => hFails (hMeets session hPhase hId).1) h.own fun r hOk => by cases hOk
  · cases hNext

theorem receive (h : Fits s id call) (hNext : call.receive = some call') : Fits s id call' := by
  unfold Call.receive at hNext
  split at hNext
  · rename_i session response hPhase hResponse
    obtain rfl := Option.some.inj hNext
    have hListens : call.Listens := by
      unfold Call.Listens
      rw [hPhase]
      trivial
    refine of_returned (fun hId => ?_) h.own fun r hOk => ?_
    · rw [h.waits hListens, hResponse] at hId
      cases hId
    · rw [← Except.ok.inj hOk]
      exact h.own response hResponse
  · cases hNext

theorem elapse (h : Fits s id call) (hNext : call.elapse = some call') : Fits s id call' := by
  unfold Call.elapse at hNext
  split at hNext
  · obtain rfl := Option.some.inj hNext
    exact ⟨fun hListens => hListens.elim, fun ⟨_, hResult⟩ => (by cases hResult), h.own,
      fun _ hResult => (by cases hResult), fun _ hWaits => (by cases hWaits),
      fun _ hOr => by rcases hOr with hOr | hOr <;> cases hOr⟩
  · cases hNext

end Fits

theorem Sound.advance (h : Sound s) (hMeets : Meets s (.advance id a)) : Sound (s.advance id a) := by
  cases hBind : (s.calls[id]?).bind (Call.advance s.sink · a) with
  | none =>
    rw [RuntimeHandler.advance_none hBind]
    exact h
  | some call' =>
    rw [RuntimeHandler.advance_some hBind]
    obtain ⟨call, hAt, hNext⟩ := Option.bind_eq_some_iff.mp hBind
    have hFits := h.fits id call hAt
    cases a with
    | lookup => exact h.move (hFits.lookup h.begun hNext (hMeets call hAt))
    | send ok => exact h.move (hFits.send hNext fun session hPhase => hMeets call session hAt hPhase)
    | receive => exact h.move (hFits.receive hNext)
    | elapse => exact h.move (hFits.elapse hNext)
    | remove =>
      have hNext : call.remove = some call' := hNext
      unfold Call.remove at hNext
      split at hNext
      · obtain rfl := Option.some.inj hNext
        refine h.set (fun j hj => ?_) (fun j hj => (List.mem_filter.mp hj).1)
          (Fits.of_returned (fun hId => ?_) hFits.own fun r hOk => by cases hOk)
        · simp [hj]
        · have hId : id ∈ s.pending.filter (· ≠ id) := hId
          simp at hId
      · cases hNext

theorem Sound.insert (h : Sound s) : Sound s.call where
  fits id call hAt := by
    have hAt : (s.calls ++ [⟨.inserted, none⟩])[id]? = some call := hAt
    rcases Nat.lt_trichotomy id s.calls.length with hOld | hNew | hBeyond
    · rw [List.getElem?_append_left hOld] at hAt
      refine (h.fits id call hAt).other ?_ (fun _ hr => hr) rfl (Nat.le_refl _)
      show id ∈ s.pending ++ [s.calls.length] ↔ _
      rw [List.mem_append, List.mem_singleton, or_iff_left (Nat.ne_of_lt hOld)]
    · subst hNew
      rw [List.getElem?_concat_length] at hAt
      obtain rfl := Option.some.inj hAt
      refine ⟨fun _ => iff_of_true (List.mem_append_right _ (List.mem_singleton_self _)) rfl,
        fun ⟨_, hResult⟩ => (by cases hResult), fun _ hResponse => (by cases hResponse),
        fun _ hResult => (by cases hResult), fun _ hWaits => (by cases hWaits),
        fun _ hOr => by rcases hOr with hOr | hOr <;> cases hOr⟩
    · rw [List.getElem?_eq_none (by rw [List.length_append, List.length_singleton]; omega)] at hAt
      cases hAt
  known id hId := by
    have hId : id ∈ s.pending ++ [s.calls.length] := hId
    show id < (s.calls ++ [_]).length
    rw [List.length_append, List.length_singleton]
    rcases List.mem_append.mp hId with hOld | hNew
    · have := h.known id hOld
      omega
    · rw [List.mem_singleton.mp hNew]
      omega
  begun := h.begun

theorem Fits.deliver (h : Fits s id call) {calls : List (Call R)} :
    Fits { s with
      pending := s.pending.filter (· ≠ id), calls, replied := s.replied ++ [(id, response)] } id
      (call.deliver response) := by
  have hGone : id ∉ s.pending.filter (· ≠ id) := by simp
  unfold Call.deliver
  split
  · rename_i hListens
    refine ⟨fun _ => iff_of_false hGone fun hNone => (by cases hNone), fun _ => hGone, fun r hr => ?_,
      fun r hPhase => List.mem_append_left _ (h.result r hPhase),
      fun _ _ hNone => (by cases hNone), h.begun⟩
    rw [Option.some.inj hr]
    exact List.mem_append_right _ (List.mem_singleton_self _)
  · rename_i hDeaf
    exact ⟨fun hListens => absurd hListens hDeaf, fun _ => hGone,
      fun r hr => List.mem_append_left _ (h.own r hr),
      fun r hPhase => List.mem_append_left _ (h.result r hPhase), h.free, h.begun⟩

theorem Sound.reply (h : Sound s) : Sound (s.handleCapabilityReply id response) := by
  unfold RuntimeHandler.handleCapabilityReply
  split
  · rename_i hId
    refine ⟨fun j call hAt => ?_, fun j hj => ?_, h.begun⟩
    · have hAt : (s.calls.modify id (Call.deliver · response))[j]? = some call := hAt
      rw [List.getElem?_modify] at hAt
      obtain ⟨old, hOld, rfl⟩ := Option.map_eq_some_iff.mp hAt
      have hFits := h.fits j old hOld
      split
      · rename_i hSame
        subst hSame
        exact hFits.deliver
      · rename_i hNe
        refine hFits.other ?_ (fun _ hr => List.mem_append_left _ hr) rfl (Nat.le_refl _)
        show j ∈ s.pending.filter (· ≠ id) ↔ _
        simp [Ne.symm hNe]
    · show j < (s.calls.modify id _).length
      rw [List.length_modify]
      exact h.known j (List.mem_filter.mp hj).1
  · exact ⟨fun j call hAt => (h.fits j call hAt).other Iff.rfl
      (fun _ hr => List.mem_append_left _ hr) rfl (Nat.le_refl _), h.known, h.begun⟩

theorem Sound.connect (h : Sound s) : Sound s.onConnected where
  fits id call hAt :=
    (h.fits id call hAt).other Iff.rfl (fun _ hr => hr) rfl (Nat.le_succ _)
  known := h.known
  begun _ hSink := Nat.le_of_eq (Option.some.inj hSink).symm

theorem Sound.disconnect (h : Sound s) (hMeets : Meets s .disconnect) : Sound s.onDisconnected where
  fits id call hAt := by
    have hFits := h.fits id call hAt
    refine ⟨hFits.waits, hFits.gone, hFits.own, hFits.result, fun _ hPhase hNone => ?_, hFits.begun⟩
    have hListens : call.Listens := by
      unfold Call.Listens
      rw [hPhase]
      trivial
    exact absurd ((hFits.waits hListens).mpr hNone) (hMeets id call _ hAt hPhase)
  known := h.known
  begun session hSink := by cases hSink

theorem Sound.step (h : Sound s) {e : Event R} (hMeets : Meets s e) : Sound (step s e) := by
  cases e with
  | call => exact h.insert
  | advance id a => exact h.advance hMeets
  | reply id response => exact h.reply
  | connect => exact h.connect
  | disconnect => exact h.disconnect hMeets

theorem left_behind {call' : Call R} (hAt : s.calls[id]? = some call)
    (hNext : call.advance s.sink a = some call') (hReturned : call'.Returned) (ha : a ≠ .remove)
    (hId : id ∈ s.pending) : ¬Settled (s.advance id a) := by
  have hBind : (s.calls[id]?).bind (Call.advance s.sink · a) = some call' := by
    rw [hAt]
    exact hNext
  rw [RuntimeHandler.advance_some hBind, if_neg ha]
  intro hSettled
  obtain ⟨call'', hAt'', hNot⟩ := hSettled.clean id hId
  have hSelf : (s.calls.set id call')[id]? = some call'' := hAt''
  rw [List.getElem?_set_self (List.getElem?_eq_some_iff.mp hAt).1] at hSelf
  exact hNot (Option.some.inj hSelf ▸ hReturned)

theorem Sound.send_met (h : Sound s) {ok : Bool} (hSettled : Settled (s.advance id (.send ok)))
    {session : Nat} (hAt : s.calls[id]? = some call) (hPhase : call.phase = .sending session)
    (hId : id ∈ s.pending) : ok = true ∧ s.ended < session := by
  have hSend : call.send ok = if ok then some { call with phase := .waiting session }
      else some { call with phase := .returned (.error sinkClosed) } := by
    unfold Call.send
    rw [hPhase]
  cases ok with
  | false => exact absurd hSettled (left_behind hAt hSend ⟨_, rfl⟩ (by decide) hId)
  | true =>
    refine ⟨rfl, ?_⟩
    have hBind : (s.calls[id]?).bind (Call.advance s.sink · (.send true)) =
        some { call with phase := .waiting session } := by
      rw [hAt]
      exact hSend
    rw [RuntimeHandler.advance_some hBind] at hSettled
    have hListens : call.Listens := by
      unfold Call.Listens
      rw [hPhase]
      trivial
    exact hSettled.free id _ session
      (List.getElem?_set_self (List.getElem?_eq_some_iff.mp hAt).1) rfl
      (((h.fits id call hAt).waits hListens).mp hId)

theorem Sound.meets (h : Sound s) {e : Event R} (hSettled : Settled (Capabilities.RuntimeHandler.step s e)) :
    Meets s e := by
  cases e with
  | call | reply | connect => trivial
  | advance id a =>
    cases a with
    | receive | elapse | remove => trivial
    | lookup =>
      intro call hAt hPhase hId hSink
      refine left_behind hAt (?_ : _ = some { call with phase := .returned (.error noSink) }) ⟨_, rfl⟩
        (by decide) hId hSettled
      show call.lookup s.sink = _
      unfold Call.lookup
      rw [hPhase, hSink]
    | send ok => exact fun call session hAt hPhase hId => h.send_met hSettled hAt hPhase hId
  | disconnect =>
    intro id call session hAt hPhase hId
    have hFits := h.fits id call hAt
    have hListens : call.Listens := by
      unfold Call.Listens
      rw [hPhase]
      trivial
    have hFree := hSettled.free id call session hAt hPhase ((hFits.waits hListens).mp hId)
    exact Nat.not_lt.mpr (hFits.begun session (.inr hPhase)) hFree

theorem Call.Returned.advance_none (h : call.Returned) (sink : Option Nat) (a : Advance) :
    call.advance sink a = none := by
  obtain ⟨result, hPhase⟩ := h
  cases a with
  | lookup =>
    show call.lookup sink = none
    unfold Call.lookup
    rw [hPhase]
  | send ok =>
    show call.send ok = none
    unfold Call.send
    rw [hPhase]
  | receive =>
    show call.receive = none
    unfold Call.receive
    rw [hPhase]
  | elapse =>
    show call.elapse = none
    unfold Call.elapse
    rw [hPhase]
  | remove =>
    show call.remove = none
    unfold Call.remove
    rw [hPhase]

theorem Call.Returned.deliver (h : call.Returned) : call.deliver response = call := by
  obtain ⟨result, hPhase⟩ := h
  refine if_neg ?_
  unfold Call.Listens
  rw [hPhase]
  exact not_false

theorem kept_once (e : Event R) (hAt : s.calls[id]? = some call) (hReturned : call.Returned) :
    (step s e).calls[id]? = some call := by
  cases e with
  | call =>
    show (s.calls ++ [_])[id]? = _
    rw [List.getElem?_append_left (List.getElem?_eq_some_iff.mp hAt).1, hAt]
  | advance j a =>
    show (s.advance j a).calls[id]? = _
    cases hBind : (s.calls[j]?).bind (Call.advance s.sink · a) with
    | none => rw [RuntimeHandler.advance_none hBind, hAt]
    | some call' =>
      rw [RuntimeHandler.advance_some hBind]
      have hNe : j ≠ id := by
        rintro rfl
        rw [hAt, Option.bind_some, hReturned.advance_none] at hBind
        cases hBind
      show (s.calls.set j call')[id]? = _
      rw [List.getElem?_set_ne hNe, hAt]
  | reply j response =>
    show (s.handleCapabilityReply j response).calls[id]? = _
    unfold RuntimeHandler.handleCapabilityReply
    split
    · show (s.calls.modify j _)[id]? = _
      rw [List.getElem?_modify, hAt]
      show some (if j = id then call.deliver response else call) = _
      split
      · rw [hReturned.deliver]
      · rfl
    · exact hAt
  | connect | disconnect => exact hAt

theorem Sound.idle (h : Sound s)
    (hDone : ∀ call, s.calls[id]? = some call → call.Returned) :
    s.handleCapabilityReply id response = { s with replied := s.replied ++ [(id, response)] } := by
  refine if_neg fun hId => ?_
  have hAt := List.getElem?_eq_getElem (h.known id hId)
  exact (h.fits id _ hAt).gone (hDone _ hAt) hId

theorem Sound.kept (h : Sound s) (e : Event R) : Kept s e where
  once id call hAt hReturned := kept_once e hAt hReturned
  idle id response hIs hDone := by
    subst hIs
    exact h.idle hDone

/-- In every run the calls are settled after every step, return once and are not disturbed by other
replies, exactly if every step meets the condition. -/
theorem capabilities_iff (es : List (Event R)) :
    History.Each step (fun s e => Settled (step s e) ∧ Kept s e) .new es ↔
      History.Each step Meets .new es :=
  History.each_congr (I := Sound) sound_new (fun _ _ h hRight => h.step (h.meets hRight.1))
    (fun _ e h => ⟨fun hRight => h.meets hRight.1,
      fun hMeets => ⟨(h.step hMeets).settled, h.kept e⟩⟩) es

/-- A call without a session returns an error and leaves its waiter. -/
theorem waiter_left :
    ¬History.Each step (fun s e => Settled (step s e) ∧ Kept s e) (.new : RuntimeHandler Nat)
      [.call, .advance 0 .lookup] := by
  rintro ⟨-, ⟨hSettled, -⟩, -⟩
  obtain ⟨call, hAt, hNot⟩ := hSettled.clean 0 (by decide)
  obtain rfl : ⟨.returned (.error noSink), none⟩ = call := Option.some.inj hAt
  exact hNot ⟨_, rfl⟩

end Cronymax.Handler.Capabilities
