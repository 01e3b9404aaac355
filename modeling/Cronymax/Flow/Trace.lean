import Cronymax.Atomic.History
import Mathlib.Tactic.Common

/-! The trace of a flow run.  A task writes each event to the file and then tells it to the
subscribers; a subscriber reads the file first and is registered afterwards. -/

namespace Cronymax.Flow.Trace

open Atomic

variable {E : Type*}

/-- A reader with the events it has seen, and its token once it is registered. -/
structure Reader (E : Type*) where
  seen : List E
  token : Option Nat

/-- `TraceWriter`: its queue, the file, and the subscribers by their tokens. -/
structure TraceWriter (E : Type*) where
  queue : List E
  file : List E
  telling : Option E
  /-- An `AtomicUsize`: no token comes back before as many subscriptions as a `usize` counts. -/
  nextToken : Nat
  readers : List (Reader E)
  subscribers : List (Nat × Nat)

/-- A step of the writer, of a notification or of a reader. -/
inductive Event (E : Type*) where
  | append (evt : E)
  | write
  | notify
  | replay
  | register (call : Nat)
  | unsubscribe (token : Nat)

namespace TraceWriter

variable (s : TraceWriter E)

def new (file : List E) : TraceWriter E := ⟨[], file, none, 1, [], []⟩

/-- The callback of the reader with this number is among those called. -/
def Subscribed (call : Nat) : Prop := call ∈ s.subscribers.map (·.2)

instance (call : Nat) : Decidable (s.Subscribed call) := inferInstanceAs (Decidable (_ ∈ _))

def call (evt : E) : List (Reader E) :=
  s.readers.mapIdx fun i r => if s.Subscribed i then { r with seen := r.seen ++ [evt] } else r

def write : TraceWriter E :=
  match s.telling, s.queue with
  | none, evt :: rest => { s with queue := rest, file := s.file ++ [evt], telling := some evt }
  | _, _ => s

def notify : TraceWriter E :=
  match s.telling with
  | some evt => { s with telling := none, readers := s.call evt }
  | none => s

def register (i : Nat) : TraceWriter E :=
  match s.readers[i]? with
  | some ⟨seen, none⟩ =>
    { s with
      nextToken := s.nextToken + 1
      readers := s.readers.set i ⟨seen, some s.nextToken⟩
      subscribers := s.subscribers ++ [(s.nextToken, i)] }
  | _ => s

def step (s : TraceWriter E) : Event E → TraceWriter E
  | .append evt => { s with queue := s.queue ++ [evt] }
  | .write => s.write
  | .notify => s.notify
  | .replay => { s with readers := s.readers ++ [⟨s.file, none⟩] }
  | .register i => s.register i
  | .unsubscribe token => { s with subscribers := s.subscribers.filter (·.1 ≠ token) }

theorem write_cases : s.write = s ∨ s.telling = none ∧ ∃ evt rest,
    s.write = { s with queue := rest, file := s.file ++ [evt], telling := some evt } := by
  unfold write
  split
  · rename_i evt rest hTelling _
    exact .inr ⟨hTelling, evt, rest, rfl⟩
  · exact .inl rfl

theorem notify_cases : s.notify = s ∨ ∃ evt, s.telling = some evt ∧
    s.notify = { s with telling := none, readers := s.call evt } := by
  unfold notify
  split
  · rename_i evt hTelling
    exact .inr ⟨evt, hTelling, rfl⟩
  · exact .inl rfl

theorem register_cases (i : Nat) :
    (s.register i = s ∧ ∀ r ∈ s.readers[i]?, r.token ≠ none) ∨
      ∃ seen, s.readers[i]? = some ⟨seen, none⟩ ∧ s.register i =
        { s with
          nextToken := s.nextToken + 1
          readers := s.readers.set i ⟨seen, some s.nextToken⟩
          subscribers := s.subscribers ++ [(s.nextToken, i)] } := by
  unfold register
  split
  · rename_i seen hAt
    exact .inr ⟨seen, hAt, rfl⟩
  · rename_i hOther
    refine .inl ⟨rfl, fun r hAt hToken => hOther r.seen ?_⟩
    rw [Option.mem_def.mp hAt, ← hToken]

theorem call_getElem? (evt : E) (i : Nat) :
    (s.call evt)[i]? =
      (s.readers[i]?).map fun r => if s.Subscribed i then { r with seen := r.seen ++ [evt] } else r :=
  List.getElem?_mapIdx

end TraceWriter

open TraceWriter (step)

/-- Every subscriber has seen the file, up to the event that is being told. -/
def Faithful (s : TraceWriter E) : Prop :=
  ∀ i, s.Subscribed i → ∃ r, s.readers[i]? = some r ∧ r.seen ++ s.telling.toList = s.file

def TraceWriter.told (s : TraceWriter E) : Nat := s.file.length - s.telling.toList.length

/-- A reader is registered when its replay has all that was told. -/
def Meets (s : TraceWriter E) : Event E → Prop
  | .register i => ∀ r ∈ s.readers[i]?, r.token = none → r.seen.length = s.told
  | _ => True

/-- What holds between two steps, whether the subscribers are served well or not. -/
structure Ready (s : TraceWriter E) : Prop where
  telling : s.telling.toList <:+ s.file
  waiting : ∀ i r, s.readers[i]? = some r → r.token = none → r.seen <+: s.file ∧ ¬s.Subscribed i
  known : ∀ i, s.Subscribed i → i < s.readers.length

/-- The invariant of every state. -/
structure Sound (s : TraceWriter E) : Prop where
  faithful : Faithful s
  ready : Ready s

variable {s : TraceWriter E} {e : Event E}

theorem ready_new (file : List E) : Ready (TraceWriter.new file) where
  telling := List.nil_suffix
  waiting i r hAt := by cases hAt
  known i hSub := absurd hSub List.not_mem_nil

theorem Ready.seen_iff (h : Ready s) {r : Reader E} (hSeen : r.seen <+: s.file) :
    r.seen ++ s.telling.toList = s.file ↔ r.seen.length = s.told := by
  obtain ⟨told, hTold⟩ := h.telling
  have hLength := congrArg List.length hTold
  rw [List.length_append] at hLength
  unfold TraceWriter.told
  constructor
  · intro hFile
    have := congrArg List.length hFile
    rw [List.length_append] at this
    omega
  · intro hCount
    have hPrefix : told <+: s.file := ⟨_, hTold⟩
    have hSame : r.seen = told := by
      rw [List.prefix_iff_eq_take.mp hSeen, List.prefix_iff_eq_take.mp hPrefix]
      congr 1
      omega
    rw [hSame, hTold]

theorem Sound.faithful_write (h : Sound s) : Faithful s.write := by
  obtain hSame | ⟨hTelling, evt, rest, hWrite⟩ := s.write_cases
  · rw [hSame]
    exact h.faithful
  · rw [hWrite]
    intro i hSub
    obtain ⟨r, hAt, hFile⟩ := h.faithful i hSub
    rw [hTelling, Option.toList_none, List.append_nil] at hFile
    refine ⟨r, hAt, ?_⟩
    show r.seen ++ [evt] = s.file ++ [evt]
    rw [hFile]

theorem Sound.faithful_notify (h : Sound s) : Faithful s.notify := by
  obtain hSame | ⟨evt, hTelling, hNotify⟩ := s.notify_cases
  · rw [hSame]
    exact h.faithful
  · rw [hNotify]
    intro i hSub
    have hCalled : s.Subscribed i := hSub
    obtain ⟨r, hAt, hFile⟩ := h.faithful i hCalled
    rw [hTelling] at hFile
    refine ⟨{ r with seen := r.seen ++ [evt] }, ?_, ?_⟩
    · show (s.call evt)[i]? = _
      rw [TraceWriter.call_getElem?, hAt, Option.map_some, if_pos hCalled]
    · show (r.seen ++ [evt]) ++ [] = s.file
      rw [List.append_nil]
      exact hFile

theorem Sound.faithful_replay (h : Sound s) : Faithful (step s .replay) := by
  intro i hSub
  obtain ⟨r, hAt, hFile⟩ := h.faithful i hSub
  refine ⟨r, ?_, hFile⟩
  show (s.readers ++ [⟨s.file, none⟩])[i]? = _
  rw [List.getElem?_append_left (List.getElem?_eq_some_iff.mp hAt).1, hAt]

theorem Sound.faithful_unsubscribe (h : Sound s) (token : Nat) :
    Faithful (step s (.unsubscribe token)) := by
  intro i hSub
  obtain ⟨sub, hMem, hCall⟩ := List.mem_map.mp hSub
  exact h.faithful i (List.mem_map.mpr ⟨sub, (List.mem_filter.mp hMem).1, hCall⟩)

theorem Sound.faithful_register (h : Sound s) (i : Nat) :
    Faithful (s.register i) ↔ Meets s (.register i) := by
  show _ ↔ ∀ r ∈ s.readers[i]?, r.token = none → r.seen.length = s.told
  obtain ⟨hSame, hDone⟩ | ⟨seen, hAt, hRegister⟩ := s.register_cases i
  · rw [hSame]
    exact iff_of_true h.faithful fun r hr hToken => absurd hToken (hDone r hr)
  obtain ⟨hSeen, -⟩ := h.ready.waiting i _ hAt rfl
  have hLt : i < s.readers.length := (List.getElem?_eq_some_iff.mp hAt).1
  have hMeets : (∀ r ∈ s.readers[i]?, r.token = none → r.seen.length = s.told) ↔
      seen ++ s.telling.toList = s.file := by
    rw [h.ready.seen_iff (r := ⟨seen, none⟩) hSeen, hAt]
    simp
  rw [hMeets, hRegister]
  constructor
  · intro hAfter
    obtain ⟨r, hReader, hFile⟩ := hAfter i (by simp [TraceWriter.Subscribed])
    have hSelf : (s.readers.set i ⟨seen, some s.nextToken⟩)[i]? = some r := hReader
    rw [List.getElem?_set_self hLt] at hSelf
    rw [← Option.some.inj hSelf] at hFile
    exact hFile
  · intro hFile j hSub
    by_cases hSame : j = i
    · subst hSame
      exact ⟨_, List.getElem?_set_self hLt, hFile⟩
    · have hOld : s.Subscribed j := by
        simpa [TraceWriter.Subscribed, hSame] using hSub
      obtain ⟨r, hReader, hRest⟩ := h.faithful j hOld
      refine ⟨r, ?_, hRest⟩
      show (s.readers.set i _)[j]? = _
      rw [List.getElem?_set_ne (Ne.symm hSame), hReader]

theorem Sound.faithful_iff (h : Sound s) : Faithful (step s e) ↔ Meets s e := by
  cases e with
  | append evt => exact iff_of_true h.faithful trivial
  | write => exact iff_of_true h.faithful_write trivial
  | notify => exact iff_of_true h.faithful_notify trivial
  | replay => exact iff_of_true h.faithful_replay trivial
  | register i => exact h.faithful_register i
  | unsubscribe token => exact iff_of_true (h.faithful_unsubscribe token) trivial

theorem Ready.write (h : Ready s) : Ready s.write := by
  obtain hSame | ⟨-, evt, rest, hWrite⟩ := s.write_cases
  · rw [hSame]
    exact h
  · rw [hWrite]
    refine ⟨List.suffix_append _ _, fun i r hAt hToken => ?_, h.known⟩
    obtain ⟨hSeen, hNot⟩ := h.waiting i r hAt hToken
    exact ⟨hSeen.trans (List.prefix_append _ _), hNot⟩

theorem Ready.notify (h : Ready s) : Ready s.notify := by
  obtain hSame | ⟨evt, -, hNotify⟩ := s.notify_cases
  · rw [hSame]
    exact h
  · rw [hNotify]
    refine ⟨List.nil_suffix, fun i r hAt hToken => ?_, fun i hSub => ?_⟩
    · have hCalled : (s.call evt)[i]? = some r := hAt
      rw [TraceWriter.call_getElem?] at hCalled
      obtain ⟨r', hAt', hSame⟩ := Option.map_eq_some_iff.mp hCalled
      have hWaits : r'.token = none := by
        rw [← hToken, ← hSame]
        split <;> rfl
      obtain ⟨hSeen, hNot⟩ := h.waiting i r' hAt' hWaits
      rw [if_neg hNot] at hSame
      exact ⟨hSame ▸ hSeen, hNot⟩
    · show i < (s.call evt).length
      rw [TraceWriter.call, List.length_mapIdx]
      exact h.known i hSub

theorem Ready.replay (h : Ready s) : Ready (step s .replay) := by
  refine ⟨h.telling, fun i r hAt hToken => ?_, fun i hSub => ?_⟩
  · have hReader : (s.readers ++ [⟨s.file, none⟩])[i]? = some r := hAt
    rcases Nat.lt_trichotomy i s.readers.length with hOld | hNew | hBeyond
    · rw [List.getElem?_append_left hOld] at hReader
      exact h.waiting i r hReader hToken
    · subst hNew
      rw [List.getElem?_concat_length] at hReader
      obtain rfl : _ = r := Option.some.inj hReader
      exact ⟨List.prefix_refl _, fun hSub => absurd (h.known _ hSub) (Nat.lt_irrefl _)⟩
    · rw [List.getElem?_eq_none (by rw [List.length_append, List.length_singleton]; omega)] at hReader
      cases hReader
  · show i < (s.readers ++ [_]).length
    rw [List.length_append]
    have := h.known i hSub
    omega

theorem Ready.register (h : Ready s) (i : Nat) : Ready (s.register i) := by
  obtain ⟨hSame, -⟩ | ⟨seen, hAt, hRegister⟩ := s.register_cases i
  · rw [hSame]
    exact h
  have hLt : i < s.readers.length := (List.getElem?_eq_some_iff.mp hAt).1
  rw [hRegister]
  refine ⟨h.telling, fun j r hReader hToken => ?_, fun j hSub => ?_⟩
  · have hSet : (s.readers.set i ⟨seen, some s.nextToken⟩)[j]? = some r := hReader
    by_cases hSame : j = i
    · subst hSame
      rw [List.getElem?_set_self hLt] at hSet
      obtain rfl : _ = r := Option.some.inj hSet
      cases hToken
    · rw [List.getElem?_set_ne (Ne.symm hSame)] at hSet
      obtain ⟨hSeen, hNot⟩ := h.waiting j r hSet hToken
      refine ⟨hSeen, fun hSub => hNot ?_⟩
      simpa [TraceWriter.Subscribed, hSame] using hSub
  · show j < (s.readers.set i _).length
    rw [List.length_set]
    by_cases hSame : j = i
    · exact hSame ▸ hLt
    · exact h.known j (by simpa [TraceWriter.Subscribed, hSame] using hSub)

theorem Ready.unsubscribe (h : Ready s) (token : Nat) : Ready (step s (.unsubscribe token)) := by
  have hLess : ∀ i, (step s (.unsubscribe token)).Subscribed i → s.Subscribed i := by
    intro i hSub
    obtain ⟨sub, hMem, hCall⟩ := List.mem_map.mp hSub
    exact List.mem_map.mpr ⟨sub, (List.mem_filter.mp hMem).1, hCall⟩
  refine ⟨h.telling, fun i r hAt hToken => ?_,
    fun i hSub => h.known i (hLess i hSub)⟩
  obtain ⟨hSeen, hNot⟩ := h.waiting i r hAt hToken
  exact ⟨hSeen, fun hSub => hNot (hLess i hSub)⟩

theorem Ready.step (h : Ready s) : Ready (step s e) := by
  cases e with
  | append evt => exact ⟨h.telling, h.waiting, h.known⟩
  | write => exact h.write
  | notify => exact h.notify
  | replay => exact h.replay
  | register i => exact h.register i
  | unsubscribe token => exact h.unsubscribe token

/-- In every run the subscribers are called with the events of the file, each once and in their order,
exactly if every subscriber is registered where the telling stands at the end of its replay. -/
theorem replay_iff (file : List E) (es : List (Event E)) :
    History.Each step (fun s e => Faithful (step s e)) (TraceWriter.new file) es ↔
      History.Each step Meets (TraceWriter.new file) es :=
  History.each_congr (I := Sound)
    ⟨fun _ hSub => absurd hSub List.not_mem_nil, ready_new file⟩
    (fun _ _ h hAfter => ⟨hAfter, h.ready.step⟩)
    (fun _ _ h => h.faithful_iff) es

/-- An event is written and told between the replay of a subscriber and its registration. -/
theorem event_missed :
    ¬History.Each step (fun s e => Faithful (step s e)) (TraceWriter.new ([] : List Nat))
      [.replay, .append 7, .write, .notify, .register 0] := by
  rintro ⟨-, -, -, -, hFaithful, -⟩
  obtain ⟨r, hAt, hFile⟩ := hFaithful 0 (by decide)
  obtain rfl : ⟨[], some 1⟩ = r := Option.some.inj hAt
  exact absurd hFile (by decide)

end Cronymax.Flow.Trace
