import Mathlib.Data.List.Perm.Basic
import Cronymax.Atomic.History
import Cronymax.Proxy.Requests

/-! Which runs answer every request once.  A registered request is at one place: in `pending_`, in the
hands of a thread that has taken it, or answered.  A wait that times out leaves the entry in its place, a
reply that throws loses it, and a call that finds the bridge gone when it sends crashes. -/

namespace Cronymax.Proxy

open Atomic
open RuntimeProxy (step)

variable {J : Type*}

/-- The payload is a response to the request, or an error. -/
def Own (replied : List (Nat × J)) (id : Nat) (payload : Payload J) (isError : Bool) : Prop :=
  match payload with
  | .response json => (id, json) ∈ replied
  | .error _ _ => isError = true

/-- The call has come to its entry. -/
def Call.Registered (call : Call J) : Prop :=
  match call.phase with
  | .rejected | .checked => False
  | _ => True

/-- The call has come to its end. -/
def Call.Over (call : Call J) : Prop :=
  match call.phase with
  | .failed | .answered _ => True
  | .accepted => call.got ≠ []
  | _ => False

/-- How often the call is still to be answered. -/
def RuntimeProxy.waits (s : RuntimeProxy J) (id : Nat) : Nat :=
  s.pending.count id + (s.inFlight.map (·.id)).count id

/-- Every call is answered once, or waits to be. -/
structure Settled (s : RuntimeProxy J) : Prop where
  alive : s.crashed = false
  once : ∀ (id : Nat) (call : Call J), s.calls[id]? = some call → call.sync = false →
    call.Registered → s.waits id + call.got.length = 1
  own : ∀ (id : Nat) (call : Call J), s.calls[id]? = some call →
    ∀ got ∈ call.got, Own s.replied id got.1 got.2
  answered : ∀ (id : Nat) (call : Call J) json, s.calls[id]? = some call →
    call.phase = .answered json → (id, json) ∈ s.replied
  clean : ∀ id ∈ s.pending, ∃ call, s.calls[id]? = some call ∧ ¬call.Over

/-- A call is sent only while the proxy is attached. -/
def Meets (s : RuntimeProxy J) : Event J → Prop
  | .invoke id _ => ∀ sync got, s.calls[id]? = some ⟨sync, .registered, got⟩ → s.attached = true
  | .timeOut id => s.calls[id]? = some ⟨true, .waiting, []⟩ → id ∉ s.pending
  | .reply id _ kind => id ∈ s.pending → ∀ call, s.calls[id]? = some call → call.sync = false →
    kind ≠ none
  | _ => True

/-- What holds of a call that waits to be answered `waits` times. -/
structure Fits (replied : List (Nat × J)) (pending : List Nat) (waits id : Nat) (call : Call J) :
    Prop where
  bounded : waits + call.got.length ≤ 1
  registered : 0 < waits + call.got.length → call.Registered
  once : call.sync = false → call.Registered → waits + call.got.length = 1
  own : ∀ got ∈ call.got, Own replied id got.1 got.2
  answered : ∀ json, call.phase = .answered json → (id, json) ∈ replied
  gone : call.Over → id ∉ pending

/-- What holds in every state. -/
structure Sound (s : RuntimeProxy J) : Prop where
  alive : s.crashed = false
  fits : ∀ (id : Nat) (call : Call J), s.calls[id]? = some call →
    Fits s.replied s.pending (s.waits id) id call
  known : ∀ id, 0 < s.waits id → id < s.calls.length
  own : ∀ d ∈ s.inFlight, Own s.replied d.id d.payload d.isError

theorem sound_new : Sound (.new : RuntimeProxy J) where
  alive := rfl
  fits id call hAt := by cases hAt
  known id hWaits := absurd hWaits (Nat.lt_irrefl 0)
  own d hd := absurd hd List.not_mem_nil

variable {s t : RuntimeProxy J} {id : Nat} {call : Call J}

theorem Own.mono {replied replied' : List (Nat × J)} {payload : Payload J} {isError : Bool}
    (h : Own replied id payload isError) (hMore : ∀ reply ∈ replied, reply ∈ replied') :
    Own replied' id payload isError := by
  cases payload with
  | response json => exact hMore _ h
  | error code message => exact h

theorem RuntimeProxy.waits_pos (hId : id ∈ s.pending) : 0 < s.waits id :=
  Nat.add_pos_left (List.count_pos_iff.mpr hId) _

theorem Sound.settled (h : Sound s) : Settled s where
  alive := h.alive
  once id call hAt := (h.fits id call hAt).once
  own id call hAt := (h.fits id call hAt).own
  answered id call json hAt := (h.fits id call hAt).answered json
  clean id hId := by
    have hAt := List.getElem?_eq_getElem (h.known id (RuntimeProxy.waits_pos hId))
    exact ⟨_, hAt, fun hOver => (h.fits id _ hAt).gone hOver hId⟩

theorem Sound.set (h : Sound s) (id : Nat) (call' : Call J) (hAlive : t.crashed = false)
    (hCalls : t.calls = s.calls.set id call') (hReplied : ∀ reply ∈ s.replied, reply ∈ t.replied)
    (hOther : ∀ j ≠ id, t.waits j = s.waits j ∧ (j ∈ t.pending → j ∈ s.pending))
    (hLt : id < s.calls.length) (hFits : Fits t.replied t.pending (t.waits id) id call')
    (hOwn : ∀ d ∈ t.inFlight, Own t.replied d.id d.payload d.isError) : Sound t where
  alive := hAlive
  fits j callj hAt := by
    rw [hCalls] at hAt
    by_cases hSame : j = id
    · subst hSame
      rw [List.getElem?_set_self hLt] at hAt
      obtain rfl := Option.some.inj hAt
      exact hFits
    · rw [List.getElem?_set_ne (Ne.symm hSame)] at hAt
      have hj := h.fits j callj hAt
      obtain ⟨hWaits, hPending⟩ := hOther j hSame
      rw [hWaits]
      exact ⟨hj.bounded, hj.registered, hj.once, fun got hGot => (hj.own got hGot).mono hReplied,
        fun json hPhase => hReplied _ (hj.answered json hPhase),
        fun hOver hId => hj.gone hOver (hPending hId)⟩
  known j hj := by
    rw [hCalls, List.length_set]
    by_cases hSame : j = id
    · exact hSame ▸ hLt
    · exact h.known j ((hOther j hSame).1 ▸ hj)
  own := hOwn

theorem Sound.phase (h : Sound s) {sync : Bool} {phase phase' : Phase J}
    {got : List (Payload J × Bool)} (hAt : s.calls[id]? = some ⟨sync, phase, got⟩)
    (hRegistered : (Call.mk sync phase' got).Registered ↔ (Call.mk sync phase got).Registered)
    (hAnswered : ∀ json, phase' = .answered json → (id, json) ∈ s.replied)
    (hGone : (Call.mk sync phase' got).Over → id ∉ s.pending) :
    Sound { s with calls := s.calls.set id ⟨sync, phase', got⟩ } := by
  have hFits := h.fits id _ hAt
  exact h.set id _ h.alive rfl (fun _ hr => hr) (fun j _ => ⟨rfl, fun hj => hj⟩)
    (List.getElem?_eq_some_iff.mp hAt).1
    ⟨hFits.bounded, fun hPos => hRegistered.mpr (hFits.registered hPos),
      fun hSync hReg => hFits.once hSync (hRegistered.mp hReg), hFits.own, hAnswered, hGone⟩ h.own

theorem Sound.entries (h : Sound s) (hAlive : t.crashed = false) (hCalls : t.calls = s.calls)
    (hFewer : ∀ j, t.waits j ≤ s.waits j)
    (hFits : ∀ j callj, s.calls[j]? = some callj → Fits t.replied t.pending (t.waits j) j callj)
    (hOwn : ∀ d ∈ t.inFlight, Own t.replied d.id d.payload d.isError) : Sound t where
  alive := hAlive
  fits j callj hAt := hFits j callj (hCalls ▸ hAt)
  known j hj := by
    rw [hCalls]
    exact h.known j (Nat.lt_of_lt_of_le hj (hFewer j))
  own := hOwn

theorem Fits.gone_of_got {replied : List (Nat × J)} (h : Fits replied s.pending (s.waits id) id call)
    (hGot : call.got ≠ []) : id ∉ s.pending := by
  intro hId
  have hPos := RuntimeProxy.waits_pos hId
  have := List.length_pos_iff.mpr hGot
  have := h.bounded
  omega

theorem Fits.none_of_checked {replied : List (Nat × J)} {pending : List Nat} {waits : Nat}
    (h : Fits replied pending waits id call) (hNot : ¬call.Registered) :
    waits = 0 ∧ call.got = [] := by
  have hZero : ¬0 < waits + call.got.length := fun hPos => hNot (h.registered hPos)
  exact ⟨by omega, List.length_eq_zero_iff.mp (by omega)⟩

theorem Sound.send (h : Sound s) (sync : Bool) : Sound (s.send sync) where
  alive := h.alive
  fits j callj hAt := by
    have hAt : (s.calls ++ [_])[j]? = some callj := hAt
    rcases Nat.lt_trichotomy j s.calls.length with hOld | hNew | hBeyond
    · rw [List.getElem?_append_left hOld] at hAt
      exact h.fits j callj hAt
    · subst hNew
      rw [List.getElem?_concat_length] at hAt
      obtain rfl := Option.some.inj hAt
      have hWaits : (s.send sync).waits s.calls.length = 0 :=
        Nat.eq_zero_of_not_pos fun hPos => Nat.lt_irrefl _ (h.known _ hPos)
      rw [hWaits]
      cases hAttached : s.attached with
      | false | true =>
        exact ⟨Nat.zero_le _, fun hPos => absurd hPos (Nat.lt_irrefl 0), fun _ hReg => hReg.elim,
          fun got hGot => absurd hGot List.not_mem_nil, fun json hPhase => (by cases hPhase),
          fun hOver => hOver.elim⟩
    · rw [List.getElem?_eq_none (by rw [List.length_append, List.length_singleton]; omega)] at hAt
      cases hAt
  known j hj := by
    show j < (s.calls ++ [_]).length
    rw [List.length_append]
    have := h.known j hj
    omega
  own := h.own

theorem count_filter_ne {l : List Nat} {id j : Nat} (hNe : j ≠ id) :
    (l.filter (· ≠ id)).count j = l.count j :=
  List.count_filter (by simpa using hNe)

theorem count_filter_self (l : List Nat) (id : Nat) : (l.filter (· ≠ id)).count id = 0 :=
  List.count_eq_zero.mpr (by simp)

theorem Sound.register (h : Sound s) (id : Nat) : Sound (s.register id) := by
  unfold RuntimeProxy.register
  split
  · rename_i sync got hAt
    obtain ⟨hWaits, hGot⟩ := (h.fits id _ hAt).none_of_checked fun hReg => hReg
    obtain rfl : got = [] := hGot
    refine h.set id _ h.alive rfl (fun _ hr => hr) (fun j hNe => ⟨?_, fun hj => ?_⟩)
      (List.getElem?_eq_some_iff.mp hAt).1 ?_ h.own
    · show (s.pending ++ [id]).count j + _ = s.pending.count j + _
      rw [List.count_append, List.count_singleton, if_neg (by simpa using Ne.symm hNe), Nat.add_zero]
    · exact (List.mem_append.mp hj).resolve_right fun hSame => hNe (List.mem_singleton.mp hSame)
    · have hOne : (s.pending ++ [id]).count id + (s.inFlight.map (·.id)).count id = 1 := by
        rw [List.count_append, List.count_singleton_self, Nat.add_right_comm]
        exact congrArg (· + 1) hWaits
      show Fits s.replied (s.pending ++ [id]) ((s.pending ++ [id]).count id + _) id _
      rw [hOne]
      exact ⟨Nat.le_refl _, fun _ => trivial, fun _ _ => rfl, fun got hGot => absurd hGot List.not_mem_nil,
        fun json hPhase => (by cases hPhase), fun hOver => hOver.elim⟩
  · exact h

theorem Sound.invoke (h : Sound s) {ok : Bool} (hMeets : Meets s (.invoke id ok)) :
    Sound (s.invoke id ok) := by
  unfold RuntimeProxy.invoke
  split
  · rename_i sync got hAt
    rw [if_pos (hMeets sync got hAt)]
    have hGot : got ≠ [] → id ∉ s.pending := (h.fits id _ hAt).gone_of_got
    cases ok with
    | false =>
      exact h.phase hAt Iff.rfl (fun json hPhase => by cases hPhase) fun hOver => hOver.elim
    | true =>
      cases sync with
      | false => exact h.phase hAt Iff.rfl (fun json hPhase => by cases hPhase) hGot
      | true => exact h.phase hAt Iff.rfl (fun json hPhase => by cases hPhase) fun hOver => hOver.elim
  · exact h

theorem Sound.wake (h : Sound s) (id : Nat) : Sound (s.wake id) := by
  unfold RuntimeProxy.wake
  split
  · rename_i payload isError rest hAt
    have hFits := h.fits id _ hAt
    have hGone : id ∉ s.pending := hFits.gone_of_got (List.cons_ne_nil _ _)
    have hOwn : Own s.replied id payload isError := hFits.own (payload, isError) List.mem_cons_self
    cases payload with
    | error code message =>
      exact h.phase hAt Iff.rfl (fun json hPhase => by cases hPhase) fun _ => hGone
    | response json =>
      cases isError with
      | true => exact h.phase hAt Iff.rfl (fun json hPhase => by cases hPhase) fun _ => hGone
      | false =>
        refine h.phase hAt Iff.rfl (fun json' hPhase => ?_) fun _ => hGone
        rw [← Phase.answered.inj hPhase]
        exact hOwn
  · exact h

theorem Sound.timeOut (h : Sound s) (hMeets : Meets s (.timeOut id)) : Sound (s.timeOut id) := by
  unfold RuntimeProxy.timeOut
  split
  · rename_i hAt
    exact h.phase hAt Iff.rfl (fun json hPhase => by cases hPhase) fun _ => hMeets hAt
  · exact h

theorem waits_take {more : List (Delivery J)} (hMore : ∀ d ∈ more, d.id = id) {j : Nat} (hNe : j ≠ id) :
    (s.pending.filter (· ≠ id)).count j + ((s.inFlight ++ more).map (·.id)).count j = s.waits j := by
  have hNone : (more.map (·.id)).count j = 0 := by
    refine List.count_eq_zero.mpr fun hMem => ?_
    obtain ⟨d, hd, hSame⟩ := List.mem_map.mp hMem
    exact hNe (hSame.symm.trans (hMore d hd))
  rw [count_filter_ne hNe, List.map_append, List.count_append, hNone, Nat.add_zero]
  rfl

theorem ids_more (l : List (Delivery J)) (id : Nat) (payload : Payload J) (isError : Bool) :
    ((l ++ [(⟨id, payload, isError⟩ : Delivery J)]).map (·.id)).count id =
      (l.map (·.id)).count id + 1 := by
  rw [List.map_append, List.count_append]
  exact congrArg (_ + ·) List.count_singleton_self

theorem Fits.count_pending {replied : List (Nat × J)}
    (h : Fits replied s.pending (s.waits id) id call) (hId : id ∈ s.pending) :
    s.pending.count id = 1 := by
  have hPos := List.count_pos_iff.mpr hId
  have hBounded := h.bounded
  unfold RuntimeProxy.waits at hBounded
  omega

theorem Sound.fail (h : Sound s) (id : Nat) : Sound (s.fail id) := by
  unfold RuntimeProxy.fail
  split
  · rename_i sync got hAt
    have hFits := h.fits id _ hAt
    have hLt := (List.getElem?_eq_some_iff.mp hAt).1
    have hGone : id ∉ s.pending.filter (· ≠ id) := by simp
    by_cases hEntry : sync = false ∧ id ∈ s.pending
    · rw [if_pos hEntry]
      have hSame : (s.pending.filter (· ≠ id)).count id +
          ((s.inFlight ++ [(⟨id, .sendFailed, true⟩ : Delivery J)]).map (·.id)).count id =
            s.waits id := by
        have hOne := hFits.count_pending hEntry.2
        have hMore := ids_more s.inFlight id .sendFailed true
        unfold RuntimeProxy.waits
        rw [count_filter_self, hMore, hOne]
        omega
      refine h.set id _ h.alive rfl (fun _ hr => hr)
        (fun j hNe => ⟨waits_take (fun d hd => List.mem_singleton.mp hd ▸ rfl) hNe,
          fun hj => (List.mem_filter.mp hj).1⟩) hLt ?_ fun d hd => ?_
      · show Fits s.replied _ ((s.pending.filter (· ≠ id)).count id + _) id _
        rw [hSame]
        exact ⟨hFits.bounded, fun _ => trivial, fun hSync _ => hFits.once hSync trivial, hFits.own,
          fun json hPhase => (by cases hPhase), fun _ => hGone⟩
      · rcases List.mem_append.mp hd with hOld | hNew
        · exact h.own d hOld
        · rw [List.mem_singleton.mp hNew]
          rfl
    · rw [if_neg hEntry]
      have hFewer : (s.pending.filter (· ≠ id)).count id + (s.inFlight.map (·.id)).count id ≤
          s.waits id := by
        unfold RuntimeProxy.waits
        rw [count_filter_self]
        omega
      have hSame : sync = false →
          (s.pending.filter (· ≠ id)).count id + (s.inFlight.map (·.id)).count id = s.waits id := by
        intro hSync
        have hNot : id ∉ s.pending := fun hId => hEntry ⟨hSync, hId⟩
        unfold RuntimeProxy.waits
        rw [count_filter_self, List.count_eq_zero.mpr hNot]
      refine h.set id _ h.alive rfl (fun _ hr => hr) (fun j hNe => ⟨?_, fun hj => (List.mem_filter.mp hj).1⟩)
        hLt ⟨?_, fun _ => trivial, fun hSync _ => ?_, hFits.own, fun json hPhase => (by cases hPhase),
          fun _ => hGone⟩ h.own
      · show (s.pending.filter (· ≠ id)).count j + _ = s.pending.count j + _
        rw [count_filter_ne hNe]
      · exact Nat.le_trans (Nat.add_le_add_right hFewer _) hFits.bounded
      · exact (congrArg (· + got.length) (hSame hSync)).trans (hFits.once hSync trivial)
  · exact h

theorem Sound.logged (h : Sound s) (id : Nat) (response : J) : Sound (s.logged id response) := by
  have hMore : ∀ reply ∈ s.replied, reply ∈ s.replied ++ [(id, response)] :=
    fun _ hr => List.mem_append_left _ hr
  refine h.entries h.alive rfl (fun _ => Nat.le_refl _) (fun j callj hAt => ?_)
    fun d hd => (h.own d hd).mono hMore
  have hFits := h.fits j callj hAt
  exact ⟨hFits.bounded, hFits.registered, hFits.once, fun got hGot => (hFits.own got hGot).mono hMore,
    fun json hPhase => hMore _ (hFits.answered json hPhase), hFits.gone⟩

theorem Sound.take (h : Sound s) {response : J} {kind : Option String} (hId : id ∈ s.pending)
    (hReply : (id, response) ∈ s.replied)
    (hKind : ∀ call, s.calls[id]? = some call → call.sync = false → kind ≠ none) :
    Sound (s.take id response kind) := by
  have hOther : ∀ j ≠ id, (s.take id response kind).waits j = s.waits j := by
    intro j hNe
    cases kind with
    | none =>
      show (s.pending.filter (· ≠ id)).count j + (s.inFlight.map (·.id)).count j = s.waits j
      rw [count_filter_ne hNe]
      rfl
    | some kind => exact waits_take (fun d hd => List.mem_singleton.mp hd ▸ rfl) hNe
  have hSelf : s.pending.count id = 1 →
      (s.take id response kind).waits id + (if kind = none then 1 else 0) = s.waits id := by
    intro hOne
    cases kind with
    | none =>
      show (s.pending.filter (· ≠ id)).count id + (s.inFlight.map (·.id)).count id + 1 =
        s.pending.count id + (s.inFlight.map (·.id)).count id
      rw [count_filter_self, hOne]
      omega
    | some kind =>
      have hMore := ids_more s.inFlight id (.response response) (decide (kind = "err"))
      have hNone := count_filter_self s.pending id
      show (s.pending.filter (· ≠ id)).count id + _ + 0 =
        s.pending.count id + (s.inFlight.map (·.id)).count id
      rw [hNone, hOne, Nat.add_zero, Nat.zero_add, Nat.add_comm 1]
      exact hMore
  have hAt := List.getElem?_eq_getElem (h.known id (RuntimeProxy.waits_pos hId))
  have hFits := h.fits id _ hAt
  have hSelf := hSelf (hFits.count_pending hId)
  have hGone : id ∉ s.pending.filter (· ≠ id) := by simp
  refine h.entries h.alive rfl (fun j => ?_) (fun j callj hAtj => ?_) fun d hd => ?_
  · by_cases hSame : j = id
    · subst hSame
      omega
    · exact Nat.le_of_eq (hOther j hSame)
  · have hj := h.fits j callj hAtj
    by_cases hSame : j = id
    · subst hSame
      refine ⟨?_, fun _ => hj.registered ?_, fun hSync hReg => ?_, hj.own, hj.answered, fun _ => hGone⟩
      · have := hj.bounded
        omega
      · have := RuntimeProxy.waits_pos hId
        omega
      · rw [if_neg (hKind callj hAtj hSync), Nat.add_zero] at hSelf
        rw [hSelf]
        exact hj.once hSync hReg
    · rw [hOther j hSame]
      exact ⟨hj.bounded, hj.registered, hj.once, hj.own, hj.answered,
        fun hOver hIdj => hj.gone hOver (List.mem_filter.mp hIdj).1⟩
  · cases kind with
    | none => exact h.own d hd
    | some kind =>
      rcases List.mem_append.mp hd with hOld | hNew
      · exact h.own d hOld
      · rw [List.mem_singleton.mp hNew]
        exact hReply

theorem Sound.reply (h : Sound s) {response : J} {kind : Option String}
    (hMeets : Meets s (.reply id response kind)) : Sound (s.handleControlReply id response kind) := by
  unfold RuntimeProxy.handleControlReply
  split
  · rename_i hId
    exact (h.logged id response).take hId (List.mem_append_right _ (List.mem_singleton_self _))
      (hMeets hId)
  · exact h.logged id response

theorem Sound.restart (h : Sound s) : Sound s.handleBridgeRestarting := by
  have hWaits : ∀ j, s.handleBridgeRestarting.waits j = s.waits j := by
    intro j
    have hIds : (s.handleBridgeRestarting.inFlight.map (·.id)) =
        s.inFlight.map (·.id) ++ s.pending := by
      unfold RuntimeProxy.handleBridgeRestarting
      rw [List.map_append, List.map_map]
      exact congrArg (_ ++ ·) (List.map_id' s.pending)
    show 0 + (s.handleBridgeRestarting.inFlight.map (·.id)).count j = _
    rw [hIds, List.count_append, Nat.zero_add, Nat.add_comm]
    rfl
  refine h.entries h.alive rfl (fun j => Nat.le_of_eq (hWaits j)) (fun j callj hAt => ?_) fun d hd => ?_
  · have hj := h.fits j callj hAt
    rw [hWaits]
    exact ⟨hj.bounded, hj.registered, hj.once, hj.own, hj.answered, fun _ => List.not_mem_nil⟩
  · rcases List.mem_append.mp hd with hOld | hNew
    · exact h.own d hOld
    · obtain ⟨id, -, rfl⟩ := List.mem_map.mp hNew
      rfl

theorem ids_erased {place : Nat} {d : Delivery J} (hAt : s.inFlight[place]? = some d) (j : Nat) :
    ((s.inFlight.eraseIdx place).map (·.id)).count j + (if d.id = j then 1 else 0) =
      (s.inFlight.map (·.id)).count j := by
  obtain ⟨hLt, hGet⟩ := List.getElem?_eq_some_iff.mp hAt
  have hPerm := (List.getElem_cons_eraseIdx_perm hLt).map (·.id)
  rw [← hPerm.count_eq j, List.map_cons, List.count_cons, hGet]
  congr 1
  simp only [beq_iff_eq]

theorem Sound.deliver (h : Sound s) (place : Nat) : Sound (s.deliver place) := by
  unfold RuntimeProxy.deliver
  split
  · rename_i d hAt
    have hIds := ids_erased hAt
    have hTaken : 0 < (s.inFlight.map (·.id)).count d.id :=
      List.count_pos_iff.mpr (List.mem_map.mpr ⟨d, List.mem_of_getElem? hAt, rfl⟩)
    have hLt := h.known d.id (Nat.add_pos_right _ hTaken)
    have hCall := List.getElem?_eq_getElem hLt
    have hFits := h.fits d.id _ hCall
    have hSelf : s.pending.count d.id + ((s.inFlight.eraseIdx place).map (·.id)).count d.id + 1 =
        s.waits d.id := by
      have := hIds d.id
      rw [if_pos rfl] at this
      unfold RuntimeProxy.waits
      omega
    have hSum : s.pending.count d.id + ((s.inFlight.eraseIdx place).map (·.id)).count d.id +
        (s.calls[d.id].got ++ [(d.payload, d.isError)]).length =
          s.waits d.id + s.calls[d.id].got.length := by
      rw [List.length_append, List.length_singleton]
      omega
    have hReg : s.calls[d.id].Registered := hFits.registered (by omega)
    refine h.set d.id { s.calls[d.id] with got := s.calls[d.id].got ++ [(d.payload, d.isError)] }
      h.alive ?_ (fun _ hr => hr) (fun j hNe => ⟨?_, fun hj => hj⟩) hLt
      ⟨Nat.le_trans (Nat.le_of_eq hSum) hFits.bounded, fun _ => hReg,
        fun hSync _ => hSum.trans (hFits.once hSync hReg), fun got hGot => ?_, hFits.answered,
        fun _ hId => ?_⟩
      fun d' hd => h.own d' (List.mem_of_mem_eraseIdx hd)
    · exact List.modify_eq_set_get _ hLt
    · have := hIds j
      rw [if_neg (Ne.symm hNe)] at this
      exact congrArg (s.pending.count j + ·) this
    · rcases List.mem_append.mp hGot with hOld | hNew
      · exact hFits.own got hOld
      · rw [List.mem_singleton.mp hNew]
        exact h.own d (List.mem_of_getElem? hAt)
    · have := hFits.count_pending hId
      have := hFits.bounded
      omega
  · exact h

theorem Sound.drain (h : Sound s) : Sound s.detachDrain := by
  unfold RuntimeProxy.detachDrain
  split
  · refine ⟨h.alive, fun j callj hAt => ?_, fun j hj => ?_, h.own⟩
    · have hAt : (s.calls.mapIdx _)[j]? = some callj := hAt
      rw [List.getElem?_mapIdx] at hAt
      obtain ⟨call, hCall, rfl⟩ := Option.map_eq_some_iff.mp hAt
      have hj := h.fits j call hCall
      show Fits s.replied [] (0 + (s.inFlight.map (·.id)).count j) j _
      rw [Nat.zero_add]
      split
      · rename_i hId
        have hOne := hj.count_pending hId
        have hSum : (s.inFlight.map (·.id)).count j + (call.got ++ [(Payload.detached, true)]).length =
            s.waits j + call.got.length := by
          unfold RuntimeProxy.waits
          rw [List.length_append, List.length_singleton]
          omega
        have hReg : call.Registered :=
          hj.registered (Nat.add_pos_left (RuntimeProxy.waits_pos hId) _)
        refine ⟨Nat.le_trans (Nat.le_of_eq hSum) hj.bounded, fun _ => hReg,
          fun hSync _ => hSum.trans (hj.once hSync hReg), fun got hGot => ?_, hj.answered,
          fun _ => List.not_mem_nil⟩
        rcases List.mem_append.mp hGot with hOld | hNew
        · exact hj.own got hOld
        · rw [List.mem_singleton.mp hNew]
          rfl
      · rename_i hId
        have hSame : (s.inFlight.map (·.id)).count j = s.waits j := by
          unfold RuntimeProxy.waits
          rw [List.count_eq_zero.mpr hId, Nat.zero_add]
        rw [hSame]
        exact ⟨hj.bounded, hj.registered, hj.once, hj.own, hj.answered, fun _ => List.not_mem_nil⟩
    · show j < (s.calls.mapIdx _).length
      rw [List.length_mapIdx]
      refine h.known j (Nat.lt_of_lt_of_le hj ?_)
      show 0 + (s.inFlight.map (·.id)).count j ≤ s.pending.count j + (s.inFlight.map (·.id)).count j
      omega
  · exact h

theorem Sound.step {e : Event J} (h : Sound s) (hMeets : Meets s e) :
    Sound (RuntimeProxy.step s e) := by
  unfold RuntimeProxy.step
  rw [h.alive]
  cases e with
  | attach | detach => exact ⟨h.alive, h.fits, h.known, h.own⟩
  | drain => exact h.drain
  | send sync => exact h.send sync
  | register id => exact h.register id
  | invoke id ok => exact h.invoke hMeets
  | fail id => exact h.fail id
  | wake id => exact h.wake id
  | timeOut id => exact h.timeOut hMeets
  | reply id response kind => exact h.reply hMeets
  | restart => exact h.restart
  | deliver place => exact h.deliver place

theorem Sound.meets {e : Event J} (h : Sound s) (hSettled : Settled (RuntimeProxy.step s e)) :
    Meets s e := by
  unfold RuntimeProxy.step at hSettled
  rw [h.alive] at hSettled
  cases e with
  | invoke id ok =>
    intro sync got hAt
    by_contra hNot
    have hAlive : (s.invoke id ok).crashed = false := hSettled.alive
    unfold RuntimeProxy.invoke at hAlive
    rw [hAt] at hAlive
    exact absurd ((congrArg RuntimeProxy.crashed (if_neg hNot)).symm.trans hAlive) Bool.noConfusion
  | timeOut id =>
    intro hAt hId
    have hOut : s.timeOut id = { s with calls := s.calls.set id ⟨true, .failed, []⟩ } := by
      unfold RuntimeProxy.timeOut
      rw [hAt]
    obtain ⟨call, hCall, hOpen⟩ := (show Settled (s.timeOut id) from hSettled).clean id (by rwa [hOut])
    rw [hOut] at hCall
    have hCall : (s.calls.set id _)[id]? = some call := hCall
    rw [List.getElem?_set_self (List.getElem?_eq_some_iff.mp hAt).1] at hCall
    obtain rfl := Option.some.inj hCall
    exact hOpen trivial
  | reply id response kind =>
    intro hId call hAt hSync hNone
    have hTake : s.handleControlReply id response kind =
        { s.logged id response with pending := s.pending.filter (· ≠ id) } := by
      unfold RuntimeProxy.handleControlReply
      rw [if_pos hId, hNone]
      rfl
    have hFits := h.fits id call hAt
    have hReg := hFits.registered (Nat.add_pos_left (RuntimeProxy.waits_pos hId) _)
    have hOnce := (show Settled (s.handleControlReply id response kind) from hSettled).once id call
      (by rwa [hTake]) hSync hReg
    have hLess : (s.handleControlReply id response kind).waits id + 1 = s.waits id := by
      have := hFits.count_pending hId
      rw [hTake]
      show (s.pending.filter (· ≠ id)).count id + (s.inFlight.map (·.id)).count id + 1 =
        s.pending.count id + (s.inFlight.map (·.id)).count id
      rw [count_filter_self]
      omega
    have := hFits.once hSync hReg
    omega
  | attach | detach | drain | send | register | fail | wake | restart | deliver => trivial

/-- In every run every request is answered once, and leaves no entry when it is over, exactly if every
step meets the condition. -/
theorem requests_iff (es : List (Event J)) :
    History.Each step (fun s e => Settled (step s e)) .new es ↔ History.Each step Meets .new es :=
  History.each_congr (I := Sound) sound_new (fun _ _ h hSettled => h.step (h.meets hSettled))
    (fun _ _ h => ⟨h.meets, fun hMeets => (h.step hMeets).settled⟩) es

/-- `SendControlSync` gives up, and its entry remains. -/
theorem entry_left :
    ¬History.Each step (fun s e => Settled (step s e)) (.new : RuntimeProxy Nat)
      [.attach, .send true, .register 0, .invoke 0 true, .timeOut 0] := by
  rintro ⟨-, -, -, -, hSettled, -⟩
  obtain ⟨call, hAt, hOpen⟩ := hSettled.clean 0 (List.mem_singleton_self 0)
  obtain rfl : ⟨true, .failed, []⟩ = call := Option.some.inj hAt
  exact hOpen trivial

end Cronymax.Proxy
