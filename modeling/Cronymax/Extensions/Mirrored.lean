import Mathlib.Data.List.Nodup
import Cronymax.Atomic.History
import Cronymax.Table.Edits
import Mathlib.Logic.Function.Basic

/-! The registrations of an extension: its own tables, in the bootstrap script of its host, and those of
the platform, which follow by notifies.  The connection spawns a task for each notify, and the tasks run
in any order. -/

namespace Cronymax.Extensions.Registrations

variable {T H K : Type*} [DecidableEq T] [DecidableEq H] [DecidableEq K]

/-- What `on` returns. -/
structure Listener (T H : Type*) where
  topic : T
  handler : H
  live : Bool

/-- A notification to the platform. -/
inductive Notify (T K : Type*) where
  | subscribe (topic : T)
  | unsubscribe (topic : T)
  | register (id : K)
  | unregister (id : K)
  deriving DecidableEq

def Notify.key : Notify T K → T ⊕ K
  | .subscribe topic | .unsubscribe topic => .inl topic
  | .register id | .unregister id => .inr id

/-- The tables of the platform. -/
@[ext]
structure Platform (T K : Type*) where
  subscriptions : T → Nat
  registered : K → Bool

/-- What the platform lets the extension do. -/
structure Allowed (T K : Type*) where
  topic : T → Bool
  id : K → Bool

namespace Platform

variable (allowed : Allowed T K) (p : Platform T K)

/-- What a notification does on the platform. -/
def handle : Notify T K → Platform T K
  | .subscribe topic =>
    if allowed.topic topic then
      { p with subscriptions := Function.update p.subscriptions topic (p.subscriptions topic + 1) }
    else p
  | .unsubscribe topic => { p with subscriptions := Function.update p.subscriptions topic 0 }
  | .register id =>
    if allowed.id id then { p with registered := Function.update p.registered id true } else p
  | .unregister id => { p with registered := Function.update p.registered id false }

end Platform

/-- The extension's side with the notifications on their way. -/
structure Extension (T H K : Type*) where
  eventHandlers : T → List H
  listeners : List (Listener T H)
  registrations : List K
  lastCall : K → Bool
  platform : Platform T K
  pending : List (Notify T K)

inductive Event (T H K : Type*) where
  | on (topic : T) (handler : H)
  /-- `dispose` of a listener. -/
  | off (listener : Nat)
  | register (id : K)
  | dispose (registration : Nat)
  | handle (notify : Nat)

namespace Extension

variable (allowed : Allowed T K) (s : Extension T H K)

def new : Extension T H K := ⟨fun _ => [], [], [], fun _ => false, ⟨fun _ => 0, fun _ => false⟩, []⟩

def rpcNotify (n : Notify T K) : Extension T H K := { s with pending := s.pending ++ [n] }

/-- `on`: the platform is told of the first handler only. -/
def on (topic : T) (handler : H) : Extension T H K :=
  let t := { s with
    eventHandlers := Function.update s.eventHandlers topic ((s.eventHandlers topic).insert handler)
    listeners := s.listeners ++ [⟨topic, handler, true⟩] }
  if s.eventHandlers topic = [] then t.rpcNotify (.subscribe topic) else t

/-- The handler goes; with the last one the platform is told. -/
def leave (topic : T) (handler : H) : Extension T H K :=
  if s.eventHandlers topic = [] then s
  else
    let rest := (s.eventHandlers topic).erase handler
    let t := { s with eventHandlers := Function.update s.eventHandlers topic rest }
    if rest = [] then t.rpcNotify (.unsubscribe topic) else t

def off (i : Nat) : Extension T H K :=
  match s.listeners[i]? with
  | some l =>
    { s with listeners := s.listeners.set i { l with live := false } }.leave l.topic l.handler
  | none => s

/-- A registration; the platform is told each time. -/
def register (id : K) : Extension T H K :=
  { s with
    registrations := s.registrations ++ [id]
    lastCall := Function.update s.lastCall id true }.rpcNotify (.register id)

def dispose (i : Nat) : Extension T H K :=
  match s.registrations[i]? with
  | some id => { s with lastCall := Function.update s.lastCall id false }.rpcNotify (.unregister id)
  | none => s

def handle (i : Nat) : Extension T H K :=
  match s.pending[i]? with
  | some n => { s with pending := s.pending.eraseIdx i, platform := s.platform.handle allowed n }
  | none => s

/-- The handlers that an event on the topic calls. -/
def fired (topic : T) : List H :=
  (List.replicate (s.platform.subscriptions topic) (s.eventHandlers topic)).flatten

def step (s : Extension T H K) : Event T H K → Extension T H K
  | .on topic handler => s.on topic handler
  | .off i => s.off i
  | .register id => s.register id
  | .dispose i => s.dispose i
  | .handle i => s.handle allowed i

end Extension

end Cronymax.Extensions.Registrations

/-! Which runs leave the platform with the registrations of the extension.  If the notifies that are
still to be handled were handled in their order, the tables of the platform would be those of the
extension; this is kept by every call of the extension, and by a task that does not overtake a notify
about the same topic or id. -/

namespace Cronymax.Extensions.Registrations

open Atomic
open Extension (step)

variable {T H K : Type*}

/-- A listener that has not been disposed. -/
def Live (s : Extension T H K) (topic : T) (handler : H) : Prop :=
  ∃ (i : Nat) (l : Listener T H),
    s.listeners[i]? = some l ∧ l.live = true ∧ l.topic = topic ∧ l.handler = handler

/-- The platform mirrors the extension. -/
structure Mirrored [DecidableEq H] (allowed : Allowed T K) (s : Extension T H K) : Prop where
  topics : ∀ topic, allowed.topic topic = true →
    s.platform.subscriptions topic ≤ 1 ∧
      (s.platform.subscriptions topic = 1 ↔ ∃ handler, Live s topic handler)
  ids : ∀ id, s.platform.registered id = true ↔ s.lastCall id = true ∧ allowed.id id = true
  events : ∀ topic handler, allowed.topic topic = true →
    (Live s topic handler → (s.fired topic).count handler = 1) ∧
      (¬Live s topic handler → handler ∉ s.fired topic)

/-- What is disposed is not there twice. -/
def Meets (s : Extension T H K) : Event T H K → Prop
  | .off i => ∀ l, s.listeners[i]? = some l → ∀ j ≠ i, ∀ other, s.listeners[j]? = some other →
    other.live = true → other.topic = l.topic → other.handler ≠ l.handler
  | .handle i => ∀ n, s.pending[i]? = some n → ∀ j < i, ∀ earlier, s.pending[j]? = some earlier →
    earlier.key = n.key → earlier = n
  | _ => True

/-- The platform as the extension's side would have it. -/
@[grind =] def mirror (allowed : Allowed T K) (s : Extension T H K) : Platform T K :=
  ⟨fun topic => if s.eventHandlers topic ≠ [] ∧ allowed.topic topic = true then 1 else 0,
    fun id => s.lastCall id && allowed.id id⟩

variable {allowed : Allowed T K} {s t : Extension T H K}

theorem live_more {topic other : T} {handler handler' : H}
    (h : t.listeners = s.listeners ++ [⟨topic, handler, true⟩]) :
    Live t other handler' ↔ Live s other handler' ∨ other = topic ∧ handler' = handler := by
  unfold Live
  rw [h]
  constructor
  · rintro ⟨i, l, hAt, hLive, hTopic, hHandler⟩
    rcases Nat.lt_or_ge i s.listeners.length with hLess | hLast
    · exact .inl ⟨i, l, (List.getElem?_append_left hLess).symm.trans hAt, hLive, hTopic, hHandler⟩
    · rw [List.getElem?_append_right hLast] at hAt
      obtain rfl := List.mem_singleton.1 (List.mem_of_getElem? hAt)
      exact .inr ⟨hTopic.symm, hHandler.symm⟩
  · rintro (⟨i, l, hAt, hRest⟩ | ⟨rfl, rfl⟩)
    · obtain ⟨hLess, -⟩ := List.getElem?_eq_some_iff.1 hAt
      exact ⟨i, l, (List.getElem?_append_left hLess).trans hAt, hRest⟩
    · exact ⟨_, _, List.getElem?_concat_length, rfl, rfl, rfl⟩

theorem live_less {i : Nat} {l : Listener T H} (hAt : s.listeners[i]? = some l)
    (hOnly : ∀ j ≠ i, ∀ other, s.listeners[j]? = some other →
      other.live = true → other.topic = l.topic → other.handler ≠ l.handler)
    (h : t.listeners = s.listeners.set i { l with live := false }) {topic : T} {handler : H} :
    Live t topic handler ↔ Live s topic handler ∧ ¬(topic = l.topic ∧ handler = l.handler) := by
  unfold Live
  rw [h]
  constructor
  · rintro ⟨j, other, hOther, hLive, rfl, rfl⟩
    have hNe : j ≠ i := by
      rintro rfl
      rw [List.getElem?_set_self (List.getElem?_eq_some_iff.1 hAt).1] at hOther
      rw [← Option.some.inj hOther] at hLive
      cases hLive
    rw [List.getElem?_set_ne (Ne.symm hNe)] at hOther
    exact ⟨⟨j, other, hOther, hLive, rfl, rfl⟩, fun hSame =>
      hOnly j hNe other hOther hLive hSame.1 hSame.2⟩
  · rintro ⟨⟨j, other, hOther, hLive, rfl, rfl⟩, hDiffers⟩
    have hNe : i ≠ j := by
      rintro rfl
      rw [hAt] at hOther
      obtain rfl := Option.some.inj hOther
      exact hDiffers ⟨rfl, rfl⟩
    exact ⟨j, other, (List.getElem?_set_ne hNe).trans hOther, hLive, rfl, rfl⟩

section Topics

variable [DecidableEq T]

def Notify.onTopic (allowed : Allowed T K) (topic : T) (count : Nat) : Notify T K → Nat
  | .subscribe other => if other = topic ∧ allowed.topic other = true then count + 1 else count
  | .unsubscribe other => if other = topic then 0 else count
  | _ => count

theorem onTopic_other {n : Notify T K} {topic : T} (h : n.key ≠ .inl topic) (count : Nat) :
    n.onTopic allowed topic count = count := by
  cases n with
  | subscribe other => exact if_neg fun hSame => h (congrArg Sum.inl hSame.1)
  | unsubscribe other => exact if_neg fun hSame => h (congrArg Sum.inl hSame)
  | register | unregister => rfl

variable {topic : T} {bucket : List H}
  (hHandlers : t.eventHandlers = Function.update s.eventHandlers topic bucket)

include hHandlers

theorem bucket_self : t.eventHandlers topic = bucket := by
  rw [hHandlers, Function.update_self]

theorem bucket_other {other : T} (h : other ≠ topic) :
    t.eventHandlers other = s.eventHandlers other := by
  rw [hHandlers, Function.update_of_ne h]

theorem mirror_kept (hCalls : t.lastCall = s.lastCall)
    (hEmpty : bucket = [] ↔ s.eventHandlers topic = []) :
    mirror allowed t = mirror allowed s := by
  refine Platform.ext (funext fun other => ?_) (funext fun id => ?_)
  · have hSame : t.eventHandlers other = [] ↔ s.eventHandlers other = [] := by
      by_cases hTopic : other = topic
      · rw [hTopic, bucket_self hHandlers]
        exact hEmpty
      · rw [bucket_other hHandlers hTopic]
    exact if_congr (and_congr_left' (not_congr hSame)) rfl rfl
  · show (t.lastCall id && _) = _
    rw [hCalls]
    rfl

end Topics

section Leaving

variable [DecidableEq T] [DecidableEq H] {topic : T} {handler : H}

theorem leave_listeners : (s.leave topic handler).listeners = s.listeners := by
  unfold Extension.leave
  split
  · rfl
  · dsimp only
    split <;> rfl

theorem leave_lastCall : (s.leave topic handler).lastCall = s.lastCall := by
  unfold Extension.leave
  split
  · rfl
  · dsimp only
    split <;> rfl

theorem leave_eventHandlers : (s.leave topic handler).eventHandlers =
    Function.update s.eventHandlers topic ((s.eventHandlers topic).erase handler) := by
  unfold Extension.leave
  split
  · rename_i hNone
    rw [hNone, List.erase_nil, ← hNone, Function.update_eq_self]
  · dsimp only
    split <;> rfl

end Leaving

section Ids

variable [DecidableEq K]

def Notify.onId (allowed : Allowed T K) (id : K) (registered : Bool) : Notify T K → Bool
  | .register other => if other = id ∧ allowed.id other = true then true else registered
  | .unregister other => if other = id then false else registered
  | _ => registered

theorem onId_other {n : Notify T K} {id : K} (h : n.key ≠ .inr id) (registered : Bool) :
    n.onId allowed id registered = registered := by
  cases n with
  | register other => exact if_neg fun hSame => h (congrArg Sum.inr hSame.1)
  | unregister other => exact if_neg fun hSame => h (congrArg Sum.inr hSame)
  | subscribe | unsubscribe => rfl

end Ids

variable [DecidableEq T] [DecidableEq K]

theorem handle_subscriptions (p : Platform T K) (n : Notify T K) (topic : T) :
    (p.handle allowed n).subscriptions topic = n.onTopic allowed topic (p.subscriptions topic) := by
  cases n with
  | subscribe other =>
    show (if allowed.topic other = true then _ else p).subscriptions topic =
      if other = topic ∧ allowed.topic other = true then _ else _
    by_cases hAllowed : allowed.topic other = true
    · rw [if_pos hAllowed]
      show Function.update p.subscriptions other _ topic = _
      by_cases hSame : other = topic
      · rw [hSame, Function.update_self, if_pos ⟨rfl, hSame ▸ hAllowed⟩]
      · rw [Function.update_of_ne (Ne.symm hSame), if_neg fun h => hSame h.1]
    · rw [if_neg hAllowed, if_neg fun h => hAllowed h.2]
  | unsubscribe other =>
    show Function.update p.subscriptions other 0 topic = if other = topic then 0 else _
    by_cases hSame : other = topic
    · rw [hSame, Function.update_self, if_pos rfl]
    · rw [Function.update_of_ne (Ne.symm hSame), if_neg hSame]
  | register id =>
    show (if allowed.id id = true then _ else p).subscriptions topic = _
    split <;> rfl
  | unregister id => rfl

theorem handle_registered (p : Platform T K) (n : Notify T K) (id : K) :
    (p.handle allowed n).registered id = n.onId allowed id (p.registered id) := by
  cases n with
  | register other =>
    show (if allowed.id other = true then _ else p).registered id =
      if other = id ∧ allowed.id other = true then _ else _
    by_cases hAllowed : allowed.id other = true
    · rw [if_pos hAllowed]
      show Function.update p.registered other _ id = _
      by_cases hSame : other = id
      · rw [hSame, Function.update_self, if_pos ⟨rfl, hSame ▸ hAllowed⟩]
      · rw [Function.update_of_ne (Ne.symm hSame), if_neg fun h => hSame h.1]
    · rw [if_neg hAllowed, if_neg fun h => hAllowed h.2]
  | unregister other =>
    show Function.update p.registered other false id = if other = id then false else _
    by_cases hSame : other = id
    · rw [hSame, Function.update_self, if_pos rfl]
    · rw [Function.update_of_ne (Ne.symm hSame), if_neg hSame]
  | subscribe topic =>
    show (if allowed.topic topic = true then _ else p).registered id = _
    split <;> rfl
  | unsubscribe topic => rfl

theorem handle_comm {n m : Notify T K} (h : m.key = n.key → m = n) (p : Platform T K) :
    (p.handle allowed m).handle allowed n = (p.handle allowed n).handle allowed m := by
  by_cases hSame : m.key = n.key
  · rw [h hSame]
  · refine Platform.ext (funext fun topic => ?_) (funext fun id => ?_)
    · simp only [handle_subscriptions]
      by_cases hKey : n.key = .inl topic
      · have hOther : m.key ≠ .inl topic := fun hm => hSame (hm.trans hKey.symm)
        rw [onTopic_other hOther, onTopic_other hOther]
      · rw [onTopic_other hKey, onTopic_other hKey]
    · simp only [handle_registered]
      by_cases hKey : n.key = .inr id
      · have hOther : m.key ≠ .inr id := fun hm => hSame (hm.trans hKey.symm)
        rw [onId_other hOther, onId_other hOther]
      · rw [onId_other hKey, onId_other hKey]

/-- If the pending notifies were handled in their order, the platform would have the tables that the
extension wants. -/
structure Sound (allowed : Allowed T K) (s : Extension T H K) : Prop where
  drained : s.pending.foldl (Platform.handle allowed) s.platform = mirror allowed s
  handlers : ∀ topic handler, handler ∈ s.eventHandlers topic ↔ Live s topic handler
  nodup : ∀ topic, (s.eventHandlers topic).Nodup

theorem sound_new (allowed : Allowed T K) : Sound allowed (.new : Extension T H K) where
  drained := Platform.ext (funext fun _ => rfl) (funext fun _ => rfl)
  handlers topic handler := by
    refine iff_of_false List.not_mem_nil ?_
    rintro ⟨i, l, hAt, -⟩
    cases hAt
  nodup _ := List.nodup_nil

theorem Sound.handle (h : Sound allowed s) {i : Nat} (hMeets : Meets s (.handle i)) :
    Sound allowed (s.handle allowed i) := by
  unfold Extension.handle
  split
  · rename_i n hAt
    refine ⟨?_, h.handlers, h.nodup⟩
    exact (Table.foldl_eraseIdx hAt
      (fun j hj m hm => handle_comm (hMeets n hAt j hj m hm)) s.platform).trans h.drained
  · exact h

theorem drained_more {n : Notify T K}
    (h : s.pending.foldl (Platform.handle allowed) s.platform = mirror allowed s)
    (hPlatform : t.platform = s.platform) (hPending : t.pending = s.pending ++ [n])
    (hMirror : (mirror allowed s).handle allowed n = mirror allowed t) :
    t.pending.foldl (Platform.handle allowed) t.platform = mirror allowed t := by
  rw [hPending, hPlatform, List.foldl_append, h]
  exact hMirror

section Buckets

variable {topic : T} {bucket : List H}
  (hHandlers : t.eventHandlers = Function.update s.eventHandlers topic bucket)
  (hCalls : t.lastCall = s.lastCall)

include hHandlers hCalls

theorem mirror_first (hFirst : s.eventHandlers topic = []) (hSome : bucket ≠ []) :
    (mirror allowed s).handle allowed (.subscribe topic) = mirror allowed t := by
  refine Platform.ext (funext fun other => ?_) (funext fun id => ?_)
  · rw [handle_subscriptions]
    by_cases hSame : other = topic
    · subst hSame
      simp [Notify.onTopic, mirror, hFirst, bucket_self hHandlers, hSome]
    · rw [onTopic_other (by rintro ⟨⟩; exact hSame rfl)]
      simp only [mirror, bucket_other hHandlers hSame]
  · rw [handle_registered, onId_other (by rintro ⟨⟩)]
    simp only [mirror, hCalls]

theorem mirror_last (hNone : bucket = []) :
    (mirror allowed s).handle allowed (.unsubscribe topic) = mirror allowed t := by
  refine Platform.ext (funext fun other => ?_) (funext fun id => ?_)
  · rw [handle_subscriptions]
    by_cases hSame : other = topic
    · subst hSame
      simp [Notify.onTopic, mirror, bucket_self hHandlers, hNone]
    · rw [onTopic_other (by rintro ⟨⟩; exact hSame rfl)]
      simp only [mirror, bucket_other hHandlers hSame]
  · rw [handle_registered, onId_other (by rintro ⟨⟩)]
    simp only [mirror, hCalls]

end Buckets

theorem mirror_register {id : K} (hHandlers : t.eventHandlers = s.eventHandlers)
    (hCalls : t.lastCall = Function.update s.lastCall id true) :
    (mirror allowed s).handle allowed (.register id) = mirror allowed t := by
  refine Platform.ext (funext fun topic => ?_) (funext fun other => ?_)
  · rw [handle_subscriptions, onTopic_other (by rintro ⟨⟩)]
    simp only [mirror, hHandlers]
  · rw [handle_registered]
    by_cases hSame : other = id
    · subst hSame
      simp [Notify.onId, mirror, hCalls]
    · rw [onId_other (by rintro ⟨⟩; exact hSame rfl)]
      simp only [mirror, hCalls, Function.update_of_ne hSame]

theorem mirror_unregister {id : K} (hHandlers : t.eventHandlers = s.eventHandlers)
    (hCalls : t.lastCall = Function.update s.lastCall id false) :
    (mirror allowed s).handle allowed (.unregister id) = mirror allowed t := by
  refine Platform.ext (funext fun topic => ?_) (funext fun other => ?_)
  · rw [handle_subscriptions, onTopic_other (by rintro ⟨⟩)]
    simp only [mirror, hHandlers]
  · rw [handle_registered]
    by_cases hSame : other = id
    · subst hSame
      simp [Notify.onId, mirror, hCalls]
    · rw [onId_other (by rintro ⟨⟩; exact hSame rfl)]
      simp only [mirror, hCalls, Function.update_of_ne hSame]

theorem Sound.bucket (h : Sound allowed s) {topic : T} {bucket : List H}
    (hHandlers : t.eventHandlers = Function.update s.eventHandlers topic bucket)
    (hDrained : t.pending.foldl (Platform.handle allowed) t.platform = mirror allowed t)
    (hTopic : ∀ handler, handler ∈ bucket ↔ Live t topic handler)
    (hOthers : ∀ other ≠ topic, ∀ handler, Live t other handler ↔ Live s other handler)
    (hNodup : bucket.Nodup) : Sound allowed t := by
  refine ⟨hDrained, fun other handler => ?_, fun other => ?_⟩
  · by_cases hSame : other = topic
    · subst hSame
      rw [bucket_self hHandlers]
      exact hTopic handler
    · rw [bucket_other hHandlers hSame, hOthers other hSame]
      exact h.handlers other handler
  · by_cases hSame : other = topic
    · subst hSame
      rw [bucket_self hHandlers]
      exact hNodup
    · rw [bucket_other hHandlers hSame]
      exact h.nodup other

theorem Sound.register (h : Sound allowed s) (id : K) : Sound allowed (s.register id) where
  drained := drained_more h.drained rfl rfl (mirror_register rfl rfl)
  handlers := h.handlers
  nodup := h.nodup

theorem Sound.dispose (h : Sound allowed s) (i : Nat) : Sound allowed (s.dispose i) := by
  unfold Extension.dispose
  split
  · exact ⟨drained_more h.drained rfl rfl (mirror_unregister rfl rfl), h.handlers, h.nodup⟩
  · exact h

section Calls

variable [DecidableEq H]

theorem Sound.on (h : Sound allowed s) (topic : T) (handler : H) :
    Sound allowed (s.on topic handler) := by
  have hMore : (s.on topic handler).listeners = s.listeners ++ [⟨topic, handler, true⟩] := by
    unfold Extension.on
    split <;> rfl
  have hSome : (s.eventHandlers topic).insert handler ≠ [] :=
    List.ne_nil_of_mem List.mem_insert_self
  have hHandlers : (s.on topic handler).eventHandlers =
      Function.update s.eventHandlers topic ((s.eventHandlers topic).insert handler) := by
    unfold Extension.on
    split <;> rfl
  have hCalls : (s.on topic handler).lastCall = s.lastCall := by
    unfold Extension.on
    split <;> rfl
  refine h.bucket hHandlers ?_ (fun handler' => ?_) (fun other hNe handler' => ?_)
    (h.nodup topic).insert
  · by_cases hFirst : s.eventHandlers topic = []
    · have hOn : s.on topic handler = Extension.rpcNotify _ (.subscribe topic) := if_pos hFirst
      refine drained_more h.drained ?_ ?_ (mirror_first hHandlers hCalls hFirst hSome)
      · rw [hOn]
        rfl
      · rw [hOn]
        rfl
    · have hOn : s.on topic handler = _ := if_neg hFirst
      rw [mirror_kept hHandlers hCalls (iff_of_false hSome hFirst), ← h.drained, hOn]
  · rw [live_more hMore, List.mem_insert_iff, h.handlers, or_comm, eq_self, true_and]
  · rw [live_more hMore, or_iff_left fun hBoth => hNe hBoth.1]

theorem Sound.off (h : Sound allowed s) {i : Nat} (hMeets : Meets s (.off i)) :
    Sound allowed (s.off i) := by
  unfold Extension.off
  split
  · rename_i l hAt
    let u : Extension T H K := { s with listeners := s.listeners.set i { l with live := false } }
    show Sound allowed (u.leave l.topic l.handler)
    have hLess : (u.leave l.topic l.handler).listeners = u.listeners := leave_listeners
    have hLive : ∀ {topic handler}, Live (u.leave l.topic l.handler) topic handler ↔ _ :=
      live_less hAt (hMeets l hAt) hLess
    have hCalls : (u.leave l.topic l.handler).lastCall = s.lastCall := leave_lastCall
    have hHandlers : (u.leave l.topic l.handler).eventHandlers =
        Function.update s.eventHandlers l.topic ((s.eventHandlers l.topic).erase l.handler) :=
      leave_eventHandlers
    refine h.bucket hHandlers ?_ (fun handler => ?_) (fun other hNe handler => ?_)
      ((h.nodup l.topic).erase l.handler)
    · by_cases hNone : s.eventHandlers l.topic = []
      · have hLeave : u.leave l.topic l.handler = u := if_pos hNone
        have hRest : (s.eventHandlers l.topic).erase l.handler = [] := by
          rw [hNone]
          rfl
        rw [mirror_kept hHandlers hCalls (iff_of_true hRest hNone), ← h.drained, hLeave]
      · by_cases hRest : (s.eventHandlers l.topic).erase l.handler = []
        · have hLeave : u.leave l.topic l.handler = Extension.rpcNotify _ (.unsubscribe l.topic) :=
            (if_neg hNone).trans (if_pos hRest)
          refine drained_more h.drained ?_ ?_ (mirror_last hHandlers hCalls hRest)
          · rw [hLeave]
            rfl
          · rw [hLeave]
            rfl
        · have hLeave : u.leave l.topic l.handler = _ := (if_neg hNone).trans (if_neg hRest)
          rw [mirror_kept hHandlers hCalls (iff_of_false hRest hNone), ← h.drained, hLeave]
    · rw [hLive, (h.nodup _).mem_erase_iff, h.handlers, and_comm, eq_self, true_and]
    · rw [hLive, and_iff_left fun hBoth => hNe hBoth.1]
  · exact h

theorem Sound.next (h : Sound allowed s) {e : Event T H K} (hMeets : Meets s e) :
    Sound allowed (step allowed s e) := by
  cases e with
  | on topic handler => exact h.on topic handler
  | off i => exact h.off hMeets
  | register id => exact h.register id
  | dispose i => exact h.dispose i
  | handle i => exact h.handle hMeets

theorem Sound.mirrored (h : Sound allowed s) (hHandled : s.pending = []) : Mirrored allowed s := by
  have hPlatform : s.platform = mirror allowed s := by
    have hDrained := h.drained
    rwa [hHandled] at hDrained
  have hCount : ∀ topic, allowed.topic topic = true →
      s.platform.subscriptions topic = if s.eventHandlers topic ≠ [] then 1 else 0 := by
    intro topic hTopic
    rw [hPlatform]
    exact if_congr (and_iff_left hTopic) rfl rfl
  have hListened : ∀ topic, s.eventHandlers topic ≠ [] ↔ ∃ handler, Live s topic handler := by
    intro topic
    constructor
    · intro hNe
      obtain ⟨handler, hIn⟩ := List.exists_mem_of_ne_nil _ hNe
      exact ⟨handler, (h.handlers topic handler).1 hIn⟩
    · rintro ⟨handler, hLive⟩
      exact List.ne_nil_of_mem ((h.handlers topic handler).2 hLive)
  refine ⟨fun topic hTopic => ?_, fun id => ?_, fun topic handler hTopic => ?_⟩
  · rw [hCount topic hTopic, ← hListened]
    by_cases hSome : s.eventHandlers topic ≠ []
    · rw [if_pos hSome]
      exact ⟨Nat.le_refl 1, iff_of_true rfl hSome⟩
    · rw [if_neg hSome]
      exact ⟨Nat.zero_le 1, iff_of_false Nat.zero_ne_one hSome⟩
  · rw [hPlatform]
    exact Bool.and_eq_true_iff
  · have hFired : handler ∈ s.fired topic → handler ∈ s.eventHandlers topic := by
      intro hIn
      obtain ⟨handlers, hOne, hHandler⟩ := List.mem_flatten.1 hIn
      exact List.eq_of_mem_replicate hOne ▸ hHandler
    refine ⟨fun hLive => ?_, fun hNot hIn => hNot ((h.handlers topic handler).1 (hFired hIn))⟩
    have hIn := (h.handlers topic handler).2 hLive
    have hOnce : s.fired topic = s.eventHandlers topic := by
      unfold Extension.fired
      rw [hCount topic hTopic, if_pos (List.ne_nil_of_mem hIn)]
      exact List.append_nil _
    rw [hOnce]
    exact List.count_eq_one_of_mem (h.nodup topic) hIn

/-- In every run whose steps meet the condition the platform mirrors the extension whenever all the
notifies have been handled. -/
theorem platform_mirrors (allowed : Allowed T K) (es : List (Event T H K))
    (hMeets : History.Each (step allowed) Meets .new es) :
    History.Each (step allowed)
      (fun s e => (step allowed s e).pending = [] → Mirrored allowed (step allowed s e)) .new es :=
  History.each_of_invariant (I := Sound allowed)
    (fun _ _ h hMeets => ⟨h.next hMeets, (h.next hMeets).mirrored⟩) hMeets (sound_new allowed)

/-- A registration overtakes a subscription, and the listener is disposed when both have been handled. -/
theorem platform_mirrors_overtaking :
    History.Each (step ⟨fun _ => true, fun _ => true⟩)
      (fun s e => (step ⟨fun _ => true, fun _ => true⟩ s e).pending = [] →
        Mirrored ⟨fun _ => true, fun _ => true⟩ (step ⟨fun _ => true, fun _ => true⟩ s e))
      (.new : Extension Nat Nat Nat)
      [.on 0 0, .register 0, .handle 1, .handle 0, .off 0, .handle 0] := by
  refine platform_mirrors _ _ ⟨trivial, trivial, ?_, ?_, ?_, ?_, trivial⟩
  · rintro n hAt j hLess earlier hEarlier hKey
    obtain rfl : j = 0 := Nat.lt_one_iff.1 hLess
    cases hAt
    cases hEarlier
    cases hKey
  · exact fun _ _ j hLess => absurd hLess (Nat.not_lt_zero j)
  · rintro l - j hNe other hOther
    cases j with
    | zero => exact absurd rfl hNe
    | succ j => cases hOther
  · exact fun _ _ j hLess => absurd hLess (Nat.not_lt_zero j)

/-- A listener is disposed at once, and its `events/unsubscribe` is handled before its
`events/subscribe`. -/
theorem subscription_stays :
    ¬History.Each (step ⟨fun _ => true, fun _ => true⟩)
      (fun s e => (step ⟨fun _ => true, fun _ => true⟩ s e).pending = [] →
        Mirrored ⟨fun _ => true, fun _ => true⟩ (step ⟨fun _ => true, fun _ => true⟩ s e))
      (.new : Extension Nat Nat Nat) [.on 0 0, .off 0, .handle 1, .handle 0] := by
  rintro ⟨-, -, -, hLast, -⟩
  obtain ⟨handler, i, l, hAt, hLive, -⟩ := ((hLast rfl).topics 0 rfl).2.1 rfl
  cases i with
  | zero =>
    cases hAt
    cases hLive
  | succ i => cases hAt

end Calls

end Cronymax.Extensions.Registrations
