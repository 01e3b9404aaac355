import Cronymax.Events.Bus
import Mathlib.Data.Nat.Basic

/-! The subscribers of the event bus receive the stored events of their scopes in the order of the ids, as
long as the ids come to the table in their order, every dispatched event is stored, and the replay is not
cut off. -/

namespace Cronymax.Events

open Atomic
open EventBus (step)

variable {Id : Type*} [LinearOrder Id]

/-- Every subscriber has the stored events of its scope, each once and in the order of the ids; whatever
has been dispatched is stored; and paging shows the stored events of any scope, the newest one first. -/
structure Faithful (s : EventBus Id) : Prop where
  live : ∀ sub ∈ s.subs, sub.received = s.events.matching sub.scope
  stored : ∀ sub ∈ s.subs ++ s.former, ∀ e ∈ sub.received, e ∈ s.events.rows
  paged : ∀ scope limit fuel, s.events.rows.length < fuel →
    s.pages scope limit fuel = (s.events.matching scope).reverse

/-- An event comes after those that its subscribers have, and a replay is not cut off. -/
def Meets (s : EventBus Id) : Event Id → Prop
  | .commit i stepped => ∀ evt, s.appends[i]? = some (some evt) →
    ∀ sub ∈ s.subs, sub.scope.Matches evt → stepped = true ∧ ¬s.events.Stored evt.id ∧
      ∀ e ∈ s.events.rows, sub.scope.Matches e → e.id < evt.id
  | .subscribe scope => (s.events.matching scope).length ≤ 11000
  | _ => True

namespace EventBus

variable {s : EventBus Id} {scope : Scope} {evt : AppEvent Id} {stepped : Bool}

theorem clampLimit_pos (limit : Int) : 0 < clampLimit limit := by
  unfold clampLimit
  omega

theorem pages_eq {limit : Int} {fuel : Nat} (hFuel : s.events.rows.length < fuel) :
    s.pages scope limit fuel = (s.events.matching scope).reverse := by
  unfold pages
  rw [Paging.walk_eq EventsTable.newestFirst_ordered (clampLimit_pos limit)]
  · exact EventsTable.newestFirst_eq
  · show (s.events.newestFirst scope).length < fuel
    have := List.length_filter_le (fun e => decide (scope.Selects e)) s.events.rows
    unfold EventsTable.newestFirst
    rw [List.length_reverse]
    omega

theorem replay_eq : s.replay scope = (((s.events.matching scope).reverse).take 11000).reverse := by
  rw [replay, Paging.gather_eq EventsTable.newestFirst_ordered (by decide) 10 (by simp) (by simp),
    List.nil_append]
  show ((s.events.newestFirst scope).take 11000).reverse = _
  rw [EventsTable.newestFirst_eq]

theorem replay_all_iff : s.replay scope = s.events.matching scope ↔
    (s.events.matching scope).length ≤ 11000 := by
  rw [replay_eq]
  constructor
  · intro hAll
    have := congrArg List.length hAll
    rw [List.length_reverse, List.length_take, List.length_reverse] at this
    omega
  · intro hShort
    rw [List.take_of_length_le (by rwa [List.length_reverse]), List.reverse_reverse]

theorem stored_of_live {events : EventsTable Id} {sub : SubEntry Id}
    (hLive : sub.received = events.matching sub.scope) : ∀ e ∈ sub.received, e ∈ events.rows := by
  rw [hLive]
  exact fun e he => List.mem_of_mem_filter he

end EventBus

namespace Faithful

variable {s : EventBus Id} (h : Faithful s) {scope : Scope} {evt : AppEvent Id} {stepped : Bool}
include h

theorem former_stored : ∀ sub ∈ s.former, ∀ e ∈ sub.received, e ∈ s.events.rows :=
  fun sub hSub => h.stored sub (List.mem_append_right _ hSub)

theorem subscribe_iff :
    Faithful (s.subscribe scope) ↔ (s.events.matching scope).length ≤ 11000 := by
  rw [← EventBus.replay_all_iff]
  constructor
  · intro hAfter
    exact hAfter.live ⟨s.nextToken, scope, s.replay scope⟩
      (List.mem_append_right _ (List.mem_singleton_self _))
  · intro hReplay
    have hLive : ∀ sub ∈ (s.subscribe scope).subs, sub.received = s.events.matching sub.scope := by
      intro sub hSub
      rcases List.mem_append.mp hSub with hOld | hNew
      · exact h.live sub hOld
      · rw [List.mem_singleton.mp hNew]
        exact hReplay
    refine ⟨hLive, fun sub hSub => ?_, h.paged⟩
    rcases List.mem_append.mp hSub with hSub | hFormer
    · exact EventBus.stored_of_live (hLive sub hSub)
    · exact h.former_stored sub hFormer

theorem unsubscribe (token : Nat) : Faithful (s.unsubscribe token) := by
  refine ⟨fun sub hSub => h.live sub (List.mem_filter.mp hSub).1, fun sub hSub => h.stored sub ?_,
    h.paged⟩
  rcases List.mem_append.mp hSub with hSub | hFormer
  · exact List.mem_append_left _ (List.mem_filter.mp hSub).1
  · rcases List.mem_append.mp hFormer with hFormer | hSub
    · exact List.mem_append_right _ hFormer
    · exact List.mem_append_left _ (List.mem_filter.mp hSub).1

theorem dispatch_iff {sub : SubEntry Id} (hSub : sub ∈ s.subs) :
    (EventBus.dispatch evt sub).received =
        (s.commit evt stepped).events.matching (EventBus.dispatch evt sub).scope ↔
      (sub.scope.Matches evt → stepped = true ∧ ¬s.events.Stored evt.id ∧
        ∀ e ∈ s.events.rows, sub.scope.Matches e → e.id < evt.id) := by
  have hLive := h.live sub hSub
  unfold EventBus.dispatch EventBus.commit
  by_cases hMatches : sub.scope.Matches evt
  · rw [if_pos hMatches, forall_prop_of_true hMatches]
    cases stepped with
    | false =>
      refine iff_of_false (fun hSame => ?_) fun hFalse => by cases hFalse.1
      have := congrArg List.length hSame
      simp [hLive] at this
    | true =>
      show sub.received ++ [evt] = (s.events.insert evt).matching sub.scope ↔ _
      rw [hLive, eq_comm, EventsTable.matching_insert_iff hMatches, eq_self_iff_true, true_and]
  · rw [if_neg hMatches]
    refine iff_of_true ?_ fun hFalse => absurd hFalse hMatches
    rw [hLive]
    cases stepped with
    | false => rfl
    | true => exact (EventsTable.matching_insert_other hMatches).symm

theorem commit_iff : Faithful (s.commit evt stepped) ↔
    ∀ sub ∈ s.subs, sub.scope.Matches evt → stepped = true ∧ ¬s.events.Stored evt.id ∧
      ∀ e ∈ s.events.rows, sub.scope.Matches e → e.id < evt.id := by
  constructor
  · intro hAfter sub hSub
    exact (h.dispatch_iff hSub).mp (hAfter.live _ (List.mem_map_of_mem hSub))
  · intro hMeets
    have hLive : ∀ sub ∈ (s.commit evt stepped).subs,
        sub.received = (s.commit evt stepped).events.matching sub.scope := by
      intro sub hSub
      obtain ⟨old, hOld, rfl⟩ := List.mem_map.mp hSub
      exact (h.dispatch_iff hOld).mpr (hMeets old hOld)
    refine ⟨hLive, fun sub hSub => ?_, fun _ _ _ => EventBus.pages_eq⟩
    rcases List.mem_append.mp hSub with hSub | hFormer
    · exact EventBus.stored_of_live (hLive sub hSub)
    · intro e he
      have hOld := h.former_stored sub hFormer e he
      cases stepped with
      | false => exact hOld
      | true => exact EventsTable.mem_insert hOld

theorem step_iff (e : Event Id) : Faithful (step s e) ↔ Meets s e := by
  cases e with
  | enter evt => exact iff_of_true ⟨h.live, h.stored, h.paged⟩ trivial
  | commit i stepped =>
    obtain ⟨hSame, hOver⟩ | ⟨evt, hAt, hFinish⟩ := s.finish_cases i stepped
    · have hSame : step s (.commit i stepped) = s := hSame
      rw [hSame]
      exact iff_of_true h fun evt hAt => absurd hAt (hOver evt)
    · have hFinish : step s (.commit i stepped) = _ := hFinish
      rw [hFinish]
      have hCommit : Faithful { s.commit evt stepped with appends := s.appends.set i none } ↔
          Faithful (s.commit evt stepped) :=
        ⟨fun hf => ⟨hf.live, hf.stored, hf.paged⟩, fun hf => ⟨hf.live, hf.stored, hf.paged⟩⟩
      rw [hCommit, h.commit_iff]
      refine ⟨fun hAll evt' hAt' => ?_, fun hAll => hAll evt hAt⟩
      obtain rfl : evt = evt' := Option.some.inj (Option.some.inj (hAt.symm.trans hAt'))
      exact hAll
  | subscribe scope => exact h.subscribe_iff
  | unsubscribe token => exact iff_of_true (h.unsubscribe token) trivial

end Faithful

/-- In every run the subscribers receive what is stored, in its order, exactly if every step meets the
condition. -/
theorem stream_iff (events : EventsTable Id) (es : List (Event Id)) :
    History.Each step (fun s e => Faithful (step s e)) (EventBus.new events) es ↔
      History.Each step Meets (EventBus.new events) es := by
  refine History.each_congr (I := Faithful) ⟨?_, ?_, fun _ _ _ => EventBus.pages_eq⟩
    (fun _ _ _ hAfter => hAfter) (fun _ e h => h.step_iff e) es
  · exact fun sub hSub => by cases hSub
  · exact fun sub hSub => by cases hSub

theorem not_ordered {a b : AppEvent Id} (hLess : b.id < a.id) (before : List (AppEvent Id)) :
    ¬((before ++ [a]) ++ [b]).Pairwise fun a b => a.id < b.id := fun h =>
  lt_asymm hLess ((List.pairwise_append.mp h).2.2 a (by simp) b (by simp))

/-- Two calls of `Append` take the lock in the other order than their ids. -/
theorem order_lost :
    ¬History.Each step (fun s e => Faithful (step s e))
      (EventBus.new ⟨([] : List (AppEvent Nat)), List.Pairwise.nil⟩)
      [.subscribe ⟨"", ""⟩, .enter ⟨1, "", ""⟩, .enter ⟨2, "", ""⟩, .commit 1 true, .commit 0 true] := by
  rintro ⟨-, -, -, -, hFaithful, -⟩
  have hLive := hFaithful.live _ (List.mem_map_of_mem (List.mem_map_of_mem (List.mem_singleton_self _)))
  exact not_ordered (a := ⟨2, "", ""⟩) (b := ⟨1, "", ""⟩) (show 1 < 2 by decide) _
    (hLive ▸ EventsTable.matching_ordered)

end Cronymax.Events
