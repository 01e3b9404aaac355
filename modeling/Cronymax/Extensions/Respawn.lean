import Cronymax.Extensions.Hosts

/-! When a respawned extension starts clean: respawn clears what deactivation clears but for the sinks of
agent sessions and the webview panels. -/

namespace Cronymax.Extensions.Hosts

open Atomic

variable {manifest : String → Option HostManifest} {order : Iteration} {s : RuntimeState}
  {r : Registries} {b : EventBus} {m : HostManifest} {extId : String}

/-- Nothing of an extension is left in the registries. -/
structure Clean (extId : String) (r : Registries) : Prop where
  sessions : ∀ id, r.sessionRouter id ≠ some extId
  panels : ∀ id p, r.webviews.lookup id = some p → p.extId ≠ extId
  providers : ∀ id p, r.providers id = some p → p.owningExt ≠ extId
  commands : ∀ id, r.commands id ≠ some extId
  views : ∀ id v, r.sidebars id = some v → v.owningExt ≠ extId
  listeners : ∀ topic, ∀ x ∈ r.events.subscribersOf topic, x.extId ≠ extId

open Registries (dropGuards)

theorem dropGuards_frame (guards : List (String × Nat)) :
    (dropGuards b guards).subscribeCaps = b.subscribeCaps ∧
      (dropGuards b guards).emitCaps = b.emitCaps ∧ (dropGuards b guards).nextId = b.nextId := by
  induction guards generalizing b with
  | nil => exact ⟨rfl, rfl, rfl⟩
  | cons guard guards ih => exact ih

theorem lookup_dropGuards (guards : List (String × Nat)) (topic : String) :
    (dropGuards b guards).subscribers.lookup topic =
      (b.subscribers.lookup topic).map (List.filter fun x => x.id ∉ guards.map (·.2)) := by
  induction guards generalizing b with
  | nil =>
    show b.subscribers.lookup topic = _
    cases b.subscribers.lookup topic with
    | none => rfl
    | some xs => simp
  | cons guard guards ih =>
    show (dropGuards (b.dropGuard guard.2) guards).subscribers.lookup topic = _
    rw [ih]
    show ((Table.mapValues _ b.subscribers).lookup topic).map _ = _
    rw [Table.lookup_mapValues, Option.map_map]
    congr 1
    funext xs
    show List.filter _ (List.filter _ xs) = _
    rw [List.filter_filter]
    refine List.filter_congr fun x _ => Bool.eq_iff_iff.mpr ?_
    rw [Bool.and_eq_true, decide_eq_true_iff, decide_eq_true_iff, decide_eq_true_iff, List.map_cons,
      List.mem_cons, not_or, and_comm]

theorem mem_dropGuards {guards : List (String × Nat)} {topic : String} {x : SubscriberEntry} :
    x ∈ (dropGuards b guards).subscribersOf topic ↔
      x ∈ b.subscribersOf topic ∧ x.id ∉ guards.map (·.2) := by
  unfold EventBus.subscribersOf
  rw [lookup_dropGuards]
  cases b.subscribers.lookup topic with
  | none => simp
  | some xs => simp

/-- The listeners on the bus are those whose guards are in the handles. -/
structure Guarded (b : EventBus) (handles : String → Option (List (String × Nat))) : Prop where
  numbered : b.Numbered
  held : ∀ topic, ∀ x ∈ b.subscribersOf topic, ∃ guards,
    handles x.extId = some guards ∧ x.id ∈ guards.map (·.2)
  mine : ∀ extId guards, handles extId = some guards → ∀ id ∈ guards.map (·.2),
    id < b.nextId ∧ ∀ topic, ∀ x ∈ b.subscribersOf topic, x.id = id → x.extId = extId

variable {handles : String → Option (List (String × Nat))} {guards : List (String × Nat)}

theorem Guarded.shrink (h : Guarded b handles) {b' : EventBus} {left : Option (List (String × Nat))}
    (hSublist : ∀ topic, (b'.subscribersOf topic).Sublist (b.subscribersOf topic))
    (hNext : b'.nextId = b.nextId)
    (hLess : ∀ kept ∈ left, ∀ id ∈ kept.map (·.2), ∃ guards,
      handles extId = some guards ∧ id ∈ guards.map (·.2))
    (hLeft : ∀ topic, ∀ x ∈ b'.subscribersOf topic, x.extId = extId →
      ∃ kept, left = some kept ∧ x.id ∈ kept.map (·.2)) :
    Guarded b' (Function.update handles extId left) where
  numbered :=
    ⟨fun topic => (h.numbered.nodup topic).sublist ((hSublist topic).map _), fun topic x hx => by
      rw [hNext]
      exact h.numbered.drawn topic x ((hSublist topic).subset hx)⟩
  held topic x hx := by
    by_cases hSame : x.extId = extId
    · rw [hSame, Function.update_self]
      exact hLeft topic x hx hSame
    · rw [Function.update_of_ne hSame]
      exact h.held topic x ((hSublist topic).subset hx)
  mine owner guards hAt id hId := by
    rw [hNext]
    have hOld : ∃ guards, handles owner = some guards ∧ id ∈ guards.map (·.2) := by
      by_cases hSame : owner = extId
      · subst hSame
        rw [Function.update_self] at hAt
        exact hLess guards hAt id hId
      · rw [Function.update_of_ne hSame] at hAt
        exact ⟨guards, hAt, hId⟩
    obtain ⟨old, hOld, hIn⟩ := hOld
    obtain ⟨hDrawn, hOwner⟩ := h.mine owner old hOld id hIn
    exact ⟨hDrawn, fun topic x hx => hOwner topic x ((hSublist topic).subset hx)⟩

theorem sublist_dropGuards (guards : List (String × Nat)) (topic : String) :
    ((dropGuards b guards).subscribersOf topic).Sublist (b.subscribersOf topic) := by
  unfold EventBus.subscribersOf
  rw [lookup_dropGuards]
  cases b.subscribers.lookup topic with
  | none => exact List.Sublist.refl _
  | some xs => exact List.filter_sublist

theorem subscribersOf_unregister (topic : String) :
    (b.unregisterExtension extId).subscribersOf topic =
      (b.subscribersOf topic).filter (·.extId ≠ extId) :=
  EventBus.mem_retain

theorem Guarded.unregister (h : Guarded b handles) :
    Guarded (dropGuards (b.unregisterExtension extId) ((handles extId).getD []))
      (Function.update handles extId none) := by
  have hSublist (topic : String) :
      ((b.unregisterExtension extId).subscribersOf topic).Sublist (b.subscribersOf topic) := by
    rw [subscribersOf_unregister]
    exact List.filter_sublist
  refine h.shrink (fun topic => (sublist_dropGuards _ topic).trans (hSublist topic))
    (dropGuards_frame _).2.2 (fun kept hKept => nomatch hKept) fun topic x hx hSame => ?_
  have hStays := (mem_dropGuards.mp hx).1
  rw [subscribersOf_unregister] at hStays
  exact absurd hSame (of_decide_eq_true (List.mem_filter.mp hStays).2)

theorem Guarded.respawn (h : Guarded b handles) :
    Guarded (dropGuards b ((handles extId).getD [])) (Function.update handles extId (some [])) := by
  refine h.shrink (sublist_dropGuards _) (dropGuards_frame _).2.2 ?_ fun topic x hx hSame => ?_
  · rintro kept hKept id hId
    cases hKept
    cases hId
  · obtain ⟨hBefore, hDropped⟩ := mem_dropGuards.mp hx
    obtain ⟨guards, hAt, hIn⟩ := h.held topic x hBefore
    rw [← hSame, hAt] at hDropped
    exact absurd hIn hDropped

theorem Guarded.register (h : Guarded b handles) {subscribe emit : List String}
    (hNone : handles extId = none) :
    Guarded (b.registerExtension extId subscribe emit) (Function.update handles extId (some [])) := by
  refine h.shrink (fun _ => List.Sublist.refl _) rfl ?_ fun topic x hx hSame => ?_
  · rintro kept hKept id hId
    cases hKept
    cases hId
  · obtain ⟨guards, hAt, -⟩ := h.held topic x hx
    rw [hSame, hNone] at hAt
    cases hAt

theorem Guarded.unsubscribe (h : Guarded b handles) (hAt : handles extId = some guards)
    (topic : String) :
    Guarded (dropGuards b (guards.filter (·.1 = topic)))
      (Function.update handles extId (some (guards.filter (·.1 ≠ topic)))) := by
  refine h.shrink (sublist_dropGuards _) (dropGuards_frame _).2.2 ?_ fun topic' x hx hSame => ?_
  · rintro kept hKept id hId
    cases hKept
    obtain ⟨guard, hGuard, rfl⟩ := List.mem_map.mp hId
    exact ⟨guards, hAt, List.mem_map_of_mem (List.mem_filter.mp hGuard).1⟩
  · obtain ⟨hBefore, hDropped⟩ := mem_dropGuards.mp hx
    obtain ⟨guards', hAt', hIn⟩ := h.held topic' x hBefore
    rw [hSame, hAt] at hAt'
    cases hAt'
    obtain ⟨guard, hGuard, hId⟩ := List.mem_map.mp hIn
    refine ⟨_, rfl, List.mem_map.mpr ⟨guard, List.mem_filter.mpr ⟨hGuard, ?_⟩, hId⟩⟩
    refine decide_eq_true fun hTopic => hDropped ?_
    exact List.mem_map.mpr ⟨guard, List.mem_filter.mpr ⟨hGuard, decide_eq_true hTopic⟩, hId⟩

theorem Guarded.subscribe (h : Guarded b handles) (hAt : handles extId = some guards)
    (topic : String) :
    Guarded (b.subscribe extId topic).2
      (Function.update handles extId (some (guards ++ [(topic, b.nextId)]))) where
  numbered := h.numbered.step (.subscribe extId topic)
  held topic' x hx := by
    rcases EventBus.mem_subscribe hx with hOld | ⟨-, -, rfl⟩
    · obtain ⟨guards', hAt', hIn⟩ := h.held topic' x hOld
      by_cases hSame : x.extId = extId
      · rw [hSame, hAt] at hAt'
        cases hAt'
        rw [hSame, Function.update_self]
        refine ⟨_, rfl, ?_⟩
        rw [List.map_append]
        exact List.mem_append_left _ hIn
      · rw [Function.update_of_ne hSame]
        exact ⟨guards', hAt', hIn⟩
    · exact ⟨_, Function.update_self .., by simp⟩
  mine owner guards' hAt' id hId := by
    rw [EventBus.subscribe_nextId]
    have hCases : (∃ old, handles owner = some old ∧ id ∈ old.map (·.2)) ∨
        owner = extId ∧ id = b.nextId := by
      by_cases hSame : owner = extId
      · subst hSame
        rw [Function.update_self] at hAt'
        cases hAt'
        rw [List.map_append, List.mem_append] at hId
        rcases hId with hOld | hNew
        · exact .inl ⟨guards, hAt, hOld⟩
        · exact .inr ⟨rfl, List.mem_singleton.mp hNew⟩
      · rw [Function.update_of_ne hSame] at hAt'
        exact .inl ⟨guards', hAt', hId⟩
    rcases hCases with ⟨old, hOld, hIn⟩ | ⟨rfl, rfl⟩
    · obtain ⟨hDrawn, hOwner⟩ := h.mine owner old hOld id hIn
      refine ⟨Nat.lt_succ_of_lt hDrawn, fun topic' x hx hSame => ?_⟩
      rcases EventBus.mem_subscribe hx with hBefore | ⟨-, -, rfl⟩
      · exact hOwner topic' x hBefore hSame
      · exact absurd hSame (Nat.ne_of_gt hDrawn)
    · refine ⟨Nat.lt_succ_self _, fun topic' x hx hSame => ?_⟩
      rcases EventBus.mem_subscribe hx with hBefore | ⟨-, -, rfl⟩
      · exact absurd hSame (Nat.ne_of_lt (h.numbered.drawn topic' x hBefore))
      · rfl

theorem Guarded.refused (h : Guarded b handles) {topic : String}
    (hMay : b.maySubscribe extId topic = false) : Guarded (b.subscribe extId topic).2 handles where
  numbered := h.numbered.step (.subscribe extId topic)
  held topic' x hx := by
    rcases EventBus.mem_subscribe hx with hOld | ⟨hTold, -⟩
    · exact h.held topic' x hOld
    · rw [hMay] at hTold
      cases hTold
  mine owner guards' hAt' id hId := by
    rw [EventBus.subscribe_nextId]
    obtain ⟨hDrawn, hOwner⟩ := h.mine owner guards' hAt' id hId
    refine ⟨Nat.lt_succ_of_lt hDrawn, fun topic' x hx hSame => ?_⟩
    rcases EventBus.mem_subscribe hx with hOld | ⟨hTold, -⟩
    · exact hOwner topic' x hOld hSame
    · rw [hMay] at hTold
      cases hTold

/-- What every run keeps. -/
structure Sound (manifest : String → Option HostManifest) (s : RuntimeState) : Prop where
  guarded : Guarded s.registries.events s.registries.handles
  capable : ∀ extId, s.activated extId = true → ∃ m, manifest extId = some m ∧
    s.registries.events.subscribeCaps.lookup extId = some m.subscribe ∧
    s.registries.events.emitCaps.lookup extId = some (m.emit.map .fromManifest)
  hosted : ∀ extId, s.registries.handles extId ≠ none → s.activated extId = true ∧
    ∃ m, manifest extId = some m ∧ m.main.isSome = true

theorem sound_new : Sound manifest .new where
  guarded :=
    ⟨⟨fun _ => List.nodup_nil, fun _ _ h => absurd h List.not_mem_nil⟩,
      fun _ _ h => absurd h List.not_mem_nil, fun _ _ h => nomatch h⟩
  capable _ h := nomatch h
  hosted _ h := absurd rfl h

theorem Sound.congr {t : RuntimeState} (h : Sound manifest s)
    (hEvents : t.registries.events = s.registries.events)
    (hHandles : t.registries.handles = s.registries.handles) (hActivated : t.activated = s.activated) :
    Sound manifest t := by
  refine ⟨?_, ?_, ?_⟩
  · rw [hEvents, hHandles]
    exact h.guarded
  · rw [hEvents, hActivated]
    exact h.capable
  · rw [hHandles, hActivated]
    exact h.hosted

theorem dropGuards_caps (owner : String) (guards : List (String × Nat)) :
    (dropGuards b guards).subscribeCaps.lookup owner = b.subscribeCaps.lookup owner ∧
      (dropGuards b guards).emitCaps.lookup owner = b.emitCaps.lookup owner := by
  rw [(dropGuards_frame guards).1, (dropGuards_frame guards).2.1]
  exact ⟨rfl, rfl⟩

theorem Sound.rollback (h : Sound manifest s) {t : RuntimeState}
    (hEvents : t.registries.events = dropGuards (s.registries.events.unregisterExtension extId)
      ((s.registries.handles extId).getD []))
    (hHandles : t.registries.handles = Function.update s.registries.handles extId none)
    (hActivated : t.activated = Function.update s.activated extId false) : Sound manifest t where
  guarded := by
    rw [hEvents, hHandles]
    exact h.guarded.unregister
  capable owner hActive := by
    rw [hActivated] at hActive
    have hOther : owner ≠ extId := by
      rintro rfl
      rw [Function.update_self] at hActive
      cases hActive
    rw [Function.update_of_ne hOther] at hActive
    obtain ⟨m, hManifest, hSubscribe, hEmit⟩ := h.capable owner hActive
    refine ⟨m, hManifest, ?_⟩
    rw [hEvents, (dropGuards_caps owner _).1, (dropGuards_caps owner _).2]
    exact ⟨(Finmap.lookup_erase_ne hOther).trans hSubscribe,
      (Finmap.lookup_erase_ne hOther).trans hEmit⟩
  hosted owner hHost := by
    rw [hHandles] at hHost
    have hOther : owner ≠ extId := by
      rintro rfl
      exact hHost (Function.update_self ..)
    rw [Function.update_of_ne hOther] at hHost
    rw [hActivated, Function.update_of_ne hOther]
    exact h.hosted owner hHost

theorem Sound.activated (h : Sound manifest s) (hManifest : manifest extId = some m)
    (hInactive : s.activated extId = false) :
    Sound manifest ⟨s.registries.activate m extId, Function.update s.activated extId true⟩ where
  guarded := by
    have hNone : s.registries.handles extId = none := by
      by_contra hHost
      rw [(h.hosted extId hHost).1] at hInactive
      cases hInactive
    show Guarded (s.registries.events.registerExtension extId m.subscribe m.emit)
      (if m.main.isSome then _ else s.registries.handles)
    split
    · exact h.guarded.register hNone
    · exact ⟨h.guarded.numbered.step (.registerExtension extId m.subscribe m.emit), h.guarded.held,
        h.guarded.mine⟩
  capable owner hActive := by
    by_cases hSame : owner = extId
    · subst hSame
      exact ⟨m, hManifest, Finmap.lookup_insert _, Finmap.lookup_insert _⟩
    · have hActive : Function.update s.activated extId true owner = true := hActive
      rw [Function.update_of_ne hSame] at hActive
      obtain ⟨m', hManifest', hSubscribe, hEmit⟩ := h.capable owner hActive
      exact ⟨m', hManifest', (Finmap.lookup_insert_of_ne _ hSame).trans hSubscribe,
        (Finmap.lookup_insert_of_ne _ hSame).trans hEmit⟩
  hosted owner hHost := by
    have hHost : (if m.main.isSome then Function.update s.registries.handles extId (some [])
      else s.registries.handles) owner ≠ none := hHost
    show Function.update s.activated extId true owner = true ∧ _
    by_cases hSame : owner = extId
    · subst hSame
      rw [Function.update_self]
      refine ⟨rfl, m, hManifest, ?_⟩
      by_contra hMain
      rw [if_neg hMain] at hHost
      rw [(h.hosted owner hHost).1] at hInactive
      cases hInactive
    · rw [Function.update_of_ne hSame]
      refine h.hosted owner fun hNone => hHost ?_
      split
      · rw [Function.update_of_ne hSame]
        exact hNone
      · exact hNone

theorem Sound.respawned (h : Sound manifest s) (hHosted : s.registries.handles extId ≠ none) :
    Sound manifest { s with registries := s.registries.respawn extId } where
  guarded := h.guarded.respawn
  capable owner hOwner := by
    obtain ⟨m, hManifest, hSubscribe, hEmit⟩ := h.capable owner hOwner
    exact ⟨m, hManifest, (dropGuards_caps owner _).1.trans hSubscribe,
      (dropGuards_caps owner _).2.trans hEmit⟩
  hosted owner hHost := by
    by_cases hSame : owner = extId
    · rw [hSame]
      exact h.hosted extId hHosted
    · refine h.hosted owner fun hNone => hHost ?_
      exact (Function.update_of_ne hSame ..).trans hNone

theorem Sound.deactivated (h : Sound manifest s) :
    Sound manifest ⟨s.registries.deactivate extId order, Function.update s.activated extId false⟩ :=
  h.rollback rfl rfl rfl

theorem present_of_update {owner : String} {left : Option (List (String × Nat))}
    (hAt : handles extId = some guards) (h : Function.update handles extId left owner ≠ none) :
    handles owner ≠ none := by
  by_cases hSame : owner = extId
  · rw [hSame, hAt]
    exact Option.some_ne_none _
  · rwa [Function.update_of_ne hSame] at h

theorem subscribe_eq (hAt : r.handles extId = some guards) (topic : String) :
    (r.subscribe extId topic).2 =
      if r.events.maySubscribe extId topic then
        { r with
          events := (r.events.subscribe extId topic).2
          handles := Function.update r.handles extId (some (guards ++ [(topic, r.events.nextId)])) }
      else { r with events := (r.events.subscribe extId topic).2 } := by
  unfold Registries.subscribe EventBus.subscribe
  rw [hAt]
  by_cases hMay : r.events.maySubscribe extId topic
  · simp only [hMay, if_true]
  · simp only [hMay, if_false, Bool.false_eq_true]

theorem Sound.call (h : Sound manifest s) (hAt : s.registries.handles extId = some guards)
    (c : Call) : Sound manifest { s with registries := (s.registries.call m extId c).2 } := by
  cases c with
  | subscribe topic =>
    show Sound manifest { s with registries := (s.registries.subscribe extId topic).2 }
    have hCaps := EventBus.subscribe_caps s.registries.events extId topic
    have hCapable : ∀ owner, s.activated owner = true → ∃ m, manifest owner = some m ∧
        (s.registries.events.subscribe extId topic).2.subscribeCaps.lookup owner = some m.subscribe ∧
        (s.registries.events.subscribe extId topic).2.emitCaps.lookup owner =
          some (m.emit.map .fromManifest) := by
      rw [hCaps.1, hCaps.2]
      exact h.capable
    rw [subscribe_eq hAt]
    split
    · refine ⟨h.guarded.subscribe hAt topic, hCapable, fun owner hHost => ?_⟩
      exact h.hosted owner (present_of_update hAt hHost)
    · rename_i hMay
      exact ⟨h.guarded.refused (Bool.eq_false_of_not_eq_true hMay), hCapable, h.hosted⟩
  | unsubscribe topic =>
    show Sound manifest { s with registries := s.registries.unsubscribe extId topic }
    unfold Registries.unsubscribe
    rw [hAt]
    refine ⟨h.guarded.unsubscribe hAt topic, fun owner hActive => ?_, fun owner hHost => ?_⟩
    · obtain ⟨m, hManifest, hSubscribe, hEmit⟩ := h.capable owner hActive
      exact ⟨m, hManifest, (dropGuards_caps owner _).1.trans hSubscribe,
        (dropGuards_caps owner _).2.trans hEmit⟩
    · exact h.hosted owner (present_of_update hAt hHost)
  | _ => exact h.congr rfl rfl rfl

theorem Sound.step (h : Sound manifest s) (e : Event) :
    Sound manifest (s.step manifest order e) := by
  cases e with
  | activate extId answered =>
    show Sound manifest (s.activate manifest order extId answered)
    unfold RuntimeState.activate
    split
    · rename_i m hManifest
      split
      · exact h
      · rename_i hInactive
        have hInactive : s.activated extId = false := Bool.eq_false_of_not_eq_true hInactive
        split
        · exact h.activated hManifest hInactive
        · refine (h.activated hManifest hInactive).rollback rfl rfl ?_
          show s.activated = _
          rw [Function.update_idem, ← hInactive, Function.update_eq_self]
    · exact h
  | deactivate extId =>
    show Sound manifest (s.deactivate order extId)
    unfold RuntimeState.deactivate
    split
    · exact h.deactivated
    · exact h
  | crash extId answered =>
    show Sound manifest (s.crash order extId answered)
    unfold RuntimeState.crash
    split
    · rename_i hHosted
      have hRespawned := h.respawned (Option.isSome_iff_ne_none.mp hHosted.2)
      split
      · exact hRespawned
      · unfold RuntimeState.deactivate
        split
        · exact hRespawned.deactivated
        · exact hRespawned
    · exact h
  | call extId c =>
    show Sound manifest (s.call manifest extId c)
    unfold RuntimeState.call
    split
    · rename_i hAt
      exact h.call hAt c
    · exact h
  | openSession extId sessionId =>
    show Sound manifest (s.openSession extId sessionId)
    unfold RuntimeState.openSession
    split
    · exact h
    · exact h.congr rfl rfl rfl
  | closeSession sessionId => exact h.congr rfl rfl rfl

theorem sound_run (manifest : String → Option HostManifest) (order : Iteration) (es : List Event) :
    Sound manifest (History.play (RuntimeState.step manifest order) .new es) := by
  suffices h : ∀ s, Sound manifest s →
      Sound manifest (History.play (RuntimeState.step manifest order) s es) from h _ sound_new
  induction es with
  | nil => exact fun s h => h
  | cons e es ih => exact fun s h => ih _ (h.step e)

/-- No agent session of the extension has a sink, and no webview panel is open. -/
structure Idle (extId : String) (r : Registries) : Prop where
  sessions : ∀ id, r.sessionRouter id ≠ some extId
  panels : ∀ id p, r.webviews.lookup id = some p → p.extId ≠ extId

/-- Nothing of the dead host is left when the new host starts, and whatever the new host calls is
answered as it would be if the extension had been deactivated and activated. -/
def StartsFresh (manifest : String → Option HostManifest) (order : Iteration) (extId : String)
    (s : RuntimeState) : Prop :=
  Clean extId (s.crash order extId true).registries ∧
    ∀ m calls, manifest extId = some m →
      (s.crash order extId true).registries.replies m extId calls =
        ((s.deactivate order extId).activate manifest order extId true).registries.replies m extId calls

theorem retain_clean {β : Type} {kind : Kind β} {entries : String → Option β} {id : String} {entry : β}
    (h : kind.retain entries extId id = some entry) : kind.owner entry ≠ extId :=
  of_decide_eq_true (Option.filter_eq_some_iff.mp h).2

theorem Idle.clean (h : Idle extId r) (hGuarded : Guarded r.events r.handles) :
    Clean extId (r.respawn extId) where
  sessions := h.sessions
  panels := h.panels
  providers _ _ hAt := retain_clean hAt
  commands _ hAt := retain_clean hAt rfl
  views _ _ hAt := retain_clean hAt
  listeners topic x hx hSame := by
    obtain ⟨guards, hAt, hIn⟩ := hGuarded.respawn.held topic x hx
    rw [hSame, Function.update_self] at hAt
    cases hAt
    cases hIn

theorem Idle.disposeAllFor (h : Idle extId r) (order : Iteration) :
    (r.webviews.disposeAllFor order extId).panels = r.webviews := by
  have hNone : r.webviews.owned order extId = [] := by
    refine List.eq_nil_iff_forall_not_mem.mpr fun id hId => ?_
    obtain ⟨p, hAt, hOwner⟩ := mem_owned.mp hId
    exact h.panels id p hAt hOwner
  unfold Panels.disposeAllFor
  rw [hNone]
  rfl

theorem Idle.closeAllFor (h : Idle extId r) :
    (fun id => (r.sessionRouter id).filter (· ≠ extId)) = r.sessionRouter := by
  funext id
  cases hAt : r.sessionRouter id with
  | none => rfl
  | some owner =>
    refine Option.filter_some_pos (decide_eq_true fun hSame => h.sessions id ?_)
    rw [hAt, hSame]

theorem bus_ext {b' : EventBus} (hSubscribers : b.subscribers = b'.subscribers)
    (hSubscribe : b.subscribeCaps = b'.subscribeCaps) (hEmit : b.emitCaps = b'.emitCaps)
    (hNext : b.nextId = b'.nextId) : b = b' := by
  cases b
  cases b'
  cases hSubscribers
  cases hSubscribe
  cases hEmit
  cases hNext
  rfl

theorem Guarded.events_fresh (h : Guarded b handles)
    (hSubscribe : b.subscribeCaps.lookup extId = some m.subscribe)
    (hEmit : b.emitCaps.lookup extId = some (m.emit.map .fromManifest)) :
    dropGuards b ((handles extId).getD []) =
      (dropGuards (b.unregisterExtension extId) ((handles extId).getD [])).registerExtension extId
        m.subscribe m.emit := by
  have hLeft := dropGuards_frame (b := b) ((handles extId).getD [])
  have hRight := dropGuards_frame (b := b.unregisterExtension extId) ((handles extId).getD [])
  have hInsert {β : Type} {t : Table String β} {x : β} (hAt : t.lookup extId = some x) :
      t = (t.erase extId).insert extId x := by
    refine Finmap.ext_lookup fun owner => ?_
    rw [Table.lookup_insert_if]
    split
    · rename_i hSame
      rw [hSame, hAt]
    · rename_i hNe
      exact (Finmap.lookup_erase_ne hNe).symm
  have hSubscribers : (dropGuards b ((handles extId).getD [])).subscribers =
      (dropGuards (b.unregisterExtension extId) ((handles extId).getD [])).subscribers := by
    refine Finmap.ext_lookup fun topic => ?_
    rw [lookup_dropGuards, lookup_dropGuards]
    show _ = ((Table.mapValues _ b.subscribers).lookup topic).map _
    rw [Table.lookup_mapValues, Option.map_map]
    cases hAt : b.subscribers.lookup topic with
    | none => rfl
    | some xs =>
      refine congrArg some ?_
      show _ = List.filter _ (List.filter _ xs)
      rw [List.filter_filter]
      refine List.filter_congr fun x hx => Bool.eq_iff_iff.mpr ?_
      rw [Bool.and_eq_true, decide_eq_true_iff, decide_eq_true_iff]
      refine ⟨fun hDropped => ⟨hDropped, fun hSame => ?_⟩, fun hBoth => hBoth.1⟩
      have hListens : x ∈ b.subscribersOf topic := by
        unfold EventBus.subscribersOf
        rw [hAt]
        exact hx
      obtain ⟨guards, hHandle, hIn⟩ := h.held topic x hListens
      rw [← hSame, hHandle] at hDropped
      exact hDropped hIn
  refine bus_ext hSubscribers (hLeft.1.trans ?_) (hLeft.2.1.trans ?_) (hLeft.2.2.trans hRight.2.2.symm)
  · show _ = Finmap.insert extId m.subscribe (dropGuards _ _).subscribeCaps
    rw [hRight.1]
    exact hInsert hSubscribe
  · show _ = Finmap.insert extId (m.emit.map .fromManifest) (dropGuards _ _).emitCaps
    rw [hRight.2.1]
    exact hInsert hEmit

theorem Idle.respawn_fresh (h : Idle extId r) (hGuarded : Guarded r.events r.handles)
    (hSubscribe : r.events.subscribeCaps.lookup extId = some m.subscribe)
    (hEmit : r.events.emitCaps.lookup extId = some (m.emit.map .fromManifest))
    (hMain : m.main.isSome = true) :
    r.respawn extId = (r.deactivate extId order).activate m extId := by
  have hPanels := h.disposeAllFor order
  have hEvents := hGuarded.events_fresh hSubscribe hEmit
  unfold Registries.respawn Registries.activate Registries.deactivate Registries.rollback
  rw [if_pos hMain]
  simp only [hPanels, h.closeAllFor, Function.update_idem]
  rw [hEvents]

/-- After any run, a respawned extension starts fresh exactly if no session of it had a sink and no panel
of it was open at the crash. -/
theorem starts_fresh_iff (manifest : String → Option HostManifest) (order : Iteration)
    (es : List Event) (extId : String)
    (hHosted : (History.play (RuntimeState.step manifest order) .new es).registries.handles extId ≠ none) :
    StartsFresh manifest order extId (History.play (RuntimeState.step manifest order) .new es) ↔
      Idle extId (History.play (RuntimeState.step manifest order) .new es).registries := by
  have hSound := sound_run manifest order es
  generalize History.play (RuntimeState.step manifest order) .new es = s at hHosted hSound ⊢
  obtain ⟨hActive, m, hManifest, hMain⟩ := hSound.hosted extId hHosted
  obtain ⟨m', hSame, hSubscribe, hEmit⟩ := hSound.capable extId hActive
  obtain rfl : m = m' := Option.some.inj (hManifest.symm.trans hSame)
  have hCrash : s.crash order extId true = { s with registries := s.registries.respawn extId } :=
    (if_pos ⟨hActive, Option.isSome_iff_ne_none.mpr hHosted⟩).trans (if_pos rfl)
  have hFresh : ((s.deactivate order extId).activate manifest order extId true).registries =
      (s.registries.deactivate extId order).activate m extId := by
    unfold RuntimeState.deactivate RuntimeState.activate
    simp only [hActive, if_true, hManifest, Function.update_self, Bool.false_eq_true, if_false]
  unfold StartsFresh
  rw [hCrash, hFresh]
  constructor
  · rintro ⟨hClean, -⟩
    exact ⟨hClean.sessions, hClean.panels⟩
  · intro hIdle
    refine ⟨hIdle.clean hSound.guarded, fun m' calls hManifest' => ?_⟩
    obtain rfl : m = m' := Option.some.inj (hManifest.symm.trans hManifest')
    show (s.registries.respawn extId).replies m extId calls = _
    rw [hIdle.respawn_fresh hSound.guarded hSubscribe hEmit hMain]

def sample : HostManifest where
  id := "acme.notes"
  name := "notes"
  version := "1.0.0"
  publisher := "acme"
  engine := "^1"
  main := some "./main.js"
  activationEvents := ["*"]
  contributes := ⟨[], none, [], [], [], []⟩
  subscribe := ["acme.saved"]
  emit := []

def sorted : Iteration where
  list := Table.inOrder
  nodup _ := Finset.sort_nodup ..
  mem _ _ := Table.mem_inOrder

def turnDone : List Event :=
  [.activate "acme.notes" true, .call "acme.notes" (.registerCommand "acme.notes.open"),
    .openSession "acme.notes" "turn", .call "acme.notes" (.subscribe "acme.saved"), .closeSession "turn"]

/-- The host has a command and a subscription, and the turn has closed its session before the crash. -/
theorem starts_fresh_after_turn :
    StartsFresh (fun _ => some sample) sorted "acme.notes"
      (History.play (RuntimeState.step (fun _ => some sample) sorted) .new turnDone) := by
  have hRouter : (History.play (RuntimeState.step (fun _ => some sample) sorted) .new
      turnDone).registries.sessionRouter =
      Function.update (Function.update (fun _ => none) "turn" (some "acme.notes")) "turn" none := rfl
  refine (starts_fresh_iff _ _ _ _ ?_).mpr ⟨fun id => ?_, fun _ _ h => ?_⟩
  · exact Option.ne_none_iff_isSome.mpr rfl
  · rw [hRouter, Function.update_idem, Function.update_apply]
    split <;> nofun
  · cases h

/-- The host crashes while a turn waits for its session. -/
theorem session_left :
    ¬StartsFresh (fun _ => some sample) sorted "acme.notes"
      (History.play (RuntimeState.step (fun _ => some sample) sorted) .new
        [.activate "acme.notes" true, .openSession "acme.notes" "turn"]) := by
  rintro ⟨hClean, -⟩
  exact hClean.sessions "turn" rfl

end Cronymax.Extensions.Hosts
