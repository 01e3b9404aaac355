import Cronymax.Atomic.History
import Cronymax.Extensions.Manifest
import Cronymax.Table.Edits

/-! The event bus.  What an extension may subscribe to is checked when it subscribes, what it may emit
by the patterns that it has registered last. -/

namespace Cronymax.Extensions

open Atomic

/-- `BusError`. -/
inductive BusError where
  | namespaceReserved (message : String)
  | capabilityDenied (message : String)
deriving DecidableEq

inductive PlatformTopic where
  | sessionStarted
  | sessionEnded
  | messageUserSent
  | messageAssistantDelta
  | messageAssistantDone
  | toolInvoked
  | toolCompleted
  | permissionRequested

def PlatformTopic.asStr : PlatformTopic → String
  | .sessionStarted => "cronymax.session.started"
  | .sessionEnded => "cronymax.session.ended"
  | .messageUserSent => "cronymax.message.user.sent"
  | .messageAssistantDelta => "cronymax.message.assistant.delta"
  | .messageAssistantDone => "cronymax.message.assistant.done"
  | .toolInvoked => "cronymax.tool.invoked"
  | .toolCompleted => "cronymax.tool.completed"
  | .permissionRequested => "cronymax.permission.requested"

/-- The topics that only the platform may emit. -/
def Reserved (topic : String) : Prop := "cronymax.".toList <+: topic.toList ∨ topic = "cronymax"

instance (topic : String) : Decidable (Reserved topic) := inferInstanceAs (Decidable (_ ∨ _))

/-- The first part of an id. -/
def publisherOf (extId : String) : List Char := extId.toList.takeWhile (· ≠ '.')

/-- The topic is in the namespace of the extension's publisher. -/
def InNamespace (extId topic : String) : Prop := publisherOf extId ++ ['.'] <+: topic.toList

instance (extId topic : String) : Decidable (InNamespace extId topic) :=
  inferInstanceAs (Decidable (_ <+: _))

/-- `EmitPattern`. -/
inductive EmitPattern where
  | exact (topic : String)
  | stem (stem : List Char)
deriving DecidableEq

namespace EmitPattern

def fromManifest (raw : String) : EmitPattern :=
  if ['.', '*'] <:+ raw.toList then .stem (raw.toList.dropLast.dropLast ++ ['.'])
  else if raw = "*" then .stem []
  else .exact raw

/-- `matches`. -/
def Matches (topic : String) : EmitPattern → Prop
  | .exact t => t = topic
  | .stem p => p <+: topic.toList

instance (topic : String) : DecidablePred (Matches topic)
  | .exact t => inferInstanceAs (Decidable (t = topic))
  | .stem p => inferInstanceAs (Decidable (p <+: topic.toList))

/-- The pattern covers topics of the publisher, or reserved ones. -/
def StaysHome (extId : String) : EmitPattern → Prop
  | .exact t => InNamespace extId t ∨ Reserved t
  | .stem p => publisherOf extId ++ ['.'] <+: p ∨ "cronymax.".toList <+: p

instance (extId : String) : DecidablePred (StaysHome extId)
  | .exact _ => inferInstanceAs (Decidable (_ ∨ _))
  | .stem _ => inferInstanceAs (Decidable (_ ∨ _))

end EmitPattern

structure SubscriberEntry where
  id : Nat
  extId : String
deriving DecidableEq

structure EventPayload where
  topic : String
  publisher : String
  data : Json

/-- `EventBus`. -/
structure EventBus where
  subscribers : Table String (List SubscriberEntry)
  subscribeCaps : Table String (List String)
  emitCaps : Table String (List EmitPattern)
  /-- An `AtomicU64` that each call of `subscribe` draws from: no number comes back before 2^64 calls. -/
  nextId : Nat

namespace EventBus

def new : EventBus := ⟨∅, ∅, ∅, 0⟩

variable (b : EventBus)

def subscribersOf (topic : String) : List SubscriberEntry := (b.subscribers.lookup topic).getD []

/-- `retain` over the subscribers of every topic. -/
def retain (stays : SubscriberEntry → Bool) : Table String (List SubscriberEntry) :=
  Table.mapValues (List.filter stays) b.subscribers

/-- `register_extension`: the subscriptions stay as they are. -/
def registerExtension (extId : String) (subscribe emit : List String) : EventBus :=
  { b with
    subscribeCaps := b.subscribeCaps.insert extId subscribe
    emitCaps := b.emitCaps.insert extId (emit.map .fromManifest) }

/-- `unregister_extension`. -/
def unregisterExtension (extId : String) : EventBus :=
  { b with
    subscribeCaps := b.subscribeCaps.erase extId
    emitCaps := b.emitCaps.erase extId
    subscribers := b.retain (·.extId ≠ extId) }

def maySubscribe (extId topic : String) : Bool :=
  ((b.subscribeCaps.lookup extId).map (·.contains topic)).getD false

/-- `subscribe`: a number is drawn even where the topic is refused. -/
def subscribe (extId topic : String) : Except BusError Nat × EventBus :=
  let drawn := { b with nextId := b.nextId + 1 }
  if b.maySubscribe extId topic then
    (.ok b.nextId, { drawn with
      subscribers := b.subscribers.insert topic (b.subscribersOf topic ++ [⟨b.nextId, extId⟩]) })
  else
    (.error (.capabilityDenied
      ("extension `" ++ extId ++ "` did not declare events.subscribe `" ++ topic ++ "`")), drawn)

/-- The guard of a subscription is dropped. -/
def dropGuard (id : Nat) : EventBus := { b with subscribers := b.retain (·.id ≠ id) }

/-- `fanout`. -/
def fanout (payload : EventPayload) : List (SubscriberEntry × EventPayload) :=
  (b.subscribersOf payload.topic).map fun s => (s, payload)

def emitFromPlatform (topic : PlatformTopic) (data : Json) : List (SubscriberEntry × EventPayload) :=
  b.fanout ⟨topic.asStr, "cronymax", data⟩

/-- A declared pattern covers the topic. -/
def mayEmit (extId topic : String) : Bool :=
  ((b.emitCaps.lookup extId).map (·.any fun p => p.Matches topic)).getD false

/-- `emit_from_extension`. -/
def emitFromExtension (extId topic : String) (data : Json) :
    Except BusError (List (SubscriberEntry × EventPayload)) :=
  if Reserved topic then
    .error (.namespaceReserved ("topic `" ++ topic ++ "` is reserved for the platform"))
  else if b.mayEmit extId topic then .ok (b.fanout ⟨topic, extId, data⟩)
  else
    .error (.capabilityDenied
      ("extension `" ++ extId ++ "` did not declare events.emit for `" ++ topic ++ "`"))

inductive Op where
  | registerExtension (extId : String) (subscribe emit : List String)
  | unregisterExtension (extId : String)
  | subscribe (extId topic : String)
  | dropGuard (id : Nat)
  | emitFromExtension (extId topic : String) (data : Json)
  | emitFromPlatform (topic : PlatformTopic) (data : Json)

def step (b : EventBus) : Op → EventBus
  | .registerExtension extId subscribe emit => b.registerExtension extId subscribe emit
  | .unregisterExtension extId => b.unregisterExtension extId
  | .subscribe extId topic => (b.subscribe extId topic).2
  | .dropGuard id => b.dropGuard id
  | .emitFromExtension _ _ _ | .emitFromPlatform _ _ => b

/-- Every subscription is one that its extension may have now. -/
def Entitled (b : EventBus) : Prop :=
  ∀ topic, ∀ s ∈ b.subscribersOf topic, b.maySubscribe s.extId topic

/-- What an extension emits is its own or reserved, and those who get it have declared it. -/
def Confined (b : EventBus) : Prop :=
  ∀ extId topic data sent, b.emitFromExtension extId topic data = .ok sent →
    InNamespace extId topic ∧ ¬Reserved topic ∧ b.mayEmit extId topic ∧
      sent.map (·.1) = b.subscribersOf topic ∧ (sent.map (·.1.id)).Nodup ∧
      ∀ d ∈ sent, d.2 = ⟨topic, extId, data⟩ ∧ b.maySubscribe d.1.extId topic

/-- A registration declares what it needs, and no more than it may. -/
def Modest (b : EventBus) : Op → Prop
  | .registerExtension extId subscribe emit =>
    (∀ topic, ∀ s ∈ b.subscribersOf topic, s.extId = extId → topic ∈ subscribe) ∧
      ∀ raw ∈ emit, (EmitPattern.fromManifest raw).StaysHome extId
  | _ => True

/-- The subscriptions to a topic have different ids, all drawn already. -/
structure Numbered (b : EventBus) : Prop where
  nodup : ∀ topic, ((b.subscribersOf topic).map (·.id)).Nodup
  drawn : ∀ topic, ∀ s ∈ b.subscribersOf topic, s.id < b.nextId

/-- All patterns stay in the namespace of their extension. -/
def Homely (b : EventBus) : Prop :=
  ∀ extId ps, b.emitCaps.lookup extId = some ps → ∀ p ∈ ps, p.StaysHome extId

end EventBus

namespace EmitPattern

variable {extId : String} {p : EmitPattern}

theorem StaysHome.matches (h : p.StaysHome extId) {topic : String} (hMatches : p.Matches topic) :
    InNamespace extId topic ∨ Reserved topic := by
  cases p with
  | exact t =>
    obtain rfl : t = topic := hMatches
    exact h
  | stem p =>
    rcases h with hHome | hReserved
    · exact .inl (hHome.trans hMatches)
    · exact .inr (.inl (hReserved.trans hMatches))

theorem prefix_of_prefix_mark {name stem : List Char} (h : name ++ ['.'] <+: stem ++ ['!']) :
    name ++ ['.'] <+: stem := by
  rcases List.prefix_concat_iff.mp h with hEq | hPrefix
  · have := List.append_inj_right' hEq rfl
    simp at this
  · exact hPrefix

theorem exists_matches (h : ¬p.StaysHome extId) :
    ∃ topic, p.Matches topic ∧ ¬InNamespace extId topic ∧ ¬Reserved topic := by
  cases p with
  | exact t => exact ⟨t, rfl, fun hIn => h (.inl hIn), fun hReserved => h (.inr hReserved)⟩
  | stem p =>
    refine ⟨String.ofList (p ++ ['!']), ?_, fun hIn => h (.inl ?_), fun hReserved => ?_⟩
    · simp [Matches]
    · exact prefix_of_prefix_mark (by simpa [InNamespace] using hIn)
    · rcases hReserved with hPrefix | hEq
      · exact h (.inr (@prefix_of_prefix_mark "cronymax".toList _ (by simpa using hPrefix)))
      · have := congrArg (·.toList.getLast?) hEq
        simp at this

end EmitPattern

namespace EventBus

variable {b : EventBus}

theorem mem_retain {stays : SubscriberEntry → Bool} {topic : String} :
    ({ b with subscribers := b.retain stays } : EventBus).subscribersOf topic =
      (b.subscribersOf topic).filter stays := by
  unfold subscribersOf retain
  rw [Table.lookup_mapValues]
  cases b.subscribers.lookup topic <;> rfl

theorem mayEmit_iff {extId topic : String} :
    b.mayEmit extId topic ↔ ∃ ps, b.emitCaps.lookup extId = some ps ∧ ∃ p ∈ ps, p.Matches topic := by
  unfold mayEmit
  cases b.emitCaps.lookup extId <;> simp

theorem maySubscribe_iff {extId topic : String} :
    b.maySubscribe extId topic ↔ ∃ topics, b.subscribeCaps.lookup extId = some topics ∧ topic ∈ topics := by
  unfold maySubscribe
  cases b.subscribeCaps.lookup extId <;> simp

theorem map_fanout {γ : Type} (b : EventBus) (payload : EventPayload) (f : SubscriberEntry → γ) :
    (b.fanout payload).map (fun d => f d.1) = (b.subscribersOf payload.topic).map f := by
  unfold fanout
  rw [List.map_map]
  rfl

theorem emitFromExtension_ok {extId topic : String} {data : Json}
    {sent : List (SubscriberEntry × EventPayload)} :
    b.emitFromExtension extId topic data = .ok sent ↔
      ¬Reserved topic ∧ b.mayEmit extId topic ∧ sent = b.fanout ⟨topic, extId, data⟩ := by
  unfold emitFromExtension
  split
  · rename_i hReserved
    exact ⟨fun h => (by cases h), fun h => absurd hReserved h.1⟩
  · rename_i hFree
    split
    · rename_i hMay
      exact ⟨fun h => ⟨hFree, hMay, (Except.ok.inj h).symm⟩, fun h => congrArg Except.ok h.2.2.symm⟩
    · rename_i hMay
      exact ⟨fun h => (by cases h), fun h => absurd h.2.1 hMay⟩

theorem confined_of_homely (hEntitled : Entitled b) (hNumbered : Numbered b) (h : Homely b) :
    Confined b := by
  intro extId topic data sent hSent
  obtain ⟨hNot, hMay, rfl⟩ := emitFromExtension_ok.mp hSent
  obtain ⟨ps, hps, p, hp, hMatches⟩ := mayEmit_iff.mp hMay
  have hHome : InNamespace extId topic := ((h extId ps hps p hp).matches hMatches).resolve_right hNot
  refine ⟨hHome, hNot, hMay, (map_fanout b _ id).trans (List.map_id _), ?_, ?_⟩
  · rw [map_fanout b _ (·.id)]
    exact hNumbered.nodup topic
  intro d hd
  obtain ⟨s, hs, rfl⟩ := List.mem_map.mp hd
  exact ⟨rfl, hEntitled topic s hs⟩

theorem homely_of_confined (h : Confined b) : Homely b := by
  intro extId ps hps p hp
  by_contra hNot
  obtain ⟨topic, hMatches, hOut, hFree⟩ := EmitPattern.exists_matches hNot
  have hMay : b.mayEmit extId topic := mayEmit_iff.mpr ⟨ps, hps, p, hp, hMatches⟩
  exact hOut (h extId topic .null _ (emitFromExtension_ok.mpr ⟨hFree, hMay, rfl⟩)).1

theorem subscribersOf_subscribe (b : EventBus) (extId topic topic' : String) :
    (b.subscribe extId topic).2.subscribersOf topic' =
      if b.maySubscribe extId topic ∧ topic' = topic then b.subscribersOf topic' ++ [⟨b.nextId, extId⟩]
      else b.subscribersOf topic' := by
  unfold subscribe
  by_cases hMay : b.maySubscribe extId topic
  · rw [if_pos hMay]
    by_cases hTopic : topic' = topic
    · subst hTopic
      rw [if_pos ⟨hMay, rfl⟩]
      exact congrArg (·.getD []) (Finmap.lookup_insert b.subscribers)
    · rw [if_neg fun h => hTopic h.2]
      exact congrArg (·.getD []) (Finmap.lookup_insert_of_ne b.subscribers hTopic)
  · rw [if_neg hMay, if_neg fun h => hMay h.1]
    rfl

theorem subscribe_nextId (b : EventBus) (extId topic : String) :
    (b.subscribe extId topic).2.nextId = b.nextId + 1 := by
  unfold subscribe
  split <;> rfl

theorem subscribe_caps (b : EventBus) (extId topic : String) :
    (b.subscribe extId topic).2.subscribeCaps = b.subscribeCaps ∧
      (b.subscribe extId topic).2.emitCaps = b.emitCaps := by
  unfold subscribe
  split <;> exact ⟨rfl, rfl⟩

theorem mem_subscribe {extId topic topic' : String} {s : SubscriberEntry}
    (h : s ∈ (b.subscribe extId topic).2.subscribersOf topic') :
    s ∈ b.subscribersOf topic' ∨ b.maySubscribe extId topic ∧ topic' = topic ∧ s = ⟨b.nextId, extId⟩ := by
  rw [subscribersOf_subscribe] at h
  split at h
  · rename_i hNew
    rcases List.mem_append.mp h with hOld | hLast
    · exact .inl hOld
    · exact .inr ⟨hNew.1, hNew.2, List.mem_singleton.mp hLast⟩
  · exact .inl h

theorem Numbered.retained (h : Numbered b) {b' : EventBus} {stays : SubscriberEntry → Bool}
    (hNext : b'.nextId = b.nextId)
    (hSubs : ∀ topic, b'.subscribersOf topic = (b.subscribersOf topic).filter stays) : Numbered b' where
  nodup topic := by
    rw [hSubs]
    exact (h.nodup topic).sublist (List.filter_sublist.map _)
  drawn topic s hs := by
    rw [hSubs] at hs
    rw [hNext]
    exact h.drawn topic s (List.mem_of_mem_filter hs)

theorem Numbered.step (h : Numbered b) (op : Op) : Numbered (b.step op) := by
  cases op with
  | registerExtension extId subscribe emit => exact ⟨h.nodup, h.drawn⟩
  | unregisterExtension extId => exact h.retained rfl fun topic => mem_retain
  | subscribe extId topic =>
    refine ⟨fun topic' => ?_, fun topic' s hs => ?_⟩
    · show ((b.subscribe extId topic).2.subscribersOf topic' |>.map (·.id)).Nodup
      rw [subscribersOf_subscribe]
      split
      · rw [List.map_append, List.map_singleton, List.nodup_append]
        refine ⟨h.nodup topic', List.nodup_singleton _, fun i hi j hj hEq => ?_⟩
        obtain ⟨s, hs, rfl⟩ := List.mem_map.mp hi
        have hBelow := h.drawn topic' s hs
        rw [hEq, List.mem_singleton.mp hj] at hBelow
        exact lt_irrefl _ hBelow
      · exact h.nodup topic'
    · show s.id < (b.subscribe extId topic).2.nextId
      rw [subscribe_nextId]
      rcases mem_subscribe hs with hOld | ⟨-, -, rfl⟩
      · exact Nat.lt_succ_of_lt (h.drawn topic' s hOld)
      · exact Nat.lt_succ_self _
  | dropGuard id => exact h.retained rfl fun topic => mem_retain
  | emitFromExtension extId topic data => exact h
  | emitFromPlatform topic data => exact h

theorem maySubscribe_register {extId extId' topic : String} {subscribe emit : List String} :
    (b.registerExtension extId subscribe emit).maySubscribe extId' topic ↔
      if extId' = extId then topic ∈ subscribe else b.maySubscribe extId' topic := by
  rw [maySubscribe_iff]
  unfold registerExtension
  rw [Table.lookup_insert_if]
  split
  · simp
  · rw [maySubscribe_iff]

theorem maySubscribe_unregister {extId extId' topic : String} (hOther : extId' ≠ extId) :
    (b.unregisterExtension extId).maySubscribe extId' topic ↔ b.maySubscribe extId' topic := by
  rw [maySubscribe_iff, maySubscribe_iff]
  unfold unregisterExtension
  rw [Finmap.lookup_erase_ne hOther]

theorem Entitled.step (h : Entitled b) {op : Op} (hModest : b.Modest op) : Entitled (b.step op) := by
  intro topic s hs
  cases op with
  | registerExtension extId subscribe emit =>
    refine maySubscribe_register.mpr ?_
    split
    · rename_i hSame
      exact hModest.1 topic s hs hSame
    · exact h topic s hs
  | unregisterExtension extId =>
    replace hs : s ∈ (b.subscribersOf topic).filter (·.extId ≠ extId) := mem_retain ▸ hs
    obtain ⟨hOld, hOther⟩ := List.mem_filter.mp hs
    exact (maySubscribe_unregister (of_decide_eq_true hOther)).mpr (h topic s hOld)
  | subscribe extId topic' =>
    show (b.subscribe extId topic').2.maySubscribe s.extId topic
    rw [maySubscribe_iff, (subscribe_caps b extId topic').1, ← maySubscribe_iff]
    rcases mem_subscribe hs with hOld | ⟨hMay, rfl, rfl⟩
    · exact h topic s hOld
    · exact hMay
  | dropGuard id =>
    replace hs : s ∈ (b.subscribersOf topic).filter (·.id ≠ id) := mem_retain ▸ hs
    exact h topic s (List.mem_of_mem_filter hs)
  | emitFromExtension extId topic' data => exact h topic s hs
  | emitFromPlatform topic' data => exact h topic s hs

theorem homely_register {extId : String} {subscribe emit : List String} (h : Homely b) :
    Homely (b.registerExtension extId subscribe emit) ↔
      ∀ raw ∈ emit, (EmitPattern.fromManifest raw).StaysHome extId := by
  constructor
  · intro hHome raw hRaw
    exact hHome extId _ (Finmap.lookup_insert _) _ (List.mem_map_of_mem hRaw)
  · intro hEmit extId' ps hps p hp
    replace hps : (b.emitCaps.insert extId (emit.map .fromManifest)).lookup extId' = some ps := hps
    rw [Table.lookup_insert_if] at hps
    split at hps
    · rename_i hSame
      obtain rfl := Option.some.inj hps
      obtain ⟨raw, hRaw, rfl⟩ := List.mem_map.mp hp
      rw [hSame]
      exact hEmit raw hRaw
    · exact h extId' ps hps p hp

theorem Homely.step (h : Homely b) {op : Op} (hModest : b.Modest op) : Homely (b.step op) := by
  cases op with
  | registerExtension extId subscribe emit => exact (homely_register h).mpr hModest.2
  | unregisterExtension extId =>
    intro extId' ps hps p hp
    replace hps : (b.emitCaps.erase extId).lookup extId' = some ps := hps
    by_cases hSame : extId' = extId
    · rw [hSame, Finmap.lookup_erase] at hps
      cases hps
    · rw [Finmap.lookup_erase_ne hSame] at hps
      exact h extId' ps hps p hp
  | subscribe extId topic =>
    intro extId' ps hps p hp
    replace hps : (b.subscribe extId topic).2.emitCaps.lookup extId' = some ps := hps
    rw [(subscribe_caps b extId topic).2] at hps
    exact h extId' ps hps p hp
  | dropGuard id => exact h
  | emitFromExtension extId topic data => exact h
  | emitFromPlatform topic data => exact h

theorem promised_iff (hEntitled : Entitled b) (hNumbered : Numbered b) (hHomely : Homely b) (op : Op) :
    Entitled (b.step op) ∧ Confined (b.step op) ↔ b.Modest op := by
  refine ⟨fun ⟨hNow, hConfined⟩ => ?_, fun hModest => ?_⟩
  · cases op with
    | registerExtension extId subscribe emit =>
      refine ⟨fun topic s hs hSame => ?_, (homely_register hHomely).mp (homely_of_confined hConfined)⟩
      have hMay := maySubscribe_register.mp (hNow topic s hs)
      rwa [if_pos hSame] at hMay
    | _ => trivial
  · have hNow := hEntitled.step hModest
    exact ⟨hNow, confined_of_homely hNow (hNumbered.step op) (hHomely.step hModest)⟩

/-- In every run from an empty bus the subscriptions and the emissions are what the capabilities allow,
after each operation, exactly if every registration is modest when it is made. -/
theorem capabilities_hold_iff (ops : List Op) :
    History.Each step (fun b op => Entitled (b.step op) ∧ Confined (b.step op)) new ops ↔
      History.Each step Modest new ops := by
  have hEmpty (topic : String) : new.subscribersOf topic = [] := by
    simp [subscribersOf, new]
  refine History.each_congr (I := fun b => Entitled b ∧ Numbered b ∧ Homely b) ⟨?_, ⟨?_, ?_⟩, ?_⟩
    (fun b op hI hNow => ?_) (fun b op hI => promised_iff hI.1 hI.2.1 hI.2.2 op) ops
  · intro topic s hs
    rw [hEmpty] at hs
    cases hs
  · intro topic
    rw [hEmpty]
    exact List.nodup_nil
  · intro topic s hs
    rw [hEmpty] at hs
    cases hs
  · intro extId ps hps
    rw [new, Finmap.lookup_empty] at hps
    cases hps
  · have hModest := (promised_iff hI.1 hI.2.1 hI.2.2 op).mp hNow
    exact ⟨hNow.1, hI.2.1.step op, hI.2.2.step hModest⟩

/-- An extension that declares every topic emits in the namespace of another, and one that registers
again keeps a subscription that it no longer declares. -/
theorem capabilities_exceeded :
    ¬History.Each step (fun b op => Entitled (b.step op) ∧ Confined (b.step op)) new
        [.registerExtension "alice.x" [] ["*"]] ∧
      ¬History.Each step (fun b op => Entitled (b.step op) ∧ Confined (b.step op)) new
        [.registerExtension "alice.x" ["bob.news"] [], .subscribe "alice.x" "bob.news",
          .registerExtension "alice.x" [] []] := by
  constructor
  · intro hEach
    have hIn := (hEach.1.2 "alice.x" "bob.y.news" .null _ rfl).1
    exact absurd hIn (by decide)
  · intro hEach
    have hMay := hEach.2.2.1.1 "bob.news" ⟨0, "alice.x"⟩ (by decide)
    exact absurd hMay (by decide)

end EventBus

end Cronymax.Extensions
