import Cronymax.Atomic.History
import Cronymax.Authority.Sections

/-! Deliveries to subscriptions.  An event goes to each subscription on one of its topics, with the next
number of that subscription, and takes the subscriptions away whose receivers are gone; what becomes of
one subscription does not depend on the others. -/

namespace Cronymax.Authority

open Atomic

variable {id : SubscriptionId} {topic : String}

/-- An event with these topics reaches a subscription of the topic. -/
def reachesTopic (topics : List String) (topic : String) : Bool :=
  topic = "*" || topics.contains topic

/-- Of the emissions, the payloads for a topic. -/
def deliveries (topic : String) (emissions : List Emission) : List RuntimeEventPayload :=
  (emissions.filter fun e => reachesTopic e.topics topic).map (·.payload)

theorem deliveries_append (topic : String) (emissions emissions' : List Emission) :
    deliveries topic (emissions ++ emissions') =
      deliveries topic emissions ++ deliveries topic emissions' := by
  simp [deliveries]

theorem deliveries_one (topic : String) (topics : List String) (payload : RuntimeEventPayload) :
    deliveries topic [⟨topics, payload⟩] = if reachesTopic topics topic then [payload] else [] := by
  by_cases h : reachesTopic topics topic = true <;> simp [deliveries, h]

theorem listens_eq (sub : Subscription) (topics : List String) :
    sub.listens topics = reachesTopic topics sub.topic := rfl

/-- The events are these payloads in order, numbered from 0 on. -/
structure Numbered (received : List RuntimeEvent) (payloads : List RuntimeEventPayload) : Prop where
  payload_eq : received.map (·.payload) = payloads
  sequence_eq : received.map (·.sequence) = List.range payloads.length

theorem Numbered.append {received : List RuntimeEvent} {payloads : List RuntimeEventPayload}
    (h : Numbered received payloads) (now : Int) (payload : RuntimeEventPayload) :
    Numbered (received ++ [⟨payloads.length, now, payload⟩]) (payloads ++ [payload]) := by
  refine ⟨by simp [h.payload_eq], ?_⟩
  rw [List.map_append, h.sequence_eq, List.length_append, List.length_singleton, List.range_succ]
  rfl

section Emission

variable (w : RuntimeAuthority) (topics : List String) (payload : RuntimeEventPayload)

theorem subscriptions_emitScoped (id : SubscriptionId) :
    (w.emitScoped topics payload).inner.subscriptions.lookup id =
      (w.inner.subscriptions.lookup id).bind fun sub =>
        if !sub.listens topics then some sub
        else if w.hears id then some { sub with nextSeq := sub.nextSeq + 1 }
        else none :=
  Table.lookup_filterMap _ _ _

theorem receivers_emitScoped (id : SubscriptionId) :
    (w.emitScoped topics payload).receivers.lookup id =
      (w.receivers.lookup id).map fun r =>
        if (w.inner.subscriptions.lookup id).any (·.listens topics) && !r.dropped then
          { r with received := r.received ++
            [⟨((w.inner.subscriptions.lookup id).map (·.nextSeq)).getD 0, w.now, payload⟩] }
        else r := by
  refine (Table.lookup_filterMap _ _ _).trans ?_
  cases w.receivers.lookup id with
  | none => rfl
  | some r =>
    cases w.inner.subscriptions.lookup id with
    | none => rfl
    | some sub =>
      simp only [Option.bind_some, Option.map_some, Option.any_some, Option.getD_some]
      split <;> rfl

end Emission

/-- What the receiver of the subscription has been sent. -/
def RuntimeAuthority.receivedBy (w : RuntimeAuthority) (id : SubscriptionId) : List RuntimeEvent :=
  ((w.receivers.lookup id).map (·.received)).getD []

/-- The subscription is there and its receiver too, which has been sent what `emissions` has for the
topic. -/
structure Receives (id : SubscriptionId) (topic : String) (emissions : List Emission)
    (w : RuntimeAuthority) : Prop where
  subscribed : w.inner.subscriptions.lookup id = some ⟨topic, (deliveries topic emissions).length⟩
  received : ∃ received, w.receivers.lookup id = some ⟨received, false⟩ ∧
    Numbered received (deliveries topic emissions)

/-- The effect opens, closes or drops the subscription. -/
def Effect.concerns (id : SubscriptionId) : Effect → Bool
  | .open id' _ | .close id' | .drop id' => id' = id
  | _ => false

def Effect.opens (id : SubscriptionId) : Effect → Bool
  | .open id' _ => id' = id
  | _ => false

/-- What an effect emits. -/
def Effect.emissions (e : Effect) : List Emission := e.emission.toList

theorem Receives.emitScoped {emissions : List Emission} {w : RuntimeAuthority}
    (h : Receives id topic emissions w) (topics : List String) (payload : RuntimeEventPayload) :
    Receives id topic (emissions ++ [⟨topics, payload⟩]) (w.emitScoped topics payload) := by
  obtain ⟨hSub, received, hReceiver, hNumbered⟩ := h
  have hHears : w.hears id = true := by simp [RuntimeAuthority.hears, hReceiver]
  have hSub' := subscriptions_emitScoped w topics payload id
  have hReceiver' := receivers_emitScoped w topics payload id
  rw [hSub, Option.bind_some, hHears] at hSub'
  rw [hReceiver, hSub, Option.map_some, Option.map_some, Option.any_some] at hReceiver'
  rw [listens_eq] at hSub' hReceiver'
  dsimp only at hSub' hReceiver'
  cases hListens : reachesTopic topics topic with
  | true =>
    rw [hListens] at hSub' hReceiver'
    have hMore : deliveries topic (emissions ++ [⟨topics, payload⟩]) =
        deliveries topic emissions ++ [payload] := by
      rw [deliveries_append, deliveries_one, hListens, if_pos rfl]
    refine ⟨by rw [hSub', hMore, List.length_append]; rfl,
      received ++ [⟨(deliveries topic emissions).length, w.now, payload⟩], hReceiver', ?_⟩
    rw [hMore]
    exact hNumbered.append w.now payload
  | false =>
    rw [hListens] at hSub' hReceiver'
    have hSame : deliveries topic (emissions ++ [⟨topics, payload⟩]) = deliveries topic emissions := by
      rw [deliveries_append, deliveries_one, hListens, if_neg Bool.false_ne_true, List.append_nil]
    exact ⟨by rw [hSub', hSame]; rfl, received, hReceiver', by rw [hSame]; exact hNumbered⟩

theorem Receives.apply {emissions : List Emission} {w : RuntimeAuthority}
    (h : Receives id topic emissions w) {e : Effect} (he : e.concerns id = false) :
    Receives id topic (emissions ++ e.emissions) (e.apply w) := by
  obtain ⟨hSub, hReceiver⟩ := h
  cases e with
  | emit topics payload => exact Receives.emitScoped ⟨hSub, hReceiver⟩ topics payload
  | «open» id' topic' =>
    have hOther : id ≠ id' := fun h => by simp [Effect.concerns, h] at he
    simp only [Effect.emissions, Effect.emission, Option.toList_none, List.append_nil]
    exact ⟨(Table.lookup_insert_if id' id _ _).trans (by rw [if_neg hOther, hSub]),
      hReceiver.imp fun received h =>
        ⟨(Table.lookup_insert_if id' id _ _).trans (by rw [if_neg hOther, h.1]), h.2⟩⟩
  | close id' =>
    have hOther : id ≠ id' := fun h => by simp [Effect.concerns, h] at he
    simp only [Effect.emissions, Effect.emission, Option.toList_none, List.append_nil]
    exact ⟨(Finmap.lookup_erase_ne hOther).trans hSub, hReceiver⟩
  | drop id' =>
    have hOther : id ≠ id' := fun h => by simp [Effect.concerns, h] at he
    simp only [Effect.emissions, Effect.emission, Option.toList_none, List.append_nil]
    exact ⟨hSub, hReceiver.imp fun received h =>
      ⟨(Table.lookup_modify id' id _ _).trans (by rw [if_neg hOther, h.1]), h.2⟩⟩
  | park reviewId =>
    simp only [Effect.emissions, Effect.emission, Option.toList_none, List.append_nil]
    exact ⟨hSub, hReceiver⟩
  | fire reviewId resolution =>
    simp only [Effect.emissions, Effect.emission, Option.toList_none, List.append_nil, Effect.apply]
    split <;> exact ⟨hSub, hReceiver⟩

/-- A subscription that is closed: whatever is emitted, its receiver has got what it has. -/
structure Closed (id : SubscriptionId) (received : List RuntimeEvent) (w : RuntimeAuthority) : Prop where
  closed : w.inner.subscriptions.lookup id = none
  received : w.receivedBy id = received

theorem Closed.apply {received : List RuntimeEvent} {w : RuntimeAuthority} (h : Closed id received w)
    {e : Effect} (he : e.opens id = false) : Closed id received (e.apply w) := by
  obtain ⟨hSub, hReceived⟩ := h
  cases e with
  | emit topics payload =>
    have hSub' := subscriptions_emitScoped w topics payload id
    have hReceiver' := receivers_emitScoped w topics payload id
    rw [hSub] at hSub' hReceiver'
    refine ⟨hSub', ?_⟩
    rw [← hReceived, RuntimeAuthority.receivedBy, RuntimeAuthority.receivedBy, Effect.apply, hReceiver']
    cases w.receivers.lookup id <;> rfl
  | «open» id' topic' =>
    have hOther : id ≠ id' := fun h => by simp [Effect.opens, h] at he
    refine ⟨(Table.lookup_insert_if id' id _ _).trans (by rw [if_neg hOther, hSub]), ?_⟩
    rw [← hReceived]
    exact congrArg (fun r => (r.map Receiver.received).getD [])
      ((Table.lookup_insert_if id' id _ _).trans (if_neg hOther))
  | close id' =>
    refine ⟨?_, hReceived⟩
    by_cases hSame : id = id'
    · subst hSame
      exact Finmap.lookup_erase _ _
    · exact (Finmap.lookup_erase_ne hSame).trans hSub
  | drop id' =>
    refine ⟨hSub, ?_⟩
    rw [← hReceived, RuntimeAuthority.receivedBy, RuntimeAuthority.receivedBy, Effect.apply,
      Table.lookup_modify]
    split
    · cases w.receivers.lookup id <;> rfl
    · rfl
  | park reviewId => exact ⟨hSub, hReceived⟩
  | fire reviewId resolution =>
    simp only [Effect.apply]
    split <;> exact ⟨hSub, hReceived⟩

/-- A subscription whose receiver is gone: it is there until something is emitted for it. -/
structure Abandoned (id : SubscriptionId) (sub : Subscription) (received : List RuntimeEvent)
    (emissions : List Emission) (w : RuntimeAuthority) : Prop where
  quiet : deliveries sub.topic emissions = [] → w.inner.subscriptions.lookup id = some sub
  reaped : deliveries sub.topic emissions ≠ [] → w.inner.subscriptions.lookup id = none
  receiver : w.receivers.lookup id = some ⟨received, true⟩

theorem Abandoned.apply {sub : Subscription} {received : List RuntimeEvent}
    {emissions : List Emission} {w : RuntimeAuthority} (h : Abandoned id sub received emissions w)
    {e : Effect} (he : e.concerns id = false) :
    Abandoned id sub received (emissions ++ e.emissions) (e.apply w) := by
  obtain ⟨hQuiet, hReaped, hReceiver⟩ := h
  have hNone (hEmission : e.emission = none)
      (hSubs : (e.apply w).inner.subscriptions.lookup id = w.inner.subscriptions.lookup id)
      (hReceivers : (e.apply w).receivers.lookup id = w.receivers.lookup id) :
      Abandoned id sub received (emissions ++ e.emissions) (e.apply w) := by
    simp only [Effect.emissions, hEmission, Option.toList_none, List.append_nil]
    exact ⟨fun h => hSubs.trans (hQuiet h), fun h => hSubs.trans (hReaped h),
      hReceivers.trans hReceiver⟩
  cases e with
  | emit topics payload =>
    have hSub' := subscriptions_emitScoped w topics payload id
    have hReceiver' := receivers_emitScoped w topics payload id
    have hHears : w.hears id = false := by simp [RuntimeAuthority.hears, hReceiver]
    rw [hHears] at hSub'
    rw [hReceiver] at hReceiver'
    have hMore : deliveries sub.topic (emissions ++ (Effect.emit topics payload).emissions) =
        deliveries sub.topic emissions ++ if reachesTopic topics sub.topic then [payload] else [] := by
      rw [deliveries_append]
      exact congrArg _ (deliveries_one sub.topic topics payload)
    rw [← listens_eq] at hMore
    refine ⟨fun hNil => ?_, fun hSome => ?_, hReceiver'.trans (by simp)⟩
    · obtain ⟨hBefore, hNow⟩ := List.append_eq_nil_iff.mp (hMore ▸ hNil)
      have hListens : sub.listens topics = false := by
        by_contra h
        simp [h] at hNow
      refine hSub'.trans ?_
      rw [hQuiet hBefore, Option.bind_some, hListens]
      rfl
    · refine hSub'.trans ?_
      by_cases hBefore : deliveries sub.topic emissions = []
      · have hListens : sub.listens topics = true := by
          by_contra h
          exact hSome (by rw [hMore, hBefore, if_neg h, List.append_nil])
        rw [hQuiet hBefore, Option.bind_some, hListens]
        rfl
      · rw [hReaped hBefore, Option.bind_none]
  | «open» id' topic' =>
    have hOther : id ≠ id' := fun h => by simp [Effect.concerns, h] at he
    exact hNone rfl ((Table.lookup_insert_if id' id _ _).trans (if_neg hOther))
      ((Table.lookup_insert_if id' id _ _).trans (if_neg hOther))
  | close id' =>
    have hOther : id ≠ id' := fun h => by simp [Effect.concerns, h] at he
    exact hNone rfl (Finmap.lookup_erase_ne hOther) rfl
  | drop id' =>
    have hOther : id ≠ id' := fun h => by simp [Effect.concerns, h] at he
    exact hNone rfl rfl ((Table.lookup_modify id' id _ _).trans (if_neg hOther))
  | park reviewId => exact hNone rfl rfl rfl
  | fire reviewId resolution =>
    refine hNone rfl ?_ ?_
    · simp only [Effect.apply]
      split <;> rfl
    · simp only [Effect.apply]
      split <;> rfl

/-- The section subscribes, unsubscribes or drops the receiver. -/
def Section.concerns (id : SubscriptionId) : Section → Bool
  | .operation (.subscribe _ id') | .operation (.unsubscribe id') | .dropReceiver id' => id' = id
  | _ => false

def Section.opens (id : SubscriptionId) : Section → Bool
  | .operation (.subscribe _ id') => id' = id
  | _ => false

/-- What a decision does besides the edit. -/
def Decision.effects : Decision → List Effect
  | .refuse _ | .abort _ _ => []
  | .commit c => c.effects

theorem mem_effects {w : RuntimeAuthority} {d : Decision} {e : Effect} (h : e ∈ w.effectsOf d) :
    e ∈ d.effects := by
  cases d with
  | refuse | abort => cases h
  | commit c =>
    simp only [RuntimeAuthority.effectsOf] at h
    split at h
    · cases h
    · exact h

def Effect.isPlain : Effect → Bool
  | .open _ _ | .close _ | .drop _ => false
  | _ => true

def Operation.isPlain : Operation → Bool
  | .subscribe _ _ | .unsubscribe _ => false
  | _ => true

theorem isPlain_effects (w : RuntimeAuthority) {o : Operation} (h : o.isPlain = true) :
    ∀ e ∈ (o.decide w).effects, e.isPlain = true := by
  cases o with
  | subscribe topic id | unsubscribe id => cases h
  | resolveReview runId reviewId decision notes =>
    simp only [Operation.decide, RuntimeAuthority.resolveReview]
    repeat' split
    all_goals simp [Decision.effects, RuntimeAuthority.put, Effect.isPlain, Run.announce]
  | _ =>
    simp only [Operation.decide, RuntimeAuthority.upsertSpace, RuntimeAuthority.upsertAgent,
      RuntimeAuthority.getOrCreateSession, RuntimeAuthority.attachRunToSession,
      RuntimeAuthority.attachFlowRunToSession, RuntimeAuthority.renameSession,
      RuntimeAuthority.autoNameSession, RuntimeAuthority.setSessionForkPoint,
      RuntimeAuthority.flushThread, RuntimeAuthority.updateSessionNamespaces,
      RuntimeAuthority.startRunWithSession, RuntimeAuthority.setRunFlowId,
      RuntimeAuthority.setRunGoal, RuntimeAuthority.appendProducedDoc, RuntimeAuthority.transitionRun,
      RuntimeAuthority.postInput, RuntimeAuthority.openReview, RuntimeAuthority.emitForRun,
      RuntimeAuthority.emit, RuntimeAuthority.emitMany, RuntimeAuthority.emitLog,
      RuntimeAuthority.bindSession, RuntimeAuthority.seedFlowSessions, RuntimeAuthority.appendHistory,
      RuntimeAuthority.putMemory, RuntimeAuthority.startChildTask, RuntimeAuthority.completeChildTask]
    repeat' split
    all_goals simp [Decision.effects, RuntimeAuthority.put, RuntimeAuthority.keep,
      RuntimeAuthority.routeSessions, RuntimeAuthority.editTasks, Effect.isPlain, Run.announce]

theorem transition_isPlain (w : RuntimeAuthority) (runId : RunId) (t : Transition) :
    ∀ e ∈ (w.transitionRun runId t).effects, e.isPlain = true := by
  unfold RuntimeAuthority.transitionRun
  split
  · simp [Decision.effects]
  · split
    · simp [Decision.effects]
    · simp [Decision.effects, RuntimeAuthority.put, Effect.isPlain, Run.announce]

theorem Section.concerns_of_effect {x : Section} {w : RuntimeAuthority} {e : Effect}
    (he : e ∈ (x.decide w).effects) : (e.concerns id = true → x.concerns id = true) ∧
      (e.opens id = true → x.opens id = true) := by
  have hPlain (h : e.isPlain = true) : (e.concerns id = true → x.concerns id = true) ∧
      (e.opens id = true → x.opens id = true) := by
    cases e with
    | emit | park | fire => simp [Effect.concerns, Effect.opens]
    | _ => cases h
  cases x with
  | operation o =>
    by_cases hOperation : o.isPlain = true
    · exact hPlain (isPlain_effects w hOperation e he)
    cases o with
    | subscribe topic id' =>
      obtain rfl := List.mem_singleton.mp he
      exact ⟨fun h => h, fun h => h⟩
    | unsubscribe id' =>
      obtain rfl := List.mem_singleton.mp he
      exact ⟨fun h => h, by simp [Effect.opens]⟩
    | _ => exact absurd rfl hOperation
  | dropReceiver id' =>
    obtain rfl := List.mem_singleton.mp he
    exact ⟨fun h => h, by simp [Effect.opens]⟩
  | runStatus runId =>
    simp only [Section.decide, RuntimeAuthority.runStatus] at he
    split at he <;> cases he
  | markRunning runId => exact hPlain (transition_isPlain w runId .markRunning e he)
  | complete runId => exact hPlain (transition_isPlain w runId .complete e he)
  | fail runId message => exact hPlain (transition_isPlain w runId (.fail message) e he)
  | registerCompletion reviewId =>
    obtain rfl := List.mem_singleton.mp he
    exact hPlain rfl

/-- The state after these sections. -/
def afterSections (w : RuntimeAuthority) (xs : List Section) : RuntimeAuthority :=
  History.play (fun w x => Section.apply x w) w xs

/-- What a section emits: the events of its decision, or none where its save fails. -/
def Section.emissions (x : Section) (w : RuntimeAuthority) : List Emission :=
  (w.effectsOf (x.decide w)).filterMap Effect.emission

/-- What the sections emit one after another, each in the state that the ones before it leave. -/
def emissionsOf (w : RuntimeAuthority) : List Section → List Emission
  | [] => []
  | x :: xs => x.emissions w ++ emissionsOf (x.apply w) xs

theorem keeps_section {R : List Emission → RuntimeAuthority → Prop} {ok : Effect → Bool}
    (hHolds : ∀ es w d, R es w → R es (w.tick.holds d))
    (hApply : ∀ es w e, ok e = true → R es w → R (es ++ e.emissions) (e.apply w))
    {x : Section} {es : List Emission} {w : RuntimeAuthority}
    (hOk : ∀ e ∈ (x.decide w).effects, ok e = true) (h : R es w) :
    R (es ++ x.emissions w) (x.apply w) := by
  have hPerform : ∀ (effects : List Effect) (es : List Emission) (w : RuntimeAuthority),
      (∀ e ∈ effects, ok e = true) → R es w →
      R (es ++ effects.filterMap Effect.emission) (w.perform effects) := by
    intro effects
    induction effects with
    | nil =>
      intro es w _ h
      simpa [RuntimeAuthority.perform] using h
    | cons e effects ih =>
      intro es w hOk h
      have hFirst := hApply es w e (hOk e List.mem_cons_self) h
      have hRest := ih _ _ (fun e' he' => hOk e' (List.mem_cons_of_mem _ he')) hFirst
      rw [perform_cons]
      cases hEmission : e.emission with
      | none => simpa [Effect.emissions, hEmission] using hRest
      | some emission => simpa [Effect.emissions, hEmission] using hRest
  rw [Section.apply, RuntimeAuthority.settle_eq]
  exact hPerform _ _ _ (fun e he => hOk e (mem_effects he)) (hHolds es w _ h)

theorem keeps_sections {R : List Emission → RuntimeAuthority → Prop} {c : Effect → Bool}
    (hHolds : ∀ es w d, R es w → R es (w.tick.holds d))
    (hApply : ∀ es w e, c e = true → R es w → R (es ++ e.emissions) (e.apply w)) (es : List Emission)
    {xs : List Section} {w : RuntimeAuthority}
    (hOk : ∀ x ∈ xs, ∀ w, ∀ e ∈ (Section.decide w x).effects, c e = true) (h : R es w) :
    R (es ++ emissionsOf w xs) (afterSections w xs) := by
  induction xs generalizing es w with
  | nil =>
    rw [emissionsOf, List.append_nil]
    exact h
  | cons x xs ih =>
    rw [emissionsOf, ← List.append_assoc]
    exact ih _ (fun x' hx' => hOk x' (List.mem_cons_of_mem _ hx'))
      (keeps_section hHolds hApply (hOk x List.mem_cons_self w) h)

theorem lookup_holds (w : RuntimeAuthority) (d : Decision) :
    (w.tick.holds d).inner.subscriptions = w.inner.subscriptions ∧
      (w.tick.holds d).receivers = w.receivers := by
  cases d <;> exact ⟨rfl, rfl⟩

/-- The state after the subscription has been opened. -/
def afterSubscribe (w : RuntimeAuthority) (id : SubscriptionId) (topic : String) : RuntimeAuthority :=
  (Section.operation (.subscribe topic id)).apply w

theorem receives_afterSubscribe (w : RuntimeAuthority) (id : SubscriptionId) (topic : String) :
    Receives id topic [] (afterSubscribe w id topic) :=
  ⟨Finmap.lookup_insert _, [], Finmap.lookup_insert _, rfl, rfl⟩

theorem receives_afterSections {w : RuntimeAuthority} {xs : List Section}
    (h : Receives id topic [] w) (hOpen : ∀ x ∈ xs, x.concerns id = false) :
    Receives id topic (emissionsOf w xs) (afterSections w xs) := by
  refine keeps_sections (R := Receives id topic) (c := fun e => !e.concerns id) (fun es w d h => ?_)
    (fun es w e he h => h.apply (by simpa using he)) [] (fun x hx w e he => ?_) h
  · obtain ⟨hSubs, hReceivers⟩ := lookup_holds w d
    exact ⟨by rw [hSubs]; exact h.subscribed, by rw [hReceivers]; exact h.received⟩
  · rw [Bool.not_eq_true', Bool.eq_false_iff]
    exact fun h => Bool.false_ne_true ((hOpen x hx).symm.trans ((Section.concerns_of_effect he).1 h))

theorem closed_afterSections {w : RuntimeAuthority} {xs : List Section} {received : List RuntimeEvent}
    (h : Closed id received w) (hOpen : ∀ x ∈ xs, x.opens id = false) :
    Closed id received (afterSections w xs) := by
  refine keeps_sections (R := fun _ => Closed id received) (c := fun e => !e.opens id)
    (fun es w d h => ?_) (fun es w e he h => h.apply (by simpa using he)) [] (fun x hx w e he => ?_) h
  · obtain ⟨hSubs, hReceivers⟩ := lookup_holds w d
    exact ⟨by rw [hSubs]; exact h.closed,
      by rw [RuntimeAuthority.receivedBy, hReceivers]; exact h.received⟩
  · rw [Bool.not_eq_true', Bool.eq_false_iff]
    exact fun h => Bool.false_ne_true ((hOpen x hx).symm.trans ((Section.concerns_of_effect he).2 h))

theorem abandoned_afterSections {w : RuntimeAuthority} {xs : List Section} {sub : Subscription}
    {received : List RuntimeEvent} (h : Abandoned id sub received [] w)
    (hOpen : ∀ x ∈ xs, x.concerns id = false) :
    Abandoned id sub received (emissionsOf w xs) (afterSections w xs) := by
  refine keeps_sections (R := Abandoned id sub received) (c := fun e => !e.concerns id)
    (fun es w d h => ?_) (fun es w e he h => h.apply (by simpa using he)) [] (fun x hx w e he => ?_) h
  · obtain ⟨hSubs, hReceivers⟩ := lookup_holds w d
    exact ⟨fun hNil => by rw [hSubs]; exact h.quiet hNil,
      fun hSome => by rw [hSubs]; exact h.reaped hSome, by rw [hReceivers]; exact h.receiver⟩
  · rw [Bool.not_eq_true', Bool.eq_false_iff]
    exact fun h => Bool.false_ne_true ((hOpen x hx).symm.trans ((Section.concerns_of_effect he).1 h))

def watcher : SubscriptionId := ⟨"watcher"⟩

def twoTopics : List Section :=
  [.operation (.emitMany ["run:run", "session:chat", "run:run"] (.raw .null)),
    .operation (.emit "terminal:1" (.raw (.bool true)))]

/-- The event that is emitted on both topics is received once. -/
example : ((afterSections (afterSubscribe (inMemory []) watcher "run:run") twoTopics).receivedBy
    watcher).map (·.sequence) = [0] := by
  decide

end Cronymax.Authority
