import Cronymax.Atomic.Noninterference
import Cronymax.Events.Spaces

/-! When the calls of a bus meet no rows of another space.  The rows of a space are then a store of their
own: a call of its bus is answered from them, and a call of another bus leaves them as they are. -/

namespace Cronymax.Events

open Atomic

variable {Id : Type*} [LinearOrder Id]

namespace SpaceStore

theorem eq_of_rows {s t : SpaceStore Id} (hEvents : s.events = t.events) (hInbox : s.inbox = t.inbox) :
    s = t := by
  cases s
  cases t
  cases hEvents
  cases hInbox
  rfl

variable (s : SpaceStore Id) (bus : String)

/-- The event is one of the space. -/
def ofSpace (e : StoredEvent Id) : Bool := e.spaceId = bus

/-- The store with the events of the space alone. -/
def own : SpaceStore Id := s.keepOnly (ofSpace bus)

/-- The event with the id is there, and it is one of the space. -/
def Owns (id : Id) : Prop := id ∈ (s.events.filter (ofSpace bus)).map (·.id)

instance (id : Id) : Decidable (s.Owns bus id) := inferInstanceAs (Decidable (_ ∈ _))

variable {s bus}

theorem mem_kept {part : StoredEvent Id → Bool} {e : StoredEvent Id} (he : e ∈ s.events) :
    e.id ∈ (s.events.filter part).map (·.id) ↔ part e = true := by
  constructor
  · intro hKept
    obtain ⟨a, ha, hSame⟩ := List.mem_map.mp hKept
    obtain ⟨hMem, hPart⟩ := List.mem_filter.mp ha
    rwa [← s.eventsOrdered.eq_of_key hMem he hSame]
  · exact fun hPart => List.mem_map_of_mem (List.mem_filter.mpr ⟨he, hPart⟩)

theorem keepOnly_congr {p q : StoredEvent Id → Bool} (h : ∀ e ∈ s.events, p e = q e) :
    s.keepOnly p = s.keepOnly q := by
  have hEvents : s.events.filter p = s.events.filter q := List.filter_congr h
  refine eq_of_rows hEvents ?_
  show s.inbox.filter (·.eventId ∈ (s.events.filter p).map (·.id)) = _
  rw [hEvents]
  rfl

theorem keepOnly_keepOnly (p q : StoredEvent Id → Bool) :
    (s.keepOnly p).keepOnly q = s.keepOnly fun e => q e && p e := by
  have hEvents : (s.events.filter p).filter q = s.events.filter fun e => q e && p e :=
    List.filter_filter
  refine eq_of_rows hEvents ?_
  show (s.inbox.filter (·.eventId ∈ (s.events.filter p).map (·.id))).filter
    (·.eventId ∈ ((s.events.filter p).filter q).map (·.id)) = s.inbox.filter _
  rw [List.filter_filter, hEvents]
  refine List.filter_congr fun row _ => ?_
  have hBoth : row.eventId ∈ (s.events.filter fun e => q e && p e).map (·.id) →
      row.eventId ∈ (s.events.filter p).map (·.id) := by
    rintro hMem
    obtain ⟨e, he, hSame⟩ := List.mem_map.mp hMem
    rw [← hEvents] at he
    exact List.mem_map.mpr ⟨e, (List.mem_filter.mp he).1, hSame⟩
  rw [← Bool.decide_and, decide_eq_decide]
  exact and_iff_left_of_imp hBoth

theorem keepOnly_comm (p q : StoredEvent Id → Bool) :
    (s.keepOnly p).keepOnly q = (s.keepOnly q).keepOnly p := by
  rw [keepOnly_keepOnly, keepOnly_keepOnly]
  exact keepOnly_congr fun e _ => Bool.and_comm _ _

theorem mapInbox_keepOnly {f : InboxRow Id → InboxRow Id} (hf : ∀ row, (f row).eventId = row.eventId)
    (p : StoredEvent Id → Bool) : (s.mapInbox f hf).keepOnly p = (s.keepOnly p).mapInbox f hf := by
  refine eq_of_rows rfl ?_
  show (s.inbox.map f).filter _ = (s.inbox.filter _).map f
  rw [List.filter_map]
  refine congrArg (List.map f) (List.filter_congr fun row _ => ?_)
  show decide ((f row).eventId ∈ _) = _
  rw [hf]
  rfl

theorem mapInbox_same {f : InboxRow Id → InboxRow Id} {hf : ∀ row, (f row).eventId = row.eventId}
    (h : ∀ row ∈ s.inbox, f row = row) : s.mapInbox f hf = s :=
  eq_of_rows rfl ((List.map_congr_left h).trans (List.map_id _))

theorem keepOnly_all {p : StoredEvent Id → Bool} (h : ∀ e ∈ s.events, p e = true) : s.keepOnly p = s := by
  have hEvents : s.events.filter p = s.events := List.filter_eq_self.mpr h
  refine eq_of_rows hEvents (List.filter_eq_self.mpr fun row hRow => ?_)
  rw [hEvents]
  exact decide_eq_true (s.references row hRow)

theorem mem_own_inbox {row : InboxRow Id} :
    row ∈ (s.own bus).inbox ↔ row ∈ s.inbox ∧ s.Owns bus row.eventId := by
  show row ∈ s.inbox.filter _ ↔ _
  rw [List.mem_filter, decide_eq_true_eq]
  rfl

theorem not_owns {other : String} (hOther : other ≠ bus) {id : Id} (h : s.Owns other id) :
    ¬s.Owns bus id := by
  intro hOwn
  obtain ⟨e, he, rfl⟩ := List.mem_map.mp h
  obtain ⟨hMem, hSpace⟩ := List.mem_filter.mp he
  have hBus := (mem_kept hMem).mp hOwn
  exact hOther ((of_decide_eq_true hSpace).symm.trans (of_decide_eq_true hBus))

variable (s bus)

/-- The pages for the scope show events of the space only. -/
def ListsOwn (scope : Scope) (before : Option Id) (limit : Nat) : Prop :=
  ∀ e ∈ Paging.below (fun e : StoredEvent Id => e.id) before (s.newestFirst scope),
    Paging.ahead (fun e : StoredEvent Id => e.id)
      (Paging.below (fun e : StoredEvent Id => e.id) before (s.newestFirst scope)) e < limit →
      e.spaceId = bus

/-- The call of one space does not meet with another's events. -/
def Apart : Call Id → Prop
  | .append id _ _ _ _ _ _ => ∀ e ∈ s.events, e.id = id → e.spaceId = bus
  | .list scope before limit => s.ListsOwn bus scope before (EventBus.clampLimit limit)
  | .subscribe scope => s.ListsOwn bus scope none 11000
  | .listInbox state flowId limit =>
    (∀ row ∈ s.inbox, isUnread row → s.Owns bus row.eventId) ∧
      ∀ row ∈ s.selected state flowId,
        Paging.ahead (·.eventId) (s.selected state flowId) row < inboxLimit limit →
          s.Owns bus row.eventId
  | .setInboxState eventId _ _ => ∀ row ∈ s.inbox, row.eventId = eventId → s.Owns bus row.eventId
  | .garbageCollect olderThanMs now =>
    (∀ e ∈ s.events, isCollected s.inbox olderThanMs e → e.spaceId = bus) ∧
      ∀ row ∈ s.inbox, isExpired now row → s.Owns bus row.eventId

instance (scope : Scope) (before : Option Id) (limit : Nat) :
    Decidable (s.ListsOwn bus scope before limit) := inferInstanceAs (Decidable (∀ _ ∈ _, _))

instance : ∀ c : Call Id, Decidable (s.Apart bus c)
  | .append _ _ _ _ _ _ _ => inferInstanceAs (Decidable (∀ _ ∈ _, _))
  | .list _ _ _ => inferInstanceAs (Decidable (s.ListsOwn _ _ _ _))
  | .subscribe _ => inferInstanceAs (Decidable (s.ListsOwn _ _ _ _))
  | .listInbox _ _ _ => inferInstanceAs (Decidable ((∀ _ ∈ _, _) ∧ ∀ _ ∈ _, _))
  | .setInboxState _ _ _ => inferInstanceAs (Decidable (∀ _ ∈ _, _))
  | .garbageCollect _ _ => inferInstanceAs (Decidable ((∀ _ ∈ _, _) ∧ ∀ _ ∈ _, _))

variable {s bus} {c : Call Id}

theorem newestFirst_ordered {scope : Scope} : (s.newestFirst scope).Pairwise fun a b => b.id < a.id :=
  List.pairwise_reverse.mpr (s.eventsOrdered.filter _)

theorem selected_ordered {state : Option InboxState} {flowId : String} :
    (s.selected state flowId).Pairwise fun a b => b.eventId < a.eventId :=
  List.pairwise_reverse.mpr (s.inboxOrdered.filter _)

theorem own_newestFirst (scope : Scope) :
    (s.own bus).newestFirst scope = (s.newestFirst scope).filter (ofSpace bus) := by
  show ((s.events.filter _).filter _).reverse = (s.events.filter _).reverse.filter _
  rw [List.filter_reverse, List.filter_filter, List.filter_filter]
  exact congrArg List.reverse (List.filter_congr fun e _ => Bool.and_comm _ _)

theorem own_selected (state : Option InboxState) (flowId : String) :
    (s.own bus).selected state flowId = (s.selected state flowId).filter (s.Owns bus ·.eventId) := by
  show ((s.inbox.filter _).filter _).reverse = (s.inbox.filter _).reverse.filter _
  rw [List.filter_reverse, List.filter_filter, List.filter_filter]
  exact congrArg List.reverse (List.filter_congr fun row _ => Bool.and_comm _ _)

theorem listed_own {scope : Scope} {before : Option Id} {limit : Nat}
    (h : s.ListsOwn bus scope before limit) :
    ∀ e ∈ (Paging.below (fun e : StoredEvent Id => e.id) before (s.newestFirst scope)).take limit,
      ofSpace bus e = true :=
  fun e he => decide_eq_true (h e (List.take_subset _ _ he)
    (Paging.ahead_lt (newestFirst_ordered.sublist Paging.sublist_below) he))

theorem replay_eq (scope : Scope) :
    s.replay scope = ((s.newestFirst scope).take 11000).reverse :=
  congrArg List.reverse
    (Paging.gather_eq newestFirst_ordered (by decide) 10 (by rw [List.length_nil])
      (by rw [List.length_nil]; decide))

theorem unreadCount_own (h : ∀ row ∈ s.inbox, isUnread row → s.Owns bus row.eventId) :
    (s.own bus).unreadCount = s.unreadCount := by
  show (s.inbox.filter _).countP isUnread = s.inbox.countP isUnread
  rw [List.countP_filter]
  refine List.countP_congr fun row hRow => ?_
  rw [Bool.and_eq_true, decide_eq_true_eq]
  exact and_iff_left_of_imp (h row hRow)

theorem keeps_iff {inbox : List (InboxRow Id)} {id : Id} :
    keeps inbox id = true ↔ ∃ row ∈ inbox, row.eventId = id ∧ row.state ≠ .read := by
  unfold keeps
  simp only [List.any_eq_true, Bool.and_eq_true, decide_eq_true_eq]

theorem keeps_own {e : StoredEvent Id} (he : e ∈ s.events) (hSpace : ofSpace bus e = true) :
    keeps (s.own bus).inbox e.id = keeps s.inbox e.id := by
  rw [Bool.eq_iff_iff, keeps_iff, keeps_iff]
  constructor
  · rintro ⟨row, hRow, hKeeps⟩
    exact ⟨row, (mem_own_inbox.mp hRow).1, hKeeps⟩
  · rintro ⟨row, hRow, hSame, hState⟩
    refine ⟨row, mem_own_inbox.mpr ⟨hRow, ?_⟩, hSame, hState⟩
    rw [hSame]
    exact (mem_kept he).mpr hSpace

theorem keeps_expire (inbox : List (InboxRow Id)) (now : Int) (id : Id) :
    keeps (inbox.map (expire now)) id = keeps inbox id := by
  unfold keeps
  rw [List.any_map]
  refine congrArg inbox.any (funext fun row => ?_)
  show (decide ((expire now row).eventId = id) && decide ((expire now row).state ≠ .read)) = _
  rw [expire_eventId]
  unfold expire
  split
  · rename_i hExpired
    have hSnoozed : row.state = .snoozed := (of_decide_eq_true hExpired).1
    rw [hSnoozed]
    rfl
  · rfl

theorem isCollected_expire (inbox : List (InboxRow Id)) (now olderThanMs : Int) :
    isCollected (inbox.map (expire now)) olderThanMs = isCollected inbox olderThanMs := by
  funext e
  unfold isCollected
  rw [keeps_expire]

theorem garbageCollect_eq (olderThanMs now : Int) :
    s.garbageCollect olderThanMs now =
      (s.mapInbox (expire now) (expire_eventId now)).keepOnly
        fun e => !isCollected s.inbox olderThanMs e := by
  refine keepOnly_congr fun e _ => ?_
  rw [← isCollected_expire s.inbox now]
  rfl

theorem isCollected_own {e : StoredEvent Id} (he : e ∈ s.events) (hSpace : ofSpace bus e = true)
    (olderThanMs : Int) :
    isCollected (s.own bus).inbox olderThanMs e = isCollected s.inbox olderThanMs e := by
  unfold isCollected
  rw [keeps_own he hSpace]

theorem answer_own (h : s.Apart bus c) : s.answer c = (s.own bus).answer c := by
  cases c with
  | append id tsMs flowId runId agentId kind payload => rfl
  | list scope before limit =>
    refine congrArg Answer.listed ?_
    unfold list
    rw [own_newestFirst, Paging.page_filter (listed_own h)]
  | subscribe scope =>
    refine congrArg Answer.replayed ?_
    have hAhead : ∀ e ∈ (s.newestFirst scope).take 11000, ofSpace bus e = true := listed_own h
    rw [replay_eq, replay_eq, own_newestFirst, Paging.take_filter hAhead]
  | listInbox state flowId limit =>
    refine congrArg₂ Answer.inbox ?_ (unreadCount_own h.1).symm
    rw [own_selected, Paging.take_filter fun row hRow => ?_]
    exact decide_eq_true (h.2 row (List.take_subset _ _ hRow) (Paging.ahead_lt selected_ordered hRow))
  | setInboxState eventId state snoozeUntil =>
    refine congrArg Answer.changed ?_
    rw [Bool.eq_iff_iff, List.any_eq_true, List.any_eq_true]
    constructor
    · rintro ⟨row, hRow, hSame⟩
      exact ⟨row, mem_own_inbox.mpr ⟨hRow, h row hRow (of_decide_eq_true hSame)⟩, hSame⟩
    · rintro ⟨row, hRow, hSame⟩
      exact ⟨row, (mem_own_inbox.mp hRow).1, hSame⟩
  | garbageCollect olderThanMs now =>
    refine congrArg Answer.collected ?_
    show s.events.countP (isCollected (s.inbox.map (expire now)) olderThanMs) =
      (s.events.filter (ofSpace bus)).countP
        (isCollected ((s.own bus).inbox.map (expire now)) olderThanMs)
    rw [isCollected_expire, isCollected_expire, List.countP_filter]
    refine List.countP_congr fun e he => ?_
    rw [Bool.and_eq_true]
    constructor
    · intro hCollected
      have hSpace : ofSpace bus e = true := decide_eq_true (h.1 e he hCollected)
      exact ⟨(isCollected_own he hSpace olderThanMs).trans hCollected, hSpace⟩
    · rintro ⟨hCollected, hSpace⟩
      exact (isCollected_own he hSpace olderThanMs).symm.trans hCollected

theorem insertEvent_old {e : StoredEvent Id} (he : e.spaceId = "") : s.insertEvent e = s.events :=
  if_pos he

theorem insertEvent_new {e : StoredEvent Id} (he : e.spaceId ≠ "") :
    s.insertEvent e =
      Rows.insertNew (fun e : StoredEvent Id => e.id) { e with payload := storedPayload e.payload }
        s.events := if_neg he

theorem mem_append {e a : StoredEvent Id} (ha : a ∈ s.events) : a ∈ (s.append e).events := by
  show a ∈ s.insertEvent e
  by_cases he : e.spaceId = ""
  · rwa [insertEvent_old he]
  · rw [insertEvent_new he]
    exact Rows.mem_insertNew.mpr (.inl ha)

theorem owns_append {e : StoredEvent Id} {id : Id} (h : id ∈ s.events.map (·.id)) :
    (s.append e).Owns bus id ↔ s.Owns bus id := by
  obtain ⟨a, ha, rfl⟩ := List.mem_map.mp h
  exact (mem_kept (mem_append ha)).trans (mem_kept ha).symm

theorem own_inbox_append {e : StoredEvent Id} :
    s.inbox.filter ((s.append e).Owns bus ·.eventId) = (s.own bus).inbox :=
  List.filter_congr fun row hRow => decide_eq_decide.mpr (owns_append (s.references row hRow))

section append

variable {e : StoredEvent Id}

theorem own_insertEvent (hSpace : e.spaceId = bus) (h : ∀ a ∈ s.events, a.id = e.id → a.spaceId = bus) :
    (s.insertEvent e).filter (ofSpace bus) = (s.own bus).insertEvent e := by
  by_cases he : e.spaceId = ""
  · rw [insertEvent_old he, insertEvent_old he]
    rfl
  · rw [insertEvent_new he, insertEvent_new he]
    exact Rows.filter_insertNew (decide_eq_true hSpace) fun a ha hSame => decide_eq_true (h a ha hSame)

theorem other_insertEvent (hSpace : e.spaceId ≠ bus) :
    (s.insertEvent e).filter (ofSpace bus) = s.events.filter (ofSpace bus) := by
  by_cases he : e.spaceId = ""
  · rw [insertEvent_old he]
  · rw [insertEvent_new he]
    exact Rows.filter_insertNew_other s.eventsOrdered (decide_eq_false hSpace)

theorem mem_own_insertEvent (hSpace : e.spaceId = bus)
    (h : ∀ a ∈ s.events, a.id = e.id → a.spaceId = bus) :
    e.id ∈ (s.insertEvent e).map (·.id) ↔ e.id ∈ ((s.own bus).insertEvent e).map (·.id) := by
  rw [← own_insertEvent hSpace h]
  constructor
  · intro hMem
    obtain ⟨a, ha, hSame⟩ := List.mem_map.mp hMem
    refine List.mem_map.mpr ⟨a, List.mem_filter.mpr ⟨ha, decide_eq_true ?_⟩, hSame⟩
    by_cases he : e.spaceId = ""
    · exact h a (insertEvent_old he ▸ ha) hSame
    · rw [insertEvent_new he] at ha
      rcases Rows.mem_insertNew.mp ha with hOld | ⟨rfl, -⟩
      · exact h a hOld hSame
      · exact hSpace
  · intro hMem
    obtain ⟨a, ha, hSame⟩ := List.mem_map.mp hMem
    exact List.mem_map.mpr ⟨a, (List.mem_filter.mp ha).1, hSame⟩

theorem own_append (hSpace : e.spaceId = bus) (h : ∀ a ∈ s.events, a.id = e.id → a.spaceId = bus) :
    (s.append e).own bus = (s.own bus).append e := by
  refine eq_of_rows (own_insertEvent hSpace h) ?_
  show (s.insertRow e).filter ((s.append e).Owns bus ·.eventId) = (s.own bus).insertRow e
  have hMem := mem_own_insertEvent hSpace h
  unfold insertRow
  by_cases hInsert : triageNeedsAction e.kind e.payload ∧ e.id ∈ (s.insertEvent e).map (·.id)
  · have hOwns : (s.append e).Owns bus e.id := by
      show e.id ∈ ((s.insertEvent e).filter (ofSpace bus)).map (·.id)
      rw [own_insertEvent hSpace h]
      exact hMem.mp hInsert.2
    rw [if_pos hInsert, if_pos ⟨hInsert.1, hMem.mp hInsert.2⟩, ← own_inbox_append (e := e)]
    refine Rows.filter_insertNew (decide_eq_true hOwns) fun row _ hSame => decide_eq_true ?_
    rwa [show row.eventId = e.id from hSame]
  · rw [if_neg hInsert, if_neg fun hOwn => hInsert ⟨hOwn.1, hMem.mpr hOwn.2⟩, own_inbox_append]

theorem other_append (hSpace : e.spaceId ≠ bus)
    (h : ∀ a ∈ s.events, a.id = e.id → a.spaceId = e.spaceId) : (s.append e).own bus = s.own bus := by
  refine eq_of_rows (other_insertEvent hSpace) ?_
  show (s.insertRow e).filter ((s.append e).Owns bus ·.eventId) = _
  rw [← own_inbox_append (e := e)]
  unfold insertRow
  split
  · refine Rows.filter_insertNew_other s.inboxOrdered (decide_eq_false fun hOwns => ?_)
    have hOwns : e.id ∈ ((s.insertEvent e).filter (ofSpace bus)).map (·.id) := hOwns
    rw [other_insertEvent hSpace] at hOwns
    obtain ⟨a, ha, hSame⟩ := List.mem_map.mp hOwns
    obtain ⟨hMem, hBus⟩ := List.mem_filter.mp ha
    exact hSpace ((h a hMem hSame).symm.trans (of_decide_eq_true hBus))
  · rfl

end append

theorem setRow_other {eventId : Id} {state : InboxState} {snoozeUntil : Option Int} {row : InboxRow Id}
    (h : row.eventId ≠ eventId) : setRow eventId state snoozeUntil row = row := if_neg h

omit [LinearOrder Id] in
theorem expire_other {now : Int} {row : InboxRow Id} (h : ¬isExpired now row) : expire now row = row :=
  if_neg h

theorem own_step (h : s.Apart bus c) : (s.step bus c).own bus = (s.own bus).step bus c := by
  cases c with
  | append id tsMs flowId runId agentId kind payload => exact own_append rfl h
  | setInboxState eventId state snoozeUntil => exact mapInbox_keepOnly (setRow_eventId _ _ _) _
  | garbageCollect olderThanMs now =>
    show (s.garbageCollect olderThanMs now).keepOnly (ofSpace bus) = (s.own bus).garbageCollect _ _
    rw [garbageCollect_eq, garbageCollect_eq, keepOnly_comm, mapInbox_keepOnly]
    refine keepOnly_congr fun e he => ?_
    obtain ⟨hMem, hSpace⟩ := List.mem_filter.mp (show e ∈ s.events.filter (ofSpace bus) from he)
    rw [isCollected_own hMem hSpace]
  | list scope before limit => rfl
  | subscribe scope => rfl
  | listInbox state flowId limit => rfl

theorem other_step {other : String} (hOther : other ≠ bus) (h : s.Apart other c) :
    (s.step other c).own bus = s.own bus := by
  cases c with
  | append id tsMs flowId runId agentId kind payload => exact other_append hOther h
  | setInboxState eventId state snoozeUntil =>
    refine (mapInbox_keepOnly (setRow_eventId _ _ _) _).trans (mapInbox_same fun row hRow => ?_)
    obtain ⟨hMem, hOwns⟩ := mem_own_inbox.mp hRow
    exact setRow_other fun hSame => not_owns hOther (h row hMem hSame) hOwns
  | garbageCollect olderThanMs now =>
    show (s.garbageCollect olderThanMs now).keepOnly (ofSpace bus) = s.own bus
    rw [garbageCollect_eq, keepOnly_comm, mapInbox_keepOnly]
    have hKept : (s.own bus).mapInbox (expire now) (expire_eventId now) = s.own bus := by
      refine mapInbox_same fun row hRow => ?_
      obtain ⟨hMem, hOwns⟩ := mem_own_inbox.mp hRow
      exact expire_other fun hExpired => not_owns hOther (h.2 row hMem hExpired) hOwns
    show ((s.own bus).mapInbox _ _).keepOnly _ = _
    rw [hKept]
    refine keepOnly_all fun e he => ?_
    obtain ⟨hMem, hSpace⟩ := List.mem_filter.mp (show e ∈ s.events.filter (ofSpace bus) from he)
    cases hCollected : isCollected s.inbox olderThanMs e with
    | false => rfl
    | true => exact absurd ((h.1 e hMem hCollected).symm.trans (of_decide_eq_true hSpace)) hOther
  | list scope before limit => rfl
  | subscribe scope => rfl
  | listInbox state flowId limit => rfl

variable (s) in
/-- Each event that needs an action has one row, each row has its event, and an event with a row that is
not read is not deleted. -/
structure Triaged : Prop where
  one : ∀ e ∈ s.events, triageNeedsAction e.kind e.payload → s.inbox.countP (·.eventId = e.id) = 1
  references : ∀ row ∈ s.inbox, row.eventId ∈ s.events.map (·.id)
  kept : ∀ olderThanMs now, ∀ e ∈ s.events, ∀ row ∈ s.inbox, row.eventId = e.id → row.state ≠ .read →
    e ∈ (s.garbageCollect olderThanMs now).events

variable (s) in
/-- The events that need an action have rows. -/
def HasRows : Prop :=
  ∀ e ∈ s.events, triageNeedsAction e.kind e.payload → e.id ∈ s.inbox.map (·.eventId)

theorem count_row {id : Id} (h : id ∈ s.inbox.map (·.eventId)) :
    s.inbox.countP (·.eventId = id) = 1 := by
  have hNodup : (s.inbox.map (·.eventId)).Nodup := (List.pairwise_map.mpr s.inboxOrdered).imp ne_of_lt
  have hCount : (s.inbox.map (·.eventId)).count id = 1 := List.count_eq_one_of_mem hNodup h
  rw [← hCount, List.count_eq_countP, List.countP_map]
  rfl

theorem collect_keeps (olderThanMs now : Int) {e : StoredEvent Id} (he : e ∈ s.events)
    {row : InboxRow Id} (hRow : row ∈ s.inbox) (hSame : row.eventId = e.id) (hState : row.state ≠ .read) :
    e ∈ (s.garbageCollect olderThanMs now).events := by
  rw [garbageCollect_eq]
  refine List.mem_filter.mpr ⟨he, ?_⟩
  unfold isCollected
  rw [keeps_iff.mpr ⟨row, hRow, hSame, hState⟩]
  simp

theorem HasRows.triaged (h : s.HasRows) : s.Triaged where
  one e he hNeeds := count_row (h e he hNeeds)
  references := s.references
  kept olderThanMs now _ he _ hRow hSame hState := collect_keeps olderThanMs now he hRow hSame hState

theorem mem_insertRow {e : StoredEvent Id} {id : Id} (h : id ∈ s.inbox.map (·.eventId)) :
    id ∈ (s.insertRow e).map (·.eventId) := by
  unfold insertRow
  split
  · obtain ⟨row, hRow, rfl⟩ := List.mem_map.mp h
    exact List.mem_map_of_mem (Rows.mem_insertNew.mpr (.inl hRow))
  · exact h

theorem insertRow_needs {e : StoredEvent Id} (hNeeds : triageNeedsAction e.kind e.payload)
    (hMem : e.id ∈ (s.insertEvent e).map (·.id)) : e.id ∈ (s.insertRow e).map (·.eventId) := by
  unfold insertRow
  rw [if_pos ⟨hNeeds, hMem⟩]
  have hKey (a : InboxRow Id) :
      a.eventId ∈ (Rows.insertNew InboxRow.eventId a s.inbox).map InboxRow.eventId :=
    Rows.key_mem_insertNew
  exact hKey _

theorem hasRows_append (h : s.HasRows) (e : StoredEvent Id) : (s.append e).HasRows := by
  intro a ha hNeeds
  have hInsert : a ∈ s.insertEvent e := ha
  by_cases he : e.spaceId = ""
  · rw [insertEvent_old he] at hInsert
    exact mem_insertRow (h a hInsert hNeeds)
  · rw [insertEvent_new he] at hInsert
    rcases Rows.mem_insertNew.mp hInsert with hOld | ⟨rfl, -⟩
    · exact mem_insertRow (h a hOld hNeeds)
    · exact insertRow_needs ((triage_stored _ _).symm.trans hNeeds) (List.mem_map.mpr ⟨_, ha, rfl⟩)

theorem hasRows_mapInbox (h : s.HasRows) {f : InboxRow Id → InboxRow Id}
    (hf : ∀ row, (f row).eventId = row.eventId) : (s.mapInbox f hf).HasRows := by
  intro e he hNeeds
  show e.id ∈ (s.inbox.map f).map (·.eventId)
  rw [List.map_map]
  show e.id ∈ s.inbox.map fun row => (f row).eventId
  simp only [hf]
  exact h e he hNeeds

theorem hasRows_keepOnly (h : s.HasRows) (part : StoredEvent Id → Bool) : (s.keepOnly part).HasRows := by
  intro e he hNeeds
  obtain ⟨hMem, -⟩ := List.mem_filter.mp (show e ∈ s.events.filter part from he)
  obtain ⟨row, hRow, hSame⟩ := List.mem_map.mp (h e hMem hNeeds)
  refine List.mem_map.mpr ⟨row, List.mem_filter.mpr ⟨hRow, decide_eq_true ?_⟩, hSame⟩
  rw [hSame]
  exact List.mem_map_of_mem he

theorem hasRows_step (h : s.HasRows) (bus : String) (c : Call Id) : (s.step bus c).HasRows := by
  cases c with
  | append id tsMs flowId runId agentId kind payload => exact hasRows_append h _
  | setInboxState eventId state snoozeUntil => exact hasRows_mapInbox h (setRow_eventId _ _ _)
  | garbageCollect olderThanMs now =>
    exact hasRows_keepOnly (hasRows_mapInbox h (expire_eventId now)) _
  | list scope before limit => exact h
  | subscribe scope => exact h
  | listInbox state flowId limit => exact h

def serve (s : SpaceStore Id) (call : String × Call Id) : Answer Id × SpaceStore Id :=
  (s.answer call.2, s.step call.1 call.2)

def stepped (s : SpaceStore Id) (call : String × Call Id) : SpaceStore Id := (s.serve call).2

/-- What the calls on a bus are answered. -/
def answersOn (bus : String) (calls : List (String × Call Id)) : List (Answer Id) :=
  Isolation.answers serve (·.1 = bus) empty calls

def isListInbox : Call Id → Bool
  | .listInbox _ _ _ => true
  | _ => false

/-- The count that a call answers with is that of the space. -/
def CountsOwn (s : SpaceStore Id) (call : String × Call Id) : Prop :=
  isListInbox call.2 → s.unreadCount = s.inbox.countP fun row => isUnread row && s.Owns call.1 row.eventId

theorem countsOwn (h : s.Apart bus c) : s.CountsOwn (bus, c) := by
  intro hList
  cases c with
  | listInbox state flowId limit =>
    rw [← unreadCount_own h.1]
    exact List.countP_filter
  | append | list | subscribe | setInboxState | garbageCollect => cases hList

end SpaceStore

open SpaceStore

theorem hasRows_empty : (empty : SpaceStore Id).HasRows := fun _ he => absurd he List.not_mem_nil

theorem own_empty (bus : String) : (empty : SpaceStore Id).own bus = empty := eq_of_rows rfl rfl

/-- In every run whose calls meet no rows of another space, the answers on each bus are those of its own
calls alone, the inbox is triaged after each part of the run, and the unread counts are those of the
spaces. -/
theorem buses_isolated (calls : List (String × Call Id))
    (hApart : History.Each stepped (fun s call => s.Apart call.1 call.2) (empty : SpaceStore Id) calls) :
    (∀ bus, answersOn bus calls = answersOn bus (calls.filter (·.1 = bus))) ∧
      (∀ done rest, calls = done ++ rest → (History.play stepped (empty : SpaceStore Id) done).Triaged) ∧
      History.Each stepped CountsOwn empty calls := by
  refine ⟨fun bus => ?_, fun done rest hSplit => ?_, ?_⟩
  · refine Isolation.answers_eq_own_of_each (R := fun s t => t = s.own bus) ?_ ?_ (own_empty bus).symm hApart
    · rintro s t ⟨other, c⟩ hCall hMine rfl
      obtain rfl : other = bus := of_decide_eq_true hMine
      exact ⟨answer_own hCall, (own_step hCall).symm⟩
    · rintro s t ⟨other, c⟩ hCall hMine rfl
      have hOther : other ≠ bus := fun hSame => hMine (decide_eq_true hSame)
      exact (other_step hOther hCall).symm
  · subst hSplit
    obtain ⟨hDone, -⟩ := History.each_append.mp hApart
    have hRows : (History.play stepped (empty : SpaceStore Id) done).HasRows :=
      History.preserves (I := HasRows) (fun _ call h _ => hasRows_step h call.1 call.2) hDone hasRows_empty
    exact hRows.triaged
  · exact History.each_of_invariant (I := fun _ => True) (fun s call _ h => ⟨trivial, countsOwn h⟩) hApart
      trivial

def twoFlows : List (String × Call Nat) :=
  [("home", .append 1 10 "draft" "" "" .error (.object [])),
    ("home", .listInbox none "" 0),
    ("home", .setInboxState 1 .read none),
    ("work", .append 2 20 "review" "" "" .error (.object [])),
    ("work", .list ⟨"review", ""⟩ none 50),
    ("home", .list ⟨"draft", ""⟩ none 50),
    ("work", .listInbox (some .unread) "" 0),
    ("home", .garbageCollect 15 30)]

/-- Two spaces whose flows have different names. -/
theorem twoFlows_isolated :
    History.Each stepped (fun s call => s.Apart call.1 call.2) (empty : SpaceStore Nat) twoFlows ∧
      answersOn "work" twoFlows = answersOn "work" (twoFlows.filter (·.1 = "work")) :=
  have hApart : History.Each stepped (fun s call => s.Apart call.1 call.2) (empty : SpaceStore Nat)
      twoFlows := by decide
  ⟨hApart, (buses_isolated twoFlows hApart).1 "work"⟩

/-- An error in one space is in the inbox of another. -/
theorem inbox_shared :
    answersOn "work"
        [("home", .append 1 10 "" "" "" .error (.object [])), ("work", .listInbox none "" 0)] ≠
      answersOn "work"
        ([("home", .append 1 10 "" "" "" .error (.object [])), ("work", .listInbox none "" 0)].filter
          (·.1 = "work")) := by
  intro hSame
  have hSame : [Answer.inbox [⟨1, .unread, none, "", .error⟩] 1] =
      [Answer.inbox ([] : List (InboxRow Nat)) 0] := hSame
  cases hSame

end Cronymax.Events
