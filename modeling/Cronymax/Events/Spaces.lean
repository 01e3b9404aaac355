import Cronymax.Authority.State
import Cronymax.Events.Bus
import Cronymax.Table.Rows

/-! The buses of several spaces over one store.  The tables `events` and `inbox` are shared, and no
statement looks at the column `space_id`: a call of one bus reads and deletes the rows of all.  As long
as no statement meets rows of another space, each bus answers as if it were alone. -/

namespace Cronymax.Events

open Authority (Value)
open scoped Rows

/-- `AppEventKind`. -/
inductive AppEventKind where
  | text
  | agentStatus
  | documentEvent
  | reviewEvent
  | handoff
  | error
  | system
  | fileEdited
  | gitCommitCreated
  | gitPushed
deriving DecidableEq

/-- A row of the table `events`. -/
structure StoredEvent (Id : Type*) extends AppEvent Id where
  tsMs : Int
  spaceId : String
  agentId : String
  kind : AppEventKind
  payload : Value

inductive InboxState where
  | unread
  | read
  | snoozed
deriving DecidableEq

/-- A row of the inbox. -/
structure InboxRow (Id : Type*) where
  eventId : Id
  state : InboxState
  snoozeUntil : Option Int
  flowId : String
  kind : AppEventKind
deriving DecidableEq

def textAt (payload : Value) (key : String) : Option String := (payload.get key).bind Value.asStr

def textsAt (payload : Value) (key : String) : List String :=
  match payload.get key with
  | some (.array items) => items.filterMap Value.asStr
  | _ => []

def currentUserId : String := "me"

/-- `TriageNeedsAction`. -/
def triageNeedsAction (kind : AppEventKind) (payload : Value) : Bool :=
  match kind with
  | .reviewEvent =>
    textAt payload "verdict" = some "request_changes" && textAt payload "reviewer" = some "human"
  | .text => currentUserId ∈ textsAt payload "mentions"
  | .error => textAt payload "scope" ≠ some "tool"
  | .system => textAt payload "subkind" = some "run_paused" && textAt payload "cause" = some "human_approval"
  | _ => false

/-- What of a payload is stored. -/
def storedPayload : Value → Value
  | .object fields => .object fields
  | _ => .object []

theorem triage_stored (kind : AppEventKind) (payload : Value) :
    triageNeedsAction kind (storedPayload payload) = triageNeedsAction kind payload := by
  cases payload <;> rfl

variable {Id : Type*} [LinearOrder Id]

/-- The tables that all buses share: events and inbox. -/
structure SpaceStore (Id : Type*) [LinearOrder Id] where
  events : List (StoredEvent Id)
  inbox : List (InboxRow Id)
  eventsOrdered : Rows.Ordered (fun e : StoredEvent Id => e.id) events
  inboxOrdered : Rows.Ordered (·.eventId) inbox
  references : ∀ row ∈ inbox, row.eventId ∈ events.map (·.id)

/-- A call of a bus. -/
inductive Call (Id : Type*) where
  | append (id : Id) (tsMs : Int) (flowId runId agentId : String) (kind : AppEventKind) (payload : Value)
  | list (scope : Scope) (before : Option Id) (limit : Int)
  | subscribe (scope : Scope)
  | listInbox (state : Option InboxState) (flowId : String) (limit : Int)
  | setInboxState (eventId : Id) (state : InboxState) (snoozeUntil : Option Int)
  | garbageCollect (olderThanMs now : Int)

/-- What a call is answered. -/
inductive Answer (Id : Type*) where
  | appended (id : Id)
  | listed (page : Paging.Page (StoredEvent Id) Id)
  | replayed (events : List (StoredEvent Id))
  | inbox (rows : List (InboxRow Id)) (unreadCount : Nat)
  | changed (any : Bool)
  | collected (count : Nat)

namespace SpaceStore

def empty : SpaceStore Id := ⟨[], [], List.Pairwise.nil, List.Pairwise.nil, by simp⟩

variable (s : SpaceStore Id)

def insertEvent (e : StoredEvent Id) : List (StoredEvent Id) :=
  if e.spaceId = "" then s.events
  else Rows.insertNew (fun e : StoredEvent Id => e.id) { e with payload := storedPayload e.payload } s.events

/-- An event that needs attention comes to the inbox. -/
def insertRow (e : StoredEvent Id) : List (InboxRow Id) :=
  if triageNeedsAction e.kind e.payload ∧ e.id ∈ (s.insertEvent e).map (·.id) then
    Rows.insertNew (·.eventId) ⟨e.id, .unread, none, e.flowId, e.kind⟩ s.inbox
  else s.inbox

variable {s} in
theorem mem_insertEvent {e : StoredEvent Id} {id : Id} (h : id ∈ s.events.map (·.id)) :
    id ∈ (s.insertEvent e).map (·.id) := by
  unfold insertEvent
  split
  · exact h
  · obtain ⟨a, ha, rfl⟩ := List.mem_map.mp h
    exact List.mem_map_of_mem (Rows.mem_insertNew.mpr (.inl ha))

/-- `Append`. -/
def append (e : StoredEvent Id) : SpaceStore Id where
  events := s.insertEvent e
  inbox := s.insertRow e
  eventsOrdered := by
    unfold insertEvent
    split
    · exact s.eventsOrdered
    · exact s.eventsOrdered.insertNew
  inboxOrdered := by
    unfold insertRow
    split
    · exact s.inboxOrdered.insertNew
    · exact s.inboxOrdered
  references row hRow := by
    unfold insertRow at hRow
    split at hRow
    · rename_i hInsert
      rcases Rows.mem_insertNew.mp hRow with hOld | ⟨rfl, _⟩
      · exact mem_insertEvent (s.references row hOld)
      · exact hInsert.2
    · exact mem_insertEvent (s.references row hRow)

def newestFirst (scope : Scope) : List (StoredEvent Id) :=
  (s.events.filter (scope.Selects ·.toAppEvent)).reverse

def list (scope : Scope) (before : Option Id) (limit : Int) : Paging.Page (StoredEvent Id) Id :=
  Paging.page (fun e : StoredEvent Id => e.id) (EventBus.clampLimit limit) before (s.newestFirst scope)

/-- What a new subscriber is delivered. -/
def replay (scope : Scope) : List (StoredEvent Id) :=
  (Paging.gather (fun e : StoredEvent Id => e.id) 1000 10000 (s.newestFirst scope) [] none).reverse

/-- The `WHERE` of `ListInbox`. -/
def selectsRow (state : Option InboxState) (flowId : String) (row : InboxRow Id) : Bool :=
  (∀ wanted ∈ state, wanted = row.state) ∧ (flowId ≠ "" → column row.flowId = some flowId)

def inboxLimit (limit : Int) : Nat := if 0 < limit then limit.toNat else 100

def selected (state : Option InboxState) (flowId : String) : List (InboxRow Id) :=
  (s.inbox.filter (selectsRow state flowId)).reverse

def isUnread (row : InboxRow Id) : Bool := row.state = .unread

/-- The count of the unread rows, of whatever space. -/
def unreadCount : Nat := s.inbox.countP isUnread

/-- A row gets another state. -/
def setRow (eventId : Id) (state : InboxState) (snoozeUntil : Option Int) (row : InboxRow Id) :
    InboxRow Id :=
  if row.eventId = eventId then { row with state, snoozeUntil } else row

def isExpired (now : Int) (row : InboxRow Id) : Bool :=
  row.state = .snoozed ∧ ∃ time ∈ row.snoozeUntil, time ≤ now

/-- A snoozed row whose time is over is unread again. -/
def expire (now : Int) (row : InboxRow Id) : InboxRow Id :=
  if isExpired now row then { row with state := .unread, snoozeUntil := none } else row

/-- The inbox keeps the event from being collected. -/
def keeps (inbox : List (InboxRow Id)) (id : Id) : Bool :=
  inbox.any fun row => row.eventId = id && row.state ≠ .read

/-- The event is old and nothing keeps it. -/
def isCollected (inbox : List (InboxRow Id)) (olderThanMs : Int) (e : StoredEvent Id) : Bool :=
  e.tsMs < olderThanMs && !keeps inbox e.id

theorem ordered_map {f : InboxRow Id → InboxRow Id} (hf : ∀ row, (f row).eventId = row.eventId)
    {rows : List (InboxRow Id)} (h : Rows.Ordered (·.eventId) rows) :
    Rows.Ordered (·.eventId) (rows.map f) := by
  refine List.pairwise_map.mpr (h.imp fun {a b} hLess => ?_)
  show (f a).eventId < (f b).eventId
  rwa [hf, hf]

theorem setRow_eventId (eventId : Id) (state : InboxState) (snoozeUntil : Option Int)
    (row : InboxRow Id) : (setRow eventId state snoozeUntil row).eventId = row.eventId := by
  unfold setRow
  split <;> rfl

omit [LinearOrder Id] in
theorem expire_eventId (now : Int) (row : InboxRow Id) : (expire now row).eventId = row.eventId := by
  unfold expire
  split <;> rfl

def mapInbox (f : InboxRow Id → InboxRow Id) (hf : ∀ row, (f row).eventId = row.eventId) :
    SpaceStore Id where
  events := s.events
  inbox := s.inbox.map f
  eventsOrdered := s.eventsOrdered
  inboxOrdered := ordered_map hf s.inboxOrdered
  references row hRow := by
    obtain ⟨old, hOld, rfl⟩ := List.mem_map.mp hRow
    rw [hf]
    exact s.references old hOld

def keepOnly (part : StoredEvent Id → Bool) : SpaceStore Id where
  events := s.events.filter part
  inbox := s.inbox.filter (·.eventId ∈ (s.events.filter part).map (·.id))
  eventsOrdered := s.eventsOrdered.filter _
  inboxOrdered := s.inboxOrdered.filter _
  references row hRow := by simpa using (List.mem_filter.mp hRow).2

/-- `GarbageCollect`: the events of every space. -/
def garbageCollect (olderThanMs now : Int) : SpaceStore Id :=
  let expired := s.mapInbox (expire now) (expire_eventId now)
  expired.keepOnly fun e => !isCollected expired.inbox olderThanMs e

/-- The store after a call. -/
def step (bus : String) : Call Id → SpaceStore Id
  | .append id tsMs flowId runId agentId kind payload =>
    s.append { id, flowId, runId, tsMs, spaceId := bus, agentId, kind, payload }
  | .setInboxState eventId state snoozeUntil =>
    s.mapInbox (setRow eventId state snoozeUntil) (setRow_eventId eventId state snoozeUntil)
  | .garbageCollect olderThanMs now => s.garbageCollect olderThanMs now
  | .list _ _ _ | .subscribe _ | .listInbox _ _ _ => s

/-- What a call answers. -/
def answer : Call Id → Answer Id
  | .append id _ _ _ _ _ _ => .appended id
  | .list scope before limit => .listed (s.list scope before limit)
  | .subscribe scope => .replayed (s.replay scope)
  | .listInbox state flowId limit =>
    .inbox ((s.selected state flowId).take (inboxLimit limit)) s.unreadCount
  | .setInboxState eventId _ _ => .changed (s.inbox.any (·.eventId = eventId))
  | .garbageCollect olderThanMs now =>
    .collected (s.events.countP
      (isCollected (s.mapInbox (expire now) (expire_eventId now)).inbox olderThanMs))

end SpaceStore

end Cronymax.Events
