import Cronymax.Atomic.History
import Cronymax.Table.Paging
import Cronymax.Table.Rows

/-! The event bus of a space: a table of events in the order of their ids, and subscribers that are
called with the stored events first and then with the new ones. -/

namespace Cronymax.Events

open Atomic

variable {Id : Type*}

/-- The columns that the bus looks at. -/
structure AppEvent (Id : Type*) where
  id : Id
  flowId : String
  runId : String
deriving DecidableEq

/-- `Scope`: an empty text stands for any. -/
structure Scope where
  flowId : String
  runId : String
deriving DecidableEq

/-- `ScopeMatches`. -/
def Scope.Matches (scope : Scope) (e : AppEvent Id) : Prop :=
  (scope.flowId ≠ "" → scope.flowId = e.flowId) ∧ (scope.runId ≠ "" → scope.runId = e.runId)

instance (scope : Scope) (e : AppEvent Id) : Decidable (scope.Matches e) :=
  inferInstanceAs (Decidable ((_ → _) ∧ (_ → _)))

/-- `BindText` binds an empty text as `NULL`. -/
def column (text : String) : Option String := if text = "" then none else some text

/-- The `WHERE` of the scope. -/
def Scope.Selects (scope : Scope) (e : AppEvent Id) : Prop :=
  (scope.flowId ≠ "" → column e.flowId = some scope.flowId) ∧
    (scope.runId ≠ "" → column e.runId = some scope.runId)

instance (scope : Scope) (e : AppEvent Id) : Decidable (scope.Selects e) :=
  inferInstanceAs (Decidable ((_ → _) ∧ (_ → _)))

theorem column_eq {text wanted : String} (hWanted : wanted ≠ "") :
    column text = some wanted ↔ wanted = text := by
  unfold column
  split
  · rename_i hEmpty
    rw [hEmpty]
    exact iff_of_false (fun h => by cases h) hWanted
  · rw [Option.some.injEq, eq_comm]

theorem Scope.selects_iff {scope : Scope} {e : AppEvent Id} : scope.Selects e ↔ scope.Matches e :=
  and_congr (forall_congr' column_eq) (forall_congr' column_eq)

variable [LinearOrder Id]

/-- The rows, in the order of their ids. -/
structure EventsTable (Id : Type*) [LinearOrder Id] where
  rows : List (AppEvent Id)
  ordered : rows.Pairwise fun a b => a.id < b.id

namespace EventsTable

variable (table : EventsTable Id)

/-- There is a row with the id. -/
def Stored (id : Id) : Prop := id ∈ table.rows.map (·.id)

instance (id : Id) : Decidable (table.Stored id) := inferInstanceAs (Decidable (_ ∈ _))

/-- `INSERT OR IGNORE`. -/
def insert (e : AppEvent Id) : EventsTable Id where
  rows := Rows.insertNew (fun e : AppEvent Id => e.id) e table.rows
  ordered := Rows.Ordered.insertNew table.ordered

/-- The stored events of the scope. -/
def matching (scope : Scope) : List (AppEvent Id) := table.rows.filter (scope.Matches ·)

def newestFirst (scope : Scope) : List (AppEvent Id) := (table.rows.filter (scope.Selects ·)).reverse

variable {table} {scope : Scope} {e : AppEvent Id}

theorem newestFirst_eq : table.newestFirst scope = (table.matching scope).reverse := by
  unfold newestFirst matching
  congr 1
  exact List.filter_congr fun a _ => decide_eq_decide.mpr Scope.selects_iff

theorem newestFirst_ordered : (table.newestFirst scope).Pairwise fun a b => b.id < a.id :=
  List.pairwise_reverse.mpr (table.ordered.filter _)

theorem matching_ordered : (table.matching scope).Pairwise fun a b => a.id < b.id :=
  table.ordered.filter _

theorem insert_stored (h : table.Stored e.id) : table.insert e = table := by
  cases table
  simp only [insert, Rows.insertNew_old h]

theorem rows_insert (h : ¬table.Stored e.id) :
    (table.insert e).rows = table.rows.filter (·.id < e.id) ++ e :: table.rows.filter (e.id < ·.id) :=
  Rows.insertNew_new h

theorem mem_insert {a : AppEvent Id} (ha : a ∈ table.rows) : a ∈ (table.insert e).rows :=
  Rows.mem_insertNew.mpr (.inl ha)

theorem matching_insert_other (hOther : ¬scope.Matches e) :
    (table.insert e).matching scope = table.matching scope :=
  Rows.filter_insertNew_other table.ordered (decide_eq_false hOther)

theorem matching_insert_iff (hScope : scope.Matches e) :
    (table.insert e).matching scope = table.matching scope ++ [e] ↔
      ¬table.Stored e.id ∧ ∀ a ∈ table.rows, scope.Matches a → a.id < e.id := by
  constructor
  · intro hAfter
    have hNew : ¬table.Stored e.id := by
      intro h
      rw [insert_stored h] at hAfter
      have := congrArg List.length hAfter
      simp at this
    refine ⟨hNew, fun a ha hMatches => ?_⟩
    have hOrdered : ((table.insert e).matching scope).Pairwise fun a b => a.id < b.id :=
      (table.insert e).ordered.filter _
    rw [hAfter] at hOrdered
    exact (List.pairwise_append.mp hOrdered).2.2 a
      (List.mem_filter.mpr ⟨ha, decide_eq_true hMatches⟩) e (List.mem_singleton_self e)
  · rintro ⟨hNew, hOlder⟩
    have hBefore : (table.rows.filter (·.id < e.id)).filter (scope.Matches ·) =
        table.rows.filter (scope.Matches ·) := by
      rw [List.filter_filter]
      refine List.filter_congr fun a ha => ?_
      by_cases hMatches : scope.Matches a
      · simp [hMatches, hOlder a ha hMatches]
      · simp [hMatches]
    have hBehind : (table.rows.filter (e.id < ·.id)).filter (scope.Matches ·) = [] := by
      rw [List.filter_filter]
      refine List.filter_eq_nil_iff.mpr fun a ha => ?_
      by_cases hMatches : scope.Matches a
      · simpa [hMatches] using (hOlder a ha hMatches).le
      · simp [hMatches]
    unfold matching
    rw [rows_insert hNew, List.filter_append, List.filter_cons_of_pos (by simpa using hScope),
      hBefore, hBehind]

end EventsTable

/-- `SubEntry`, with what its callback has been called with. -/
structure SubEntry (Id : Type*) where
  token : Nat
  scope : Scope
  received : List (AppEvent Id)

/-- `EventBus` with the calls of `Append` that have not taken the lock. -/
structure EventBus (Id : Type*) [LinearOrder Id] where
  events : EventsTable Id
  appends : List (Option (AppEvent Id))
  subs : List (SubEntry Id)
  /-- A `uint64_t` that `Subscribe` alone draws from: no token comes back before 2^64 calls. -/
  nextToken : Nat
  former : List (SubEntry Id)

inductive Event (Id : Type*) where
  | enter (evt : AppEvent Id)
  | commit (call : Nat) (stepped : Bool)
  | subscribe (scope : Scope)
  | unsubscribe (token : Nat)

namespace EventBus

variable (s : EventBus Id)

def new (events : EventsTable Id) : EventBus Id := ⟨events, [], [], 1, []⟩

/-- A callback whose scope matches is called. -/
def dispatch (evt : AppEvent Id) (sub : SubEntry Id) : SubEntry Id :=
  if sub.scope.Matches evt then { sub with received := sub.received ++ [evt] } else sub

/-- `Append` under its lock: whoever subscribes is told even where the insert fails. -/
def commit (evt : AppEvent Id) (stepped : Bool) : EventBus Id :=
  { s with
    events := if stepped then s.events.insert evt else s.events
    subs := s.subs.map (dispatch evt) }

def clampLimit (limit : Int) : Nat := (min (max limit 1) 1000).toNat

/-- The loop of `Subscribe` over the pages of `List`, and what it delivers: the oldest event first. -/
def replay (scope : Scope) : List (AppEvent Id) :=
  (Paging.gather (·.id) 1000 10000 (s.events.newestFirst scope) [] none).reverse

/-- `Subscribe`: the stored events first. -/
def subscribe (scope : Scope) : EventBus Id :=
  { s with
    subs := s.subs ++ [⟨s.nextToken, scope, s.replay scope⟩]
    nextToken := s.nextToken + 1 }

def unsubscribe (token : Nat) : EventBus Id :=
  { s with
    subs := s.subs.filter (·.token ≠ token)
    former := s.former ++ s.subs.filter (·.token = token) }

/-- A call of `Append` takes the lock. -/
def finish (i : Nat) (stepped : Bool) : EventBus Id :=
  match s.appends[i]? with
  | some (some evt) => { s.commit evt stepped with appends := s.appends.set i none }
  | _ => s

def step (s : EventBus Id) : Event Id → EventBus Id
  | .enter evt => { s with appends := s.appends ++ [some evt] }
  | .commit i stepped => s.finish i stepped
  | .subscribe scope => s.subscribe scope
  | .unsubscribe token => s.unsubscribe token

theorem finish_cases (i : Nat) (stepped : Bool) :
    (s.finish i stepped = s ∧ ∀ evt, s.appends[i]? ≠ some (some evt)) ∨
      ∃ evt, s.appends[i]? = some (some evt) ∧
        s.finish i stepped = { s.commit evt stepped with appends := s.appends.set i none } := by
  unfold finish
  split
  · rename_i evt hAt
    exact .inr ⟨evt, hAt, rfl⟩
  · rename_i hOver
    exact .inl ⟨rfl, hOver⟩

/-- What a caller reads who goes on with `List` from each cursor. -/
def pages (scope : Scope) (limit : Int) (fuel : Nat) : List (AppEvent Id) :=
  Paging.walk (·.id) (clampLimit limit) (s.events.newestFirst scope) fuel none

end EventBus

end Cronymax.Events
