import Cronymax.Atomic.Outbox
import Cronymax.Table.Edits

/-! The registry of webview panels and the events from which the renderer builds its own set of
panels.  A call changes the map under the lock and emits what it has done after it has released it. -/

namespace Cronymax.Extensions

open Atomic

inductive PanelSlot where
  | sidebar
  | settings
  | tab
  | activityBar
  | statusBar
deriving DecidableEq

def PanelSlot.idlStr : PanelSlot → String
  | .sidebar => "sidebar"
  | .settings => "settings"
  | .tab => "tab"
  | .activityBar => "activitybar"
  | .statusBar => "statusbar"

structure CreatePanelArgs where
  extId : String
  panelId : String
  title : String
  slot : PanelSlot
  entry : String

/-- `PanelView`. -/
structure PanelView where
  extId : String
  panelId : String
  title : String
  slot : PanelSlot
  entry : String
  visible : Bool
deriving DecidableEq

inductive WebviewEvent where
  | panelCreated (extId panelId title slot entry url : String)
  | panelDisposed (panelId : String)
  | visibilityChanged (panelId : String) (visible : Bool)
deriving DecidableEq

def WebviewEvent.panelId : WebviewEvent → String
  | .panelCreated _ panelId _ _ _ _ => panelId
  | .panelDisposed panelId => panelId
  | .visibilityChanged panelId _ => panelId

/-- `ExtensionError::BadContribution`. -/
structure BadContribution where
  point : String
  extId : String
  reason : String

/-- `trim_start_matches("./")`. -/
def trimDotSlash : List Char → List Char
  | '.' :: '/' :: rest => trimDotSlash rest
  | cs => cs

def escapeChar : Char → List Char
  | '?' => "%3F".toList
  | '#' => "%23".toList
  | '&' => "%26".toList
  | '=' => "%3D".toList
  | ' ' => "%20".toList
  | '/' => "%2F".toList
  | '\\' => "%5C".toList
  | c => [c]

def escape (s : String) : String := String.ofList (s.toList.flatMap escapeChar)

/-- `url_for_surface`. -/
def urlForSurface (extId surface id entry : String) : String :=
  let cleaned := String.ofList ((trimDotSlash entry.toList).dropWhile (· = '/'))
  "cronymax-webview://" ++ extId ++ "/" ++ cleaned ++ "?surface=" ++ escape surface ++ "&id=" ++ escape id

def urlFor (extId panelId entry : String) : String := urlForSurface extId "panel" panelId entry

abbrev Panels := Table String PanelView

/-- The order in which a map is gone through. -/
structure Iteration where
  list : Finset String → List String
  nodup : ∀ keys, (list keys).Nodup
  mem : ∀ keys key, key ∈ list keys ↔ key ∈ keys

/-- What a call answers, leaves and announces. -/
structure PanelSection (α : Type) where
  result : Except BadContribution α
  panels : Panels
  events : List WebviewEvent

def badPanel (extId reason : String) : BadContribution := ⟨"cronymax.window.panel", extId, reason⟩

namespace Panels

variable (panels : Panels)

/-- `create`: a panel of another extension is refused. -/
def create (args : CreatePanelArgs) : PanelSection PanelView :=
  match panels.lookup args.panelId with
  | some _ => ⟨.error (badPanel args.extId ("panel `" ++ args.panelId ++ "` already exists")), panels, []⟩
  | none =>
    let view : PanelView := ⟨args.extId, args.panelId, args.title, args.slot, args.entry, false⟩
    ⟨.ok view, panels.insert args.panelId view,
      [.panelCreated view.extId view.panelId view.title view.slot.idlStr view.entry
        (urlFor view.extId view.panelId view.entry)]⟩

def ownedBy (panelId owner extId : String) : String :=
  "panel `" ++ panelId ++ "` is owned by `" ++ owner ++ "`, not `" ++ extId ++ "`"

/-- `dispose`: only by the owner. -/
def dispose (extId panelId : String) : PanelSection Bool :=
  match panels.lookup panelId with
  | some p =>
    if p.extId = extId then ⟨.ok true, panels.erase panelId, [.panelDisposed panelId]⟩
    else ⟨.error (badPanel extId (ownedBy panelId p.extId extId)), panels, []⟩
  | none => ⟨.ok false, panels, []⟩

def owned (order : Iteration) (extId : String) : List String :=
  (order.list panels.keys).filter fun id => (panels.lookup id).any (·.extId = extId)

/-- `dispose_all_for`. -/
def disposeAllFor (order : Iteration) (extId : String) : PanelSection Nat :=
  let removed := owned panels order extId
  ⟨.ok removed.length, removed.foldl (fun t id => t.erase id) panels, removed.map .panelDisposed⟩

/-- `set_visible`: only by the owner. -/
def setVisible (extId panelId : String) (visible : Bool) : PanelSection Unit :=
  match panels.lookup panelId with
  | none => ⟨.error (badPanel extId ("panel `" ++ panelId ++ "` does not exist")), panels, []⟩
  | some p =>
    if p.extId ≠ extId then ⟨.error (badPanel extId (ownedBy panelId p.extId extId)), panels, []⟩
    else ⟨.ok (), panels.insert panelId { p with visible }, [.visibilityChanged panelId visible]⟩

end Panels

/-- A call of the registry. -/
inductive PanelCall where
  | create (args : CreatePanelArgs)
  | dispose (extId panelId : String)
  | disposeAllFor (order : Iteration) (extId : String)
  | setVisible (extId panelId : String) (visible : Bool)

def PanelCall.act (panels : Panels) : PanelCall → Panels × List WebviewEvent
  | .create args => ((panels.create args).panels, (panels.create args).events)
  | .dispose extId panelId => ((panels.dispose extId panelId).panels, (panels.dispose extId panelId).events)
  | .disposeAllFor order extId =>
    ((panels.disposeAllFor order extId).panels, (panels.disposeAllFor order extId).events)
  | .setVisible extId panelId visible =>
    ((panels.setVisible extId panelId visible).panels, (panels.setVisible extId panelId visible).events)

/-- A panel as the renderer knows it. -/
structure ShownPanel where
  extId : String
  title : String
  slot : String
  entry : String
  visible : Bool
deriving DecidableEq

def PanelView.shown (p : PanelView) : ShownPanel := ⟨p.extId, p.title, p.slot.idlStr, p.entry, p.visible⟩

/-- What a listener knows of a panel after an event. -/
def look (p : Option ShownPanel) : WebviewEvent → Option ShownPanel
  | .panelCreated extId _ title slot entry _ => some ⟨extId, title, slot, entry, false⟩
  | .panelDisposed _ => none
  | .visibilityChanged _ visible => p.map ({ · with visible })

def replayEvent (shown : Table String ShownPanel) (e : WebviewEvent) : Table String ShownPanel :=
  match look (shown.lookup e.panelId) e with
  | some p => shown.insert e.panelId p
  | none => shown.erase e.panelId

/-- The panels that a listener knows after these events. -/
def replay (events : List WebviewEvent) : Table String ShownPanel := events.foldl replayEvent ∅

/-- The event can come after what is known of its panel. -/
def Follows (p : Option ShownPanel) : WebviewEvent → Prop
  | .panelCreated _ _ _ _ _ _ => p = none
  | .panelDisposed _ | .visibilityChanged _ _ => p.isSome

theorem lookup_replayEvent (shown : Table String ShownPanel) (e : WebviewEvent) (id : String) :
    (replayEvent shown e).lookup id =
      if e.panelId = id then look (shown.lookup id) e else shown.lookup id := by
  unfold replayEvent
  by_cases hId : e.panelId = id
  · subst hId
    rw [if_pos rfl]
    split
    · rename_i p hLook
      rw [hLook, Finmap.lookup_insert]
    · rename_i hLook
      rw [hLook, Finmap.lookup_erase]
  · rw [if_neg hId]
    split
    · exact Finmap.lookup_insert_of_ne _ (Ne.symm hId)
    · exact Finmap.lookup_erase_ne (Ne.symm hId)

theorem lookup_replay (events : List WebviewEvent) (id : String) :
    (replay events).lookup id = (events.filter (·.panelId = id)).foldl look none := by
  suffices h : ∀ shown : Table String ShownPanel, (events.foldl replayEvent shown).lookup id =
      (events.filter (·.panelId = id)).foldl look (shown.lookup id) by
    exact h ∅
  induction events with
  | nil => exact fun _ => rfl
  | cons e events ih =>
    intro shown
    rw [List.foldl_cons, ih, lookup_replayEvent]
    by_cases hId : e.panelId = id <;> simp [hId]

def shownAt (panels : Panels) (id : String) : Option ShownPanel := (panels.lookup id).map (·.shown)

theorem lookup_eraseAll (ids : List String) (panels : Panels) (id : String) :
    (ids.foldl (fun t id => t.erase id) panels).lookup id = if id ∈ ids then none else panels.lookup id := by
  induction ids generalizing panels with
  | nil => simp
  | cons d ids ih =>
    rw [List.foldl_cons, ih]
    by_cases hId : id = d
    · subst hId
      simp
    · rw [Finmap.lookup_erase_ne hId]
      simp [hId]

theorem act_single (panels : Panels) (c : PanelCall) :
    ((c.act panels).2.map WebviewEvent.panelId).Nodup := by
  cases c with
  | create args =>
    simp only [PanelCall.act, Panels.create]
    split <;> simp
  | dispose extId panelId =>
    simp only [PanelCall.act, Panels.dispose]
    split
    · split <;> simp
    · simp
  | disposeAllFor order extId =>
    simp only [PanelCall.act, Panels.disposeAllFor, List.map_map]
    exact ((order.nodup panels.keys).filter _).map fun _ _ h => h
  | setVisible extId panelId visible =>
    simp only [PanelCall.act, Panels.setVisible]
    split
    · simp
    · split <;> simp

theorem fold_disposed (ids : List String) (id : String) (v : Option ShownPanel) :
    ((ids.map WebviewEvent.panelDisposed).filter (·.panelId = id)).foldl look v =
      if id ∈ ids then none else v := by
  induction ids generalizing v with
  | nil => simp
  | cons d ids ih =>
    by_cases hId : d = id
    · subst hId
      rw [List.map_cons, List.filter_cons_of_pos (by simp [WebviewEvent.panelId]), List.foldl_cons, ih]
      simp [look]
    · rw [List.map_cons, List.filter_cons_of_neg (by simp [WebviewEvent.panelId, hId]), ih]
      simp [Ne.symm hId]

theorem told_one {panels panels' : Panels} {events : List WebviewEvent} {id : String} (e : WebviewEvent)
    (hEvents : events = [e]) (hSelf : shownAt panels' e.panelId = look (shownAt panels e.panelId) e)
    (hOther : ∀ id, id ≠ e.panelId → panels'.lookup id = panels.lookup id) :
    shownAt panels' id = (events.filter (·.panelId = id)).foldl look (shownAt panels id) := by
  subst hEvents
  by_cases hId : e.panelId = id
  · subst hId
    simpa using hSelf
  · rw [List.filter_cons_of_neg (by simpa using hId)]
    unfold shownAt
    rw [hOther id (Ne.symm hId)]
    rfl

theorem act_told (panels : Panels) (c : PanelCall) (id : String) :
    shownAt (c.act panels).1 id =
      ((c.act panels).2.filter (·.panelId = id)).foldl look (shownAt panels id) := by
  cases c with
  | create args =>
    simp only [PanelCall.act, Panels.create]
    split
    · rfl
    · refine told_one _ rfl ?_ fun id hId => ?_
      · simp [shownAt, look, WebviewEvent.panelId, PanelView.shown]
      · exact Finmap.lookup_insert_of_ne _ hId
  | dispose extId panelId =>
    simp only [PanelCall.act, Panels.dispose]
    split
    · split
      · refine told_one _ rfl ?_ fun id hId => ?_
        · simp [shownAt, look, WebviewEvent.panelId]
        · exact Finmap.lookup_erase_ne hId
      · rfl
    · rfl
  | disposeAllFor order extId =>
    simp only [PanelCall.act, Panels.disposeAllFor]
    rw [fold_disposed, shownAt, lookup_eraseAll]
    split <;> rfl
  | setVisible extId panelId visible =>
    simp only [PanelCall.act, Panels.setVisible]
    split
    · rfl
    · rename_i p hPanel
      split
      · rfl
      · refine told_one _ rfl ?_ fun id hId => ?_
        · simp [shownAt, look, WebviewEvent.panelId, PanelView.shown, hPanel]
        · exact Finmap.lookup_insert_of_ne _ hId

theorem mem_owned {panels : Panels} {order : Iteration} {extId id : String} :
    id ∈ panels.owned order extId ↔ ∃ p, panels.lookup id = some p ∧ p.extId = extId := by
  unfold Panels.owned
  rw [List.mem_filter, order.mem, Finmap.mem_keys, ← Finmap.lookup_isSome]
  cases panels.lookup id <;> simp

theorem act_fits (panels : Panels) (c : PanelCall) :
    ∀ e ∈ (c.act panels).2, Follows (shownAt panels e.panelId) e := by
  cases c with
  | create args =>
    simp only [PanelCall.act, Panels.create]
    split
    · intro e he
      cases he
    · rename_i hNone
      intro e he
      obtain rfl := List.mem_singleton.mp he
      simp [Follows, shownAt, WebviewEvent.panelId, hNone]
  | dispose extId panelId =>
    simp only [PanelCall.act, Panels.dispose]
    split
    · rename_i p hPanel
      split
      · intro e he
        obtain rfl := List.mem_singleton.mp he
        simp [Follows, shownAt, WebviewEvent.panelId, hPanel]
      · intro e he
        cases he
    · intro e he
      cases he
  | disposeAllFor order extId =>
    intro e he
    obtain ⟨id, hId, rfl⟩ := List.mem_map.mp he
    obtain ⟨p, hPanel, -⟩ := mem_owned.mp hId
    simp [Follows, shownAt, WebviewEvent.panelId, hPanel]
  | setVisible extId panelId visible =>
    simp only [PanelCall.act, Panels.setVisible]
    split
    · intro e he
      cases he
    · rename_i p hPanel
      split
      · intro e he
        cases he
      · intro e he
        obtain rfl := List.mem_singleton.mp he
        simp [Follows, shownAt, WebviewEvent.panelId, hPanel]

/-- The registry with the listener that mirrors it. -/
def panelMirror : Mirror Panels PanelCall WebviewEvent String ShownPanel where
  act panels c := c.act panels
  key := WebviewEvent.panelId
  read := shownAt
  look := look
  fits := Follows
  single := act_single
  told := act_told
  fitting := act_fits

abbrev PanelMove := Outbox.Move PanelCall

abbrev PanelSystem := Outbox Panels WebviewEvent

def stepPanels (o : PanelSystem) (e : PanelMove) : PanelSystem := o.move panelMirror.act e

/-- No event of a panel is still to be told when the next one comes. -/
def Unhurried (o : PanelSystem) (e : PanelMove) : Prop := panelMirror.Calm o e

/-- The events of each panel follow one another. -/
def Regular (events : List WebviewEvent) : Prop :=
  ∀ id, panelMirror.Follows none (events.filter (·.panelId = id))

/-- In every run in which no call overtakes the events about its panels, the events are regular, and at
rest each change has been emitted once, in order, and the replay shows the panels of the registry. -/
theorem replay_shows_panels (moves : List PanelMove)
    (hUnhurried : History.Each stepPanels Unhurried (.start ∅) moves) :
    let o := History.play stepPanels (.start ∅) moves
    Regular o.log ∧
      (o.AtRest → ∀ id, o.log.filter (·.panelId = id) = o.announced.filter (·.panelId = id) ∧
        (replay o.log).lookup id = (o.state.lookup id).map (·.shown)) := by
  have hOrderly := Mirror.orderly_of_calm (m := panelMirror) (s := ∅) hUnhurried
  refine ⟨hOrderly.follows_log, fun hRest id => ⟨hOrderly.sent_at_rest hRest id, ?_⟩⟩
  rw [lookup_replay]
  exact hOrderly.shown_at_rest hRest id

section Examples

def notes : CreatePanelArgs := ⟨"alice.x", "notes", "Notes", .sidebar, "./notes.html"⟩

def createAndDispose : List PanelMove :=
  [.call (.create notes), .emit 0, .call (.dispose "alice.x" "notes"), .emit 1]

/-- A panel is announced before it is disposed of. -/
theorem createAndDispose_shown :
    let o := History.play stepPanels (.start ∅) createAndDispose
    Regular o.log ∧
      (o.AtRest → ∀ id, o.log.filter (·.panelId = id) = o.announced.filter (·.panelId = id) ∧
        (replay o.log).lookup id = (o.state.lookup id).map (·.shown)) := by
  refine replay_shows_panels createAndDispose ⟨?_, trivial, ?_, trivial, trivial⟩
  · intro e _
    rfl
  · intro e he
    rfl

/-- The disposal is emitted first: the renderer is left with a panel that is gone. -/
theorem disposed_before_created :
    let o := History.play stepPanels (.start ∅)
      [.call (.create notes), .call (.dispose "alice.x" "notes"), .emit 1, .emit 0]
    o.AtRest ∧ o.state.lookup "notes" = none ∧
      (replay o.log).lookup "notes" = some ⟨"alice.x", "Notes", "sidebar", "./notes.html", false⟩ := by
  refine ⟨?_, rfl, rfl⟩
  intro events h
  have hPending : events ∈ ([[], []] : List (List WebviewEvent)) := h
  simpa using hPending

end Examples

end Cronymax.Extensions
