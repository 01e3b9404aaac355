import Mathlib.Logic.Function.Basic
import Cronymax.Extensions.Contributions
import Cronymax.Extensions.EventBus
import Cronymax.Extensions.Webviews

/-! What the hosts of the extensions leave in the registries of the platform: the calls by which a host
registers, the activation and deactivation of an extension, and the restart of a host that has
crashed. -/

namespace Cronymax.Extensions.Hosts

/-- The errors of a host's calls. -/
inductive CallError where
  | badContribution (e : BadContribution)
  | namespaceReserved (message : String)
  | bus (e : BusError)
  | notActivated (id : String)

/-- A manifest with `capabilities.events`. -/
structure HostManifest extends Declaration where
  subscribe : List String
  emit : List String

/-- One kind of registrations, with the texts of its errors. -/
structure Kind (β : Type) where
  owner : β → String
  point : String
  reserved : String → String
  taken : String → String → String
  foreign : String → String → String → String

namespace Kind

variable {β : Type} (kind : Kind β) (entries : String → Option β)

/-- `register`: an id that another extension has is refused. -/
def register (id : String) (entry : β) : Except CallError Unit × (String → Option β) :=
  if Reserved id then (.error (.namespaceReserved (kind.reserved id)), entries)
  else
    match entries id with
    | some existing =>
      if kind.owner existing ≠ kind.owner entry then
        (.error (.badContribution
          ⟨kind.point, kind.owner entry, kind.taken id (kind.owner existing)⟩), entries)
      else (.ok (), Function.update entries id (some entry))
    | none => (.ok (), Function.update entries id (some entry))

/-- `unregister`: only by the owner. -/
def unregister (extId id : String) : Except CallError Unit × (String → Option β) :=
  match entries id with
  | some existing =>
    if kind.owner existing ≠ extId then
      (.error (.badContribution ⟨kind.point, extId, kind.foreign id (kind.owner existing) extId⟩), entries)
    else (.ok (), Function.update entries id none)
  | none => (.ok (), entries)

/-- `unregister_all_for`. -/
def retain (extId : String) : String → Option β := fun id => (entries id).filter (kind.owner · ≠ extId)

end Kind

structure ProviderEntry where
  providerId : String
  owningExt : String
  label : String
  icon : Option String
  description : Option String
  supportsModels : Bool
  supportsModes : Bool
  supportsMcp : Bool

structure SidebarViewEntry where
  viewId : String
  owningExt : String
  title : String
  icon : Option String
  entry : String

def providerKind : Kind ProviderEntry where
  owner := ProviderEntry.owningExt
  point := "cronymax.agents.provider"
  reserved id := "agent provider id `" ++ id ++ "` is reserved by the platform"
  taken id owner := "provider id `" ++ id ++ "` is already owned by `" ++ owner ++ "`"
  foreign id owner extId := "provider `" ++ id ++ "` is owned by `" ++ owner ++ "`, not `" ++ extId ++ "`"

def commandKind : Kind String where
  owner := id
  point := "cronymax.command"
  reserved id := "command id `" ++ id ++ "` is in the platform namespace"
  taken id owner := "command `" ++ id ++ "` is already owned by `" ++ owner ++ "`"
  foreign id owner extId := "command `" ++ id ++ "` is owned by `" ++ owner ++ "`, not `" ++ extId ++ "`"

def sidebarKind : Kind SidebarViewEntry where
  owner := SidebarViewEntry.owningExt
  point := "cronymax.ui.sidebar.view"
  reserved id := "sidebar view id `" ++ id ++ "` is reserved by the platform"
  taken id owner := "sidebar view id `" ++ id ++ "` is already owned by `" ++ owner ++ "`"
  foreign id owner extId :=
    "sidebar view `" ++ id ++ "` is owned by `" ++ owner ++ "`, not `" ++ extId ++ "`"

/-- Everything that hosts register themselves with. -/
structure Registries where
  providers : String → Option ProviderEntry
  commands : String → Option String
  sidebars : String → Option SidebarViewEntry
  webviews : Panels
  events : EventBus
  sessionRouter : String → Option String
  handles : String → Option (List (String × Nat))

/-- What a host asks for. -/
inductive Call where
  | registerProvider (providerId : String)
  | unregisterProvider (providerId : String)
  | registerCommand (commandId : String)
  | unregisterCommand (commandId : String)
  | registerView (viewId : String)
  | unregisterView (viewId : String)
  | createPanel (panelId title : String) (slot : PanelSlot) (entry : String)
  | disposePanel (panelId : String)
  | setVisible (panelId : String) (visible : Bool)
  | subscribe (topic : String)
  | unsubscribe (topic : String)

inductive Reply where
  | done
  | panel (view : PanelView)

namespace Registries

def empty : Registries :=
  ⟨fun _ => none, fun _ => none, fun _ => none, ∅, .new, fun _ => none, fun _ => none⟩

variable (m : HostManifest) (extId : String) (r : Registries)

/-- The guards of a handle are dropped. -/
def dropGuards (b : EventBus) (guards : List (String × Nat)) : EventBus :=
  guards.foldl (fun b guard => b.dropGuard guard.2) b

/-- `register_provider_handler`. -/
def registerProvider (providerId : String) :
    Except CallError Unit × (String → Option ProviderEntry) :=
  match m.contributes.agentProviders.find? (·.id = providerId) with
  | some decl =>
    providerKind.register r.providers decl.id
      ⟨decl.id, extId, decl.label, decl.icon, decl.description, decl.supportsModels.getD false,
        decl.supportsModes.getD false, decl.supportsMcp.getD false⟩
  | none =>
    (.error (.badContribution ⟨"cronymax.agents.provider", extId,
      "provider `" ++ providerId ++ "` not declared in manifest contributes"⟩), r.providers)

/-- `register_sidebar_handler`. -/
def registerView (viewId : String) : Except CallError Unit × (String → Option SidebarViewEntry) :=
  match m.contributes.sidebarViews.find? (·.id = viewId) with
  | some decl =>
    sidebarKind.register r.sidebars decl.id ⟨decl.id, extId, decl.title, decl.icon, decl.entry⟩
  | none =>
    (.error (.badContribution ⟨"cronymax.ui.sidebar.view", extId,
      "sidebar view `" ++ viewId ++ "` not declared in manifest contributes"⟩), r.sidebars)

/-- A subscription whose guard the handle keeps. -/
def subscribe (topic : String) : Except CallError Unit × Registries :=
  match r.handles extId with
  | some guards =>
    match r.events.subscribe extId topic with
    | (.ok id, events) =>
      (.ok (), { r with
        events
        handles := Function.update r.handles extId (some (guards ++ [(topic, id)])) })
    | (.error e, events) => (.error (.bus e), { r with events })
  | none => (.error (.notActivated extId), r)

def unsubscribe (topic : String) : Registries :=
  match r.handles extId with
  | some guards =>
    { r with
      events := dropGuards r.events (guards.filter (·.1 = topic))
      handles := Function.update r.handles extId (some (guards.filter (·.1 ≠ topic))) }
  | none => r

def panelReply {α : Type} (reply : α → Reply) : Except BadContribution α → Except CallError Reply
  | .ok a => .ok (reply a)
  | .error e => .error (.badContribution e)

/-- The answer of a call, and the registries after it. -/
def call : Call → Except CallError Reply × Registries
  | .registerProvider id =>
    let (result, providers) := r.registerProvider m extId id
    (result.map fun _ => .done, { r with providers })
  | .unregisterProvider id =>
    let (result, providers) := providerKind.unregister r.providers extId id
    (result.map fun _ => .done, { r with providers })
  | .registerCommand id =>
    let (result, commands) := commandKind.register r.commands id extId
    (result.map fun _ => .done, { r with commands })
  | .unregisterCommand id =>
    let (result, commands) := commandKind.unregister r.commands extId id
    (result.map fun _ => .done, { r with commands })
  | .registerView id =>
    let (result, sidebars) := r.registerView m extId id
    (result.map fun _ => .done, { r with sidebars })
  | .unregisterView id =>
    let (result, sidebars) := sidebarKind.unregister r.sidebars extId id
    (result.map fun _ => .done, { r with sidebars })
  | .createPanel id title slot entry =>
    let made := r.webviews.create ⟨extId, id, title, slot, entry⟩
    (panelReply .panel made.result, { r with webviews := made.panels })
  | .disposePanel id =>
    let made := r.webviews.dispose extId id
    (panelReply (fun _ => .done) made.result, { r with webviews := made.panels })
  | .setVisible id visible =>
    let made := r.webviews.setVisible extId id visible
    (panelReply (fun _ => .done) made.result, { r with webviews := made.panels })
  | .subscribe topic => ((r.subscribe extId topic).1.map fun _ => .done, (r.subscribe extId topic).2)
  | .unsubscribe topic => (.ok .done, r.unsubscribe extId topic)

/-- The answers of a host's calls. -/
def replies : Registries → List Call → List (Except CallError Reply)
  | _, [] => []
  | r, c :: cs => (r.call m extId c).1 :: replies (r.call m extId c).2 cs

variable (order : Iteration)

/-- The registries after `activate`. -/
def activate : Registries :=
  { r with
    events := r.events.registerExtension extId m.subscribe m.emit
    handles := if m.main.isSome then Function.update r.handles extId (some []) else r.handles }

/-- `rollback_failed_activate`. -/
def rollback : Registries :=
  { r with
    providers := providerKind.retain r.providers extId
    commands := commandKind.retain r.commands extId
    sidebars := sidebarKind.retain r.sidebars extId
    webviews := (r.webviews.disposeAllFor order extId).panels
    events := dropGuards (r.events.unregisterExtension extId) ((r.handles extId).getD [])
    handles := Function.update r.handles extId none }

/-- The registries after `deactivate`. -/
def deactivate : Registries :=
  { r with sessionRouter := fun id => (r.sessionRouter id).filter (· ≠ extId) }.rollback extId order

/-- `respawn`, up to the request `extension/activate` to the new host. -/
def respawn : Registries :=
  { r with
    providers := providerKind.retain r.providers extId
    commands := commandKind.retain r.commands extId
    sidebars := sidebarKind.retain r.sidebars extId
    events := dropGuards r.events ((r.handles extId).getD [])
    handles := Function.update r.handles extId (some []) }

end Registries

/-- The registries, and which extensions are activated. -/
structure RuntimeState where
  registries : Registries
  activated : String → Bool

inductive Event where
  | activate (extId : String) (answered : Bool)
  | deactivate (extId : String)
  | crash (extId : String) (answered : Bool)
  | call (extId : String) (c : Call)
  | openSession (extId sessionId : String)
  | closeSession (sessionId : String)

namespace RuntimeState

def new : RuntimeState := ⟨.empty, fun _ => false⟩

variable (manifest : String → Option HostManifest) (order : Iteration) (s : RuntimeState)

def activate (extId : String) (answered : Bool) : RuntimeState :=
  match manifest extId with
  | some m =>
    if s.activated extId then s
    else if answered then
      ⟨s.registries.activate m extId, Function.update s.activated extId true⟩
    else { s with registries := (s.registries.activate m extId).rollback extId order }
  | none => s

def deactivate (extId : String) : RuntimeState :=
  if s.activated extId then
    ⟨s.registries.deactivate extId order, Function.update s.activated extId false⟩
  else s

/-- A host dies and `respawn` starts another. -/
def crash (extId : String) (answered : Bool) : RuntimeState :=
  if s.activated extId ∧ (s.registries.handles extId).isSome then
    if answered then { s with registries := s.registries.respawn extId }
    else { s with registries := s.registries.respawn extId }.deactivate order extId
  else s

def call (extId : String) (c : Call) : RuntimeState :=
  match manifest extId, s.registries.handles extId with
  | some m, some _ => { s with registries := (s.registries.call m extId c).2 }
  | _, _ => s

/-- `AgentSessionRouter::register`. -/
def openSession (extId sessionId : String) : RuntimeState :=
  if (s.registries.sessionRouter sessionId).isSome then s
  else
    { s with
      registries.sessionRouter :=
        Function.update s.registries.sessionRouter sessionId (some extId) }

/-- The session is forgotten by the router. -/
def closeSession (sessionId : String) : RuntimeState :=
  { s with registries.sessionRouter := Function.update s.registries.sessionRouter sessionId none }

def step (s : RuntimeState) : Event → RuntimeState
  | .activate extId answered => s.activate manifest order extId answered
  | .deactivate extId => s.deactivate order extId
  | .crash extId answered => s.crash order extId answered
  | .call extId c => s.call manifest extId c
  | .openSession extId sessionId => s.openSession extId sessionId
  | .closeSession sessionId => s.closeSession sessionId

end RuntimeState

end Cronymax.Extensions.Hosts
