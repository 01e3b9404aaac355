import Cronymax.Atomic.History
import Cronymax.Extensions.Manifest
import Cronymax.Table.Edits

/-! The contribution registry.  One table has what the platform, the workspace and the extensions
contribute, by kind and id; an entry is overwritten whoever it belongs to. -/

namespace Cronymax.Extensions

open Atomic

structure CommandContribution where
  id : String
  title : String
  category : Option String
  icon : Option String

structure ConfigPageContribution where
  id : String
  title : String
  entry : String

structure AgentProviderContribution where
  id : String
  label : String
  icon : Option String
  description : Option String
  supportsModels : Option Bool
  supportsModes : Option Bool
  supportsMcp : Option Bool

structure ContentRendererContribution where
  id : String
  mimeTypes : List String
  entry : String
  /-- `csp.connect_src`, if there is a `csp`. -/
  csp : Option (List String)

inductive ViewTarget where
  | main
  | right

structure SidebarViewContribution where
  id : String
  title : String
  icon : Option String
  entry : String
  target : ViewTarget

/-- `Contributes`. -/
structure Contributes where
  commands : List CommandContribution
  configSchema : Option Json
  configPages : List ConfigPageContribution
  agentProviders : List AgentProviderContribution
  contentRenderers : List ContentRendererContribution
  sidebarViews : List SidebarViewContribution

/-- A manifest with its `contributes` block. -/
structure Declaration extends Manifest where
  contributes : Contributes

inductive ContributionOwner where
  | platform
  | workspace
  | extension (extId : String)
deriving DecidableEq

/-- `ContributionDescriptor`. -/
structure ContributionDescriptor where
  kind : String
  id : String
  owner : ContributionOwner
  label : String
  description : Option String
  icon : Option String
  metadata : Json

namespace ContributionDescriptor

def key (d : ContributionDescriptor) : String × String := (d.kind, d.id)

variable (owner : ContributionOwner)

def ofCommand (c : CommandContribution) : ContributionDescriptor where
  kind := "cronymax.command"
  id := c.id
  owner := owner
  label := c.title
  description := c.category.map ("Category: " ++ ·)
  icon := c.icon
  metadata := .object
    [("title", .string c.title), ("category", .ofOption c.category), ("icon", .ofOption c.icon)]

def ofSchema (extId : String) (schema : Json) : ContributionDescriptor where
  kind := "cronymax.config.schema"
  id := extId
  owner := owner
  label := ((schema.get "title").bind Json.asStr).getD extId
  description := none
  icon := none
  metadata := schema

def ofPage (p : ConfigPageContribution) : ContributionDescriptor where
  kind := "cronymax.config.page"
  id := p.id
  owner := owner
  label := p.title
  description := none
  icon := none
  metadata := .object [("id", .string p.id), ("title", .string p.title), ("entry", .string p.entry)]

def ofProvider (p : AgentProviderContribution) : ContributionDescriptor where
  kind := "cronymax.agents.provider"
  id := p.id
  owner := owner
  label := p.label
  description := p.description
  icon := p.icon
  metadata := .object
    [("id", .string p.id), ("label", .string p.label), ("icon", .ofOption p.icon),
      ("description", .ofOption p.description), ("supportsModels", .ofFlag p.supportsModels),
      ("supportsModes", .ofFlag p.supportsModes), ("supportsMcp", .ofFlag p.supportsMcp)]

def ofRenderer (r : ContentRendererContribution) : ContributionDescriptor where
  kind := "cronymax.content.renderer"
  id := r.id
  owner := owner
  label := ", ".intercalate r.mimeTypes
  description := none
  icon := none
  metadata := .object
    [("id", .string r.id), ("mimeTypes", .array (r.mimeTypes.map .string)), ("entry", .string r.entry),
      ("csp", (r.csp.map fun hosts => .object [("connect_src", .array (hosts.map .string))]).getD .null)]

def ofView (v : SidebarViewContribution) : ContributionDescriptor where
  kind := "cronymax.ui.sidebar.view"
  id := v.id
  owner := owner
  label := v.title
  description := none
  icon := v.icon
  metadata := .object
    [("id", .string v.id), ("title", .string v.title), ("icon", .ofOption v.icon),
      ("entry", .string v.entry),
      ("target", .string (match v.target with | .main => "main" | .right => "right"))]

end ContributionDescriptor

namespace Declaration

variable (m : Declaration)

def owner : ContributionOwner := .extension m.id

/-- What `ingest` makes of a manifest. -/
def descriptors : List ContributionDescriptor :=
  m.contributes.commands.map (.ofCommand m.owner) ++
    m.contributes.configSchema.toList.map (.ofSchema m.owner m.id) ++
    m.contributes.configPages.map (.ofPage m.owner) ++
    m.contributes.agentProviders.map (.ofProvider m.owner) ++
    m.contributes.contentRenderers.map (.ofRenderer m.owner) ++
    m.contributes.sidebarViews.map (.ofView m.owner)

theorem owner_descriptors {d : ContributionDescriptor} (h : d ∈ m.descriptors) : d.owner = m.owner := by
  simp only [descriptors, List.mem_append, List.mem_map] at h
  rcases h with ((((⟨_, -, rfl⟩ | ⟨_, -, rfl⟩) | ⟨_, -, rfl⟩) | ⟨_, -, rfl⟩) | ⟨_, -, rfl⟩) | ⟨_, -, rfl⟩ <;>
    rfl

end Declaration

/-- `kind → id → descriptor`. -/
abbrev ContributionRegistry := Table (String × String) ContributionDescriptor

namespace ContributionRegistry

variable (r : ContributionRegistry)

/-- `add`: a descriptor with this key gives way. -/
def add (d : ContributionDescriptor) : Option ContributionDescriptor × ContributionRegistry :=
  (r.lookup d.key, r.insert d.key d)

def addAll (ds : List ContributionDescriptor) : ContributionRegistry :=
  ds.foldl (fun r d => (add r d).2) r

/-- `ingest`. -/
def ingest (m : Declaration) : Nat × ContributionRegistry := (m.descriptors.length, addAll r m.descriptors)

/-- `retain`: the number of descriptors that went is returned. -/
def dropOwned (goes : ContributionOwner → Bool) : Nat × ContributionRegistry :=
  let kept := Table.filterMap (fun _ (d : ContributionDescriptor) => if goes d.owner then none else some d) r
  (r.keys.card - kept.keys.card, kept)

/-- `remove_extension`. -/
def removeExtension (extId : String) : Nat × ContributionRegistry := dropOwned r (· = .extension extId)

/-- `remove_workspace`. -/
def removeWorkspace : Nat × ContributionRegistry := dropOwned r (· = .workspace)

variable {r}

theorem lookup_dropOwned {goes : ContributionOwner → Bool} {key : String × String}
    {d : ContributionDescriptor} :
    (dropOwned r goes).2.lookup key = some d ↔ r.lookup key = some d ∧ ¬goes d.owner := by
  unfold dropOwned
  rw [Table.lookup_filterMap, Option.bind_eq_some_iff]
  constructor
  · rintro ⟨d', hd', hKept⟩
    split at hKept
    · cases hKept
    · rename_i hGoes
      obtain rfl := Option.some.inj hKept
      exact ⟨hd', hGoes⟩
  · rintro ⟨hd, hGoes⟩
    exact ⟨d, hd, if_neg hGoes⟩

theorem lookup_addAll (ds : List ContributionDescriptor) (key : String × String) :
    (∃ d ∈ ds, d.key = key ∧ (addAll r ds).lookup key = some d) ∨
      (∀ d ∈ ds, d.key ≠ key) ∧ (addAll r ds).lookup key = r.lookup key := by
  induction ds using List.reverseRecOn with
  | nil => exact .inr ⟨by simp, rfl⟩
  | append_singleton ds d ih =>
    have hLast : addAll r (ds ++ [d]) = (addAll r ds).insert d.key d := by
      simp [addAll, add]
    rw [hLast, Table.lookup_insert_if]
    by_cases hKey : d.key = key
    · exact .inl ⟨d, by simp, hKey, if_pos hKey.symm⟩
    · rw [if_neg (Ne.symm hKey)]
      rcases ih with ⟨d', hd', hKey', hLookup⟩ | ⟨hNone, hLookup⟩
      · exact .inl ⟨d', by simp [hd'], hKey', hLookup⟩
      · refine .inr ⟨fun d' hd' => ?_, hLookup⟩
        rcases List.mem_append.mp hd' with hOld | hNew
        · exact hNone d' hOld
        · rwa [List.mem_singleton.mp hNew]

end ContributionRegistry

/-- A call that changes the registry. -/
inductive ContributionEdit where
  | add (d : ContributionDescriptor)
  | ingest (m : Declaration)
  | removeExtension (extId : String)
  | removeWorkspace

namespace ContributionEdit

open ContributionRegistry

def apply (r : ContributionRegistry) : ContributionEdit → ContributionRegistry
  | .add d => (ContributionRegistry.add r d).2
  | .ingest m => (ContributionRegistry.ingest r m).2
  | .removeExtension extId => (ContributionRegistry.removeExtension r extId).2
  | .removeWorkspace => (ContributionRegistry.removeWorkspace r).2

/-- Whose edit it is. -/
def owner : ContributionEdit → ContributionOwner
  | .add d => d.owner
  | .ingest m => m.owner
  | .removeExtension extId => .extension extId
  | .removeWorkspace => .workspace

/-- The descriptors that a call brings. -/
def adds : ContributionEdit → List ContributionDescriptor
  | .add d => [d]
  | .ingest m => m.descriptors
  | _ => []

/-- The descriptors of other owners stay as they are, and when an extension that has been ingested is
removed they are what they were before. -/
structure Respects (r : ContributionRegistry) (e : ContributionEdit) : Prop where
  kept : ∀ key d, r.lookup key = some d → d.owner ≠ e.owner → (e.apply r).lookup key = some d
  undone : ∀ m, e = .ingest m → ∀ key d, d.owner ≠ m.owner →
    ((ContributionRegistry.removeExtension (e.apply r) m.id).2.lookup key = some d ↔
      r.lookup key = some d)

/-- What the edit adds has a place that is empty or its owner's. -/
def Free (r : ContributionRegistry) (e : ContributionEdit) : Prop :=
  ∀ d ∈ e.adds, ∀ d', r.lookup d.key = some d' → d'.owner = e.owner

variable {r : ContributionRegistry}

theorem owner_of_adds {e : ContributionEdit} {d : ContributionDescriptor} (h : d ∈ e.adds) :
    d.owner = e.owner := by
  cases e with
  | add d' => rw [List.mem_singleton.mp h, owner]
  | ingest m => exact m.owner_descriptors h
  | removeExtension extId => cases h
  | removeWorkspace => cases h

theorem apply_cases (r : ContributionRegistry) (e : ContributionEdit) :
    e.apply r = addAll r e.adds ∨ e.adds = [] ∧ e.apply r = (dropOwned r (· = e.owner)).2 := by
  cases e with
  | add d => exact .inl rfl
  | ingest m => exact .inl rfl
  | removeExtension extId => exact .inr ⟨rfl, rfl⟩
  | removeWorkspace => exact .inr ⟨rfl, rfl⟩

theorem Free.kept {e : ContributionEdit} (h : e.Free r) {key : String × String}
    {d : ContributionDescriptor} (hd : r.lookup key = some d) (hOther : d.owner ≠ e.owner) :
    (e.apply r).lookup key = some d := by
  rcases apply_cases r e with hAdds | ⟨-, hDrops⟩
  · rw [hAdds]
    rcases lookup_addAll (r := r) e.adds key with ⟨d', hd', rfl, -⟩ | ⟨-, hLookup⟩
    · exact absurd (h d' hd' d hd) hOther
    · rw [hLookup, hd]
  · rw [hDrops, lookup_dropOwned]
    exact ⟨hd, by simpa using hOther⟩

theorem Free.undone {m : Declaration} (h : (ingest m).Free r) {key : String × String}
    {d : ContributionDescriptor} (hOther : d.owner ≠ m.owner) :
    (ContributionRegistry.removeExtension ((ingest m).apply r) m.id).2.lookup key = some d ↔
      r.lookup key = some d := by
  unfold ContributionRegistry.removeExtension
  rw [lookup_dropOwned]
  constructor
  · rintro ⟨hd, -⟩
    rcases lookup_addAll (r := r) m.descriptors key with ⟨d', hd', -, hLookup⟩ | ⟨-, hLookup⟩
    · obtain rfl : d = d' := Option.some.inj (hd.symm.trans hLookup)
      exact absurd (m.owner_descriptors hd') hOther
    · exact hLookup.symm.trans hd
  · intro hd
    exact ⟨h.kept hd hOther, fun hGone => hOther (of_decide_eq_true hGone)⟩

theorem respects_iff (r : ContributionRegistry) (e : ContributionEdit) : e.Respects r ↔ e.Free r := by
  refine ⟨fun h d hd d' hd' => ?_, fun h => ⟨fun key d => h.kept, ?_⟩⟩
  · by_contra hOther
    have hKept := h.kept d.key d' hd' hOther
    rcases apply_cases r e with hAdds | ⟨hNil, -⟩
    · rw [hAdds] at hKept
      rcases lookup_addAll (r := r) e.adds d.key with ⟨d₀, hd₀, -, hLookup⟩ | ⟨hNone, -⟩
      · obtain rfl : d' = d₀ := Option.some.inj (hKept.symm.trans hLookup)
        exact hOther (owner_of_adds hd₀)
      · exact hNone d hd rfl
    · rw [hNil] at hd
      cases hd
  · rintro m rfl key d hOther
    exact h.undone hOther

/-- Over every sequence of edits: descriptors are left to their owners where each edit finds the places
of what it adds empty or its owner's. -/
theorem owners_respected_iff (r : ContributionRegistry) (es : List ContributionEdit) :
    History.Each apply (fun r e => e.Respects r) r es ↔ History.Each apply (fun r e => e.Free r) r es :=
  History.each_congr_of_each (fun r e _ => respects_iff r e) (History.each_true es)

section Examples

def contributing (id publisher command : String) : Declaration where
  toManifest := ⟨id, "Demo", "1", publisher, "^1.0", none, []⟩
  contributes := ⟨[⟨command, "Hello", none, none⟩], none, [], [], [], []⟩

/-- The command of `alice.x` is taken over by `bob.y`. -/
theorem shared_command_replaced :
    (contributing "alice.x" "alice" "hello").validate = .ok () ∧
      (contributing "bob.y" "bob" "hello").validate = .ok () ∧
      ¬History.Each apply (fun r e => e.Respects r) ∅
        [.ingest (contributing "alice.x" "alice" "hello"), .ingest (contributing "bob.y" "bob" "hello")] := by
  refine ⟨by decide, by decide, fun hEach => ?_⟩
  have hFree := (respects_iff _ _).mp hEach.2.1
  have hThere : (apply ∅ (.ingest (contributing "alice.x" "alice" "hello"))).lookup
      ("cronymax.command", "hello") =
        some (.ofCommand (.extension "alice.x") ⟨"hello", "Hello", none, none⟩) := by
    exact Finmap.lookup_insert (α := String × String) ∅
  have hOwner := hFree _ (List.mem_singleton.mpr rfl) _ hThere
  exact absurd hOwner (by decide)

end Examples

end ContributionEdit

end Cronymax.Extensions
