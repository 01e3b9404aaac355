import Cronymax.Atomic.History
import Cronymax.Extensions.Steady

/-! Where extensions are installed.  The id of a manifest is joined to the root as a path: where it
names one directory of the root, the registry changes nothing else. -/

namespace Cronymax.Extensions

open Atomic Files

variable {s t : ExtensionRegistry} {A K : Location → Prop}

/-- Every installed extension has a directory of the root, and no two have the same. -/
structure Tidy (s : ExtensionRegistry) : Prop where
  direct : ∀ id e, s.entries.lookup id = some e →
    ∃ c, target [] e.extDir = s.root ++ [c] ∧ s.disk.isDir (s.root ++ [c])
  apart : ∀ id e id' e', s.entries.lookup id = some e → s.entries.lookup id' = some e' →
    id ≠ id' → target [] e.extDir ≠ target [] e'.extDir

/-- What an operation that has to do with some directories of the root leaves. -/
structure Leaves (s : ExtensionRegistry) (dirs : List String) (t : ExtensionRegistry) : Prop where
  tidy : Tidy t
  root : t.root = s.root
  same : ∀ l, ¬Own s.root dirs l → t.disk.item l = s.disk.item l

theorem Tidy.of_part (hTidy : Tidy s) (hRoot : t.root = s.root)
    (hPart : ∀ id e, t.entries.lookup id = some e →
      ∃ e', s.entries.lookup id = some e' ∧ e'.extDir = e.extDir)
    (hDirs : ∀ id e, t.entries.lookup id = some e → t.disk.isDir (target [] e.extDir)) : Tidy t := by
  refine ⟨fun id e he => ?_, fun id e id' e' he he' hNe => ?_⟩
  · obtain ⟨e₀, he₀, hSame⟩ := hPart id e he
    obtain ⟨c, hTarget, -⟩ := hTidy.direct id e₀ he₀
    rw [hSame] at hTarget
    rw [hRoot]
    exact ⟨c, hTarget, hTarget ▸ hDirs id e he⟩
  · obtain ⟨e₀, he₀, hSame⟩ := hPart id e he
    obtain ⟨e₀', he₀', hSame'⟩ := hPart id' e' he'
    rw [← hSame, ← hSame']
    exact hTidy.apart id e₀ id' e₀' he₀ he₀' hNe

theorem Tidy.isDir (hTidy : Tidy s) {id : String} {e : RegistryEntry}
    (he : s.entries.lookup id = some e) : s.disk.isDir (target [] e.extDir) := by
  obtain ⟨c, hTarget, hDir⟩ := hTidy.direct id e he
  rwa [hTarget]

theorem Steady.tidy (h : Steady s A K t) (hTidy : Tidy s)
    (hKept : ∀ id e, s.entries.lookup id = some e → K (target [] e.extDir)) : Tidy t := by
  refine hTidy.of_part h.root (fun id e he => ?_) fun id e he => ?_
  · exact ⟨e, h.entries ▸ he, rfl⟩
  · exact h.kept _ (hKept id e (h.entries ▸ he))

/-- The path leads to the directory `c` of the root, and what is missing on its way is above the root, or
in that directory when it is not there yet. -/
structure Fits (s : ExtensionRegistry) (c : String) (path : Path) : Prop where
  leads : target [] path = s.root ++ [c]
  way : ∀ l ∈ trail [] path, s.disk.isDir l ∨ l <+: s.root ∨
    s.root ++ [c] <+: l ∧ s.disk.item (s.root ++ [c]) = none

namespace Fits

variable {c : String} {path : Path}

theorem clear (h : Fits s c path) : Clear (Own s.root [c]) s.disk.isDir path := by
  intro l hl
  rcases h.way l hl with hDir | hAbove | ⟨hBelow, -⟩
  · exact .inl hDir
  · exact .inr (.inl (.inl hAbove))
  · exact .inr (.inr ⟨c, List.mem_singleton.mpr rfl, hBelow⟩)

theorem fresh (h : Fits s c path) (hNot : s.disk.has path = false) :
    s.disk.item (s.root ++ [c]) = none := by
  by_contra hThere
  have hDirs : ∀ l ∈ trail [] path, s.disk.isDir l := by
    intro l hl
    rcases h.way l hl with hDir | hAbove | ⟨-, hNone⟩
    · exact hDir
    · have hNe : l ≠ s.root ++ [c] := by
        intro hEq
        have hLength := hAbove.length_le
        rw [hEq, List.length_append, List.length_singleton] at hLength
        omega
      exact Disk.isDir_above (hAbove.trans (List.prefix_append _ _)) hNe hThere
    · exact absurd hNone hThere
  rw [Disk.has_of_dirs hDirs] at hNot
  cases hNot

end Fits

/-- What an install leaves: at most one new entry, in the directory `c`. -/
structure Installed (s : ExtensionRegistry) (c : String) (t : ExtensionRegistry) : Prop where
  tidy : Tidy t
  root : t.root = s.root
  same : ∀ l, ¬Own s.root [c] l → t.disk.item l = s.disk.item l
  entries : ∀ id e, t.entries.lookup id = some e →
    s.entries.lookup id = some e ∨ target [] e.extDir = s.root ++ [c]

theorem Steady.installed {c : String} (h : Steady s (Own s.root [c]) s.disk.isDir t)
    (hTidy : Tidy s) : Installed s c t :=
  ⟨h.tidy hTidy fun _ _ he => hTidy.isDir he, h.root, h.same, fun _ _ he => .inl (h.entries ▸ he)⟩

def withEntry (s : ExtensionRegistry) (id : String) (e : RegistryEntry) : ExtensionRegistry :=
  { s with entries := s.entries.insert id e }

theorem Steady.insert (h : Steady s A K t) (id : String) (e : RegistryEntry) :
    Steady (withEntry s id e) A K (Act.apply (.insert id e) t) :=
  ⟨h.root, congrArg (·.insert id e) h.entries, h.same, h.kept⟩

theorem Steady.now (h : Steady s A K t) : Steady s A K (Act.apply .now t) :=
  ⟨h.root, h.entries, h.same, h.kept⟩

theorem lookup_withEntry (s : ExtensionRegistry) (id id' : String) (e : RegistryEntry) :
    (withEntry s id e).entries.lookup id' = if id' = id then some e else s.entries.lookup id' := by
  unfold withEntry
  split
  · rename_i hSame
    subst hSame
    exact AList.lookup_insert _
  · rename_i hNe
    exact AList.lookup_insert_ne hNe

section Install

variable {c id : String} {e : RegistryEntry}

theorem Tidy.withEntry (hTidy : Tidy s) (hNone : s.disk.item (s.root ++ [c]) = none)
    (hDir : target [] e.extDir = s.root ++ [c])
    (h : Steady (withEntry s id e) A (fun l => s.disk.isDir l ∨ l = s.root ++ [c]) t) : Tidy t := by
  have hOld (id' : String) (e' : RegistryEntry) (he' : s.entries.lookup id' = some e') :
      target [] e'.extDir ≠ target [] e.extDir := by
    intro hSame
    have hThere := hTidy.isDir he'
    rw [hSame, hDir] at hThere
    cases hNone.symm.trans hThere
  refine ⟨fun id' e' he' => ?_, fun id' e' id'' e'' he' he'' hNe => ?_⟩
  · rw [h.entries, lookup_withEntry] at he'
    rw [h.root]
    split at he'
    · cases he'
      exact ⟨c, hDir, h.kept _ (.inr rfl)⟩
    · obtain ⟨c', hTarget, hThere⟩ := hTidy.direct id' e' he'
      exact ⟨c', hTarget, h.kept _ (.inl hThere)⟩
  · rw [h.entries, lookup_withEntry] at he' he''
    split at he'
    · rename_i hSame
      cases he'
      split at he''
      · rename_i hSame'
        exact absurd (hSame.trans hSame'.symm) hNe
      · exact (hOld id'' e'' he'').symm
    · split at he''
      · cases he''
        exact hOld id' e' he'
      · exact hTidy.apart id' e' id'' e'' he' he'' hNe

theorem Steady.installed_new (hTidy : Tidy s) (hNone : s.disk.item (s.root ++ [c]) = none)
    (hDir : target [] e.extDir = s.root ++ [c])
    (h : Steady (Extensions.withEntry s id e) (Own s.root [c])
      (fun l => s.disk.isDir l ∨ l = s.root ++ [c]) t) : Installed s c t := by
  refine ⟨hTidy.withEntry hNone hDir h, h.root, h.same, fun id' e' he' => ?_⟩
  rw [h.entries, lookup_withEntry] at he'
  split at he'
  · cases he'
    exact .inr hDir
  · exact .inl he'

theorem Steady.installed_back (hTidy : Tidy s) (hFree : s.entries.lookup id = none)
    (h : Steady (Extensions.withEntry s id e) (Own s.root [c]) s.disk.isDir t) :
    Installed s c (Act.apply (.erase id) t) := by
  have hOld (id' : String) (e' : RegistryEntry)
      (he' : (Act.apply (.erase id) t).entries.lookup id' = some e') :
      s.entries.lookup id' = some e' := by
    have hEntries : (Act.apply (.erase id) t).entries = t.entries.erase id := rfl
    rw [hEntries] at he'
    by_cases hSame : id' = id
    · subst hSame
      rw [AList.lookup_erase] at he'
      cases he'
    · rw [AList.lookup_erase_ne hSame, h.entries, lookup_withEntry, if_neg hSame] at he'
      exact he'
  refine ⟨hTidy.of_part h.root (fun id' e' he' => ⟨e', hOld id' e' he', rfl⟩) fun id' e' he' => ?_,
    h.root, h.same, fun id' e' he' => .inl (hOld id' e' he')⟩
  exact h.kept _ (hTidy.isDir (hOld id' e' he'))

end Install

theorem installValid_installed (hTidy : Tidy s) (m : Manifest) (source : Source) {c : String}
    (hFits : s.disk.has (join s.root m.id) = false → Fits s c (join s.root m.id)) :
    Prog.Triple (· = s) (installValid m source) (fun _ => Installed s c) (Installed s c) := by
  have hStart : Installed s c s := (Steady.start s _).installed hTidy
  refine .perform fun t ht => ?_
  subst ht
  cases hFree : t.entries.lookup m.id with
  | some existing => exact .fail fun t' ht' => ht' ▸ hStart
  | none =>
    dsimp only
    cases hHas : t.disk.has (join t.root m.id) with
    | true => exact .fail fun t' ht' => ht' ▸ hStart
    | false =>
      have hFit := hFits hHas
      have hNone := hFit.fresh hHas
      have hBooks : ∀ l, Books t.root l → Own t.root [c] l := fun l hl => .inl hl
      have hBelow : ∀ l, target [] (join t.root m.id) <+: l → Own t.root [c] l :=
        fun l hl => .inr ⟨c, List.mem_singleton.mpr rfl, hFit.leads ▸ hl⟩
      have hNotBelow : ∀ l, t.disk.isDir l → ¬target [] (join t.root m.id) <+: l :=
        fun l hl => hFit.leads ▸ Disk.not_below hNone (Disk.isDir_ne_none hl)
      have hRoot : KeepsSteady t (Own t.root [c]) t.disk.isDir (createDirAll [] t.root) :=
        createDirAll_keeps (clear_root t _ hBooks)
      have hCopy := copyDirRecursive_keeps (s := t) hFit.clear hBelow source
      rw [hFit.leads] at hCopy
      have hFailed : ∀ t', Steady t (Own t.root [c]) t.disk.isDir t' → Installed t c t' :=
        fun t' ht' => ht'.installed hTidy
      refine Prog.Triple.bind (Prog.Triple.mono hRoot (fun t' ht' => ht' ▸ Steady.start t _)
        (fun _ _ h => h.1) hFailed) fun _ => ?_
      refine (hCopy.mono (fun _ h => h) (fun _ _ h => h) hFailed).bind fun _ => ?_
      refine .perform fun t₁ ht₁ => .perform fun t₂ ht₂ => ?_
      let e : RegistryEntry := ⟨m, join t.root m.id, true, none, t₁.nowSeconds⟩
      have hSaved : KeepsSteady (withEntry t m.id e) (Own t.root [c])
          (fun l => t.disk.isDir l ∨ l = t.root ++ [c]) save.attempt :=
        (save_keeps (s := withEntry t m.id e) hBooks).attempt
      refine Prog.Triple.bind (Prog.Triple.mono hSaved
        (fun t₃ ht₃ => ht₃ ▸ Steady.insert (ht₂ ▸ ht₁.now) m.id e) (fun _ _ h => h.1)
        fun _ h => Steady.installed_new hTidy hNone hFit.leads h) fun r => ?_
      cases r with
      | ok _ => exact .done fun t' ht' => Steady.installed_new hTidy hNone hFit.leads ht'
      | error e' =>
        -- the rollback takes away the new directory and the new entry
        have hRemoved : KeepsSteady (withEntry t m.id e) (Own t.root [c]) t.disk.isDir
            (removeDirAll (join t.root m.id)) := removeDirAll_keeps hBelow hNotBelow
        refine Prog.Triple.bind (hRemoved.attempted.mono
          (fun t' ht' => ht'.weaken (fun _ h => h) fun _ h => .inl h) (fun _ _ h => h)
          fun _ h => h.elim) fun _ => ?_
        refine .perform fun t' ht' => .fail fun t'' ht'' => ?_
        rw [ht'']
        exact ht'.installed_back hTidy hFree

/-- The manifest that the source would be installed under leads into the directory `c`, unless something
is where it leads, so that the install is refused. -/
def Source.Fits (source : Source) (s : ExtensionRegistry) (c : String) : Prop :=
  ∀ m, source.manifest = .ok m → m.validate = .ok () → s.disk.has (join s.root m.id) = false →
    Extensions.Fits s c (join s.root m.id)

theorem install_installed (hTidy : Tidy s) (source : Source) {c : String} (hFits : source.Fits s c) :
    Prog.Triple (· = s) (install source) (fun _ => Installed s c) (Installed s c) := by
  have hStart : Installed s c s := (Steady.start s _).installed hTidy
  unfold install
  cases hManifest : source.manifest with
  | error e => exact .fail fun t ht => ht ▸ hStart
  | ok m =>
    dsimp only
    cases hValid : m.validate with
    | error e => exact .fail fun t ht => ht ▸ hStart
    | ok u => exact installValid_installed hTidy m source (hFits m hManifest hValid)

theorem Tidy.leaves (hTidy : Tidy s) (dirs : List String) : Leaves s dirs s :=
  ⟨hTidy, rfl, fun _ _ => rfl⟩

theorem Installed.leaves {c : String} (h : Installed s c t) : Leaves s [c] t :=
  ⟨h.tidy, h.root, h.same⟩

/-- The locations that unpacking an archive may change. -/
def Staging (root : Location) (drawn : String) (l : Location) : Prop :=
  l <+: root ∨ root ++ [drawn] <+: l

theorem clear_staging (s : ExtensionRegistry) (drawn : FileName) (K : Location → Prop) :
    Clear (Staging s.root drawn.name) K (s.root ++ [drawn.name]) := by
  have hDown : ".." ∉ s.root ++ [drawn.name] := by
    intro h
    rcases List.mem_append.mp h with h | h
    · exact s.down h
    · exact drawn.plain.1 (List.mem_singleton.mp h).symm
  intro l hl
  have hAbove : l <+: s.root ++ [drawn.name] := (trail_of_names hDown hl).2
  rcases List.prefix_concat_iff.mp hAbove with hSame | hRoot
  · exact .inr (.inr (hSame ▸ List.prefix_refl _))
  · exact .inr (.inl hRoot)

theorem unpackEntry_keeps (s : ExtensionRegistry) (drawn : FileName) (K : Location → Prop)
    (entry : ArchiveEntry) :
    KeepsSteady s (Staging s.root drawn.name) K (unpackEntry (s.root ++ [drawn.name]) entry) := by
  unfold unpackEntry
  split
  · exact .fail
  · rename_i rel _
    have hTrail : ∀ l ∈ trail (target [] (s.root ++ [drawn.name])) rel.path,
        Staging s.root drawn.name l := by
      intro l hl
      rw [target_root s drawn.plain.1] at hl
      exact .inr (rel.inside _ l hl)
    have hClear := clear_append (clear_staging s drawn K) hTrail
    have hTarget : Staging s.root drawn.name (target [] (s.root ++ [drawn.name] ++ rel.path)) := by
      rw [target_append, target_root s drawn.plain.1]
      by_cases hEmpty : rel.path = []
      · rw [hEmpty]
        exact .inr (List.prefix_refl _)
      · exact .inr (rel.inside _ _ (target_mem_trail hEmpty))
    split
    · exact createDirAll_keeps hClear
    · exact placeFile_keeps hClear hTarget _

theorem unpackCmxToDir_keeps (s : ExtensionRegistry) (drawn : FileName) (K : Location → Prop)
    (archive : Archive) :
    Prog.Keeps (Steady s (Staging s.root drawn.name) K)
      (unpackCmxToDir archive (s.root ++ [drawn.name])) fun source => archive.located = .ok source := by
  have hEntries (entries : List ArchiveEntry) :
      KeepsSteady s (Staging s.root drawn.name) K
        (unpackEntries (s.root ++ [drawn.name]) entries) := by
    induction entries with
    | nil => exact .done trivial
    | cons entry rest ih => exact (unpackEntry_keeps s drawn K entry).bind fun _ _ => ih
  unfold unpackCmxToDir
  split
  · exact .fail
  · refine (createDirAll_keeps (clear_staging s drawn K)).bind fun _ _ => ?_
    refine (hEntries archive.entries).bind fun _ _ => ?_
    cases hLocated : archive.located with
    | ok source => exact .done rfl
    | error e => exact .fail

theorem newTempDir_made (s : ExtensionRegistry) (drawn : FileName) :
    Prog.Triple (· = s) (newTempDir drawn)
      (fun dir t => dir = s.root ++ [drawn.name] ∧ s.disk.isDir s.root ∧
        s.disk.item (s.root ++ [drawn.name]) = none ∧
        Steady s (Staging s.root drawn.name) s.disk.isDir t)
      (Steady s (Staging s.root drawn.name) s.disk.isDir) := by
  refine .perform fun t ht => .perform fun t' ht' => ?_
  subst ht
  obtain rfl : t' = t := ht'
  have hMade : Steady t' (Staging t'.root drawn.name) t'.disk.isDir
      (Act.apply (.mkdir (t'.root ++ [drawn.name])) t') :=
    (Steady.start t' _).mkdir (.inr (.inr (List.prefix_refl _)))
  split
  · exact .fail fun t₁ ht₁ => ht₁ ▸ hMade
  · rename_i hOk
    obtain ⟨-, hRoot, hItem⟩ : ¬t'.fault ∧ t'.disk.isDir t'.root ∧
        ¬(t'.disk.item (t'.root ++ [drawn.name])).isSome := by
      refine ⟨fun h => hOk (.inl h), ?_, fun h => hOk (.inr (.inr h))⟩
      by_contra h
      exact hOk (.inr (.inl h))
    exact .done fun t₁ ht₁ => ⟨rfl, hRoot, Option.not_isSome_iff_eq_none.mp hItem, ht₁ ▸ hMade⟩

section Staged

variable {drawn : FileName} {c : String} {path : Path}

theorem append_name_ne (root : Location) {c c' : String} (h : c ≠ c') : root ++ [c] ≠ root ++ [c'] :=
  fun hSame => h (List.singleton_inj.mp (List.append_cancel_left hSame))

theorem not_staging {root : Location} (hNe : c ≠ drawn.name) :
    ¬Staging root drawn.name (root ++ [c]) := by
  rintro (hAbove | hBelow)
  · have hLength := hAbove.length_le
    rw [List.length_append, List.length_singleton] at hLength
    omega
  · exact append_name_ne root hNe (hBelow.eq_of_length (by simp)).symm

variable (hRoot : s.disk.isDir s.root) (hNone : s.disk.item (s.root ++ [drawn.name]) = none)
  (ht : Steady s (Staging s.root drawn.name) s.disk.isDir t)

include ht in
theorem Fits.staged (hNe : c ≠ drawn.name) (h : Fits s c path) : Fits t c path := by
  refine ⟨ht.root ▸ h.leads, fun l hl => ?_⟩
  rw [ht.root]
  rcases h.way l hl with hDir | hAbove | ⟨hBelow, hFree⟩
  · exact .inl (ht.kept l hDir)
  · exact .inr (.inl hAbove)
  · exact .inr (.inr ⟨hBelow, (ht.same _ (not_staging hNe)).trans hFree⟩)

include hRoot hNone ht in
theorem has_staged (h : s.disk.has path = true) : t.disk.has path = true := by
  refine Disk.has_mono ht.kept (fun hThere => ?_) h
  by_cases hStaging : Staging s.root drawn.name (target [] path)
  · rcases hStaging with hAbove | hBelow
    · refine Disk.isDir_ne_none (ht.kept _ ?_)
      by_cases hSame : target [] path = s.root
      · rwa [hSame]
      · exact Disk.isDir_above hAbove hSame (Disk.isDir_ne_none hRoot)
    · exact absurd hBelow (Disk.not_below hNone hThere)
  · rwa [ht.same _ hStaging]

include hRoot hNone ht in
theorem Source.Fits.staged {source : Source} (hNe : c ≠ drawn.name) (h : source.Fits s c) :
    source.Fits t c := by
  intro m hManifest hValid hNot
  rw [ht.root] at hNot ⊢
  refine Extensions.Fits.staged ht hNe (h m hManifest hValid ?_)
  by_contra hHas
  rw [Bool.not_eq_false] at hHas
  rw [has_staged hRoot hNone ht hHas] at hNot
  cases hNot

end Staged

/-- The entries that are there when the staging directory is dropped do not lie in it. -/
structure Staged (s : ExtensionRegistry) (c : String) (drawn : FileName) (t : ExtensionRegistry) :
    Prop where
  leaves : Leaves s [c, drawn.name] t
  apart : ∀ id e, t.entries.lookup id = some e → target [] e.extDir ≠ s.root ++ [drawn.name]

/-- The directories of the installed extensions. -/
def Homes (s : ExtensionRegistry) (l : Location) : Prop :=
  ∃ id e, s.entries.lookup id = some e ∧ l = target [] e.extDir

theorem Tidy.steady (hTidy : Tidy s) (A : Location → Prop) : Steady s A (Homes s) s := by
  refine ⟨rfl, rfl, fun _ _ => rfl, fun l hl => ?_⟩
  obtain ⟨id, e, he, rfl⟩ := hl
  exact hTidy.isDir he

theorem Steady.tidy_homes (h : Steady s A (Homes s) t) (hTidy : Tidy s) : Tidy t :=
  h.tidy hTidy fun id e he => ⟨id, e, he, rfl⟩

section Archive

variable {drawn : FileName} {c : String}

theorem Steady.staged (hTidy : Tidy s) (hNone : s.disk.item (s.root ++ [drawn.name]) = none)
    (h : Steady s (Staging s.root drawn.name) s.disk.isDir t) : Staged s c drawn t := by
  refine ⟨⟨h.tidy hTidy fun _ _ he => hTidy.isDir he, h.root, fun l hl => h.same l fun hStaging => hl ?_⟩,
    fun id e he hSame => ?_⟩
  · rcases hStaging with hAbove | hBelow
    · exact .inl (.inl hAbove)
    · exact .inr ⟨drawn.name, by simp, hBelow⟩
  · rw [h.entries] at he
    exact Disk.isDir_ne_none (hTidy.isDir he) (hSame ▸ hNone)

theorem Installed.staged {t' : ExtensionRegistry} (hNe : c ≠ drawn.name) (ht : Staged s c drawn t)
    (h : Installed t c t') : Staged s c drawn t' := by
  have hRoot : t'.root = s.root := h.root.trans ht.leaves.root
  refine ⟨⟨h.tidy, hRoot, fun l hl => ?_⟩, fun id e he => ?_⟩
  · have hOuter : ¬Own t.root [c] l := by
      rw [ht.leaves.root]
      rintro (hBooks | ⟨c', hc', hBelow⟩)
      · exact hl (.inl hBooks)
      · exact hl (.inr ⟨c', by simp [List.mem_singleton.mp hc'], hBelow⟩)
    exact (h.same l hOuter).trans (ht.leaves.same l hl)
  · rcases h.entries id e he with hOld | hNew
    · exact ht.apart id e hOld
    · rw [hNew, ht.leaves.root]
      exact append_name_ne s.root hNe

theorem Staged.steady (h : Staged s c drawn t) :
    Steady t (Own s.root [c, drawn.name]) (Homes t) t := h.leaves.tidy.steady _

theorem installArchive_leaves (hTidy : Tidy s) (archive : Archive) (hNe : c ≠ drawn.name)
    (hFits : ∀ source, archive.located = .ok source → source.Fits s c) :
    Prog.Triple (· = s) (installArchive archive drawn) (fun _ => Leaves s [c, drawn.name])
      (Leaves s [c, drawn.name]) := by
  unfold installArchive
  split
  · exact .fail fun t ht => ht ▸ hTidy.leaves _
  refine ((newTempDir_made s drawn).mono (fun _ h => h) (fun _ _ h => h) fun t ht => ?_).bind
    fun dir => ?_
  · refine ⟨ht.tidy hTidy fun _ _ he => hTidy.isDir he, ht.root, fun l hl => ht.same l fun hStaging => hl ?_⟩
    rcases hStaging with hAbove | hBelow
    · exact .inl (.inl hAbove)
    · exact .inr ⟨drawn.name, by simp, hBelow⟩
  intro t₀ ht₀
  obtain ⟨rfl, hRoot, hNone, hMade⟩ := ht₀
  have hBlock : Prog.Triple (Steady s (Staging s.root drawn.name) s.disk.isDir) (do
      let source ← unpackCmxToDir archive (s.root ++ [drawn.name])
      install source) (fun _ => Staged s c drawn) (Staged s c drawn) := by
    refine Prog.Triple.bind (Prog.Triple.mono (unpackCmxToDir_keeps s drawn _ archive)
      (fun _ h => h) (fun _ _ h => h) fun _ h => h.staged hTidy hNone) fun source => ?_
    intro t ht
    obtain ⟨hSteady, hLocated⟩ := ht
    have hStaged : Staged s c drawn t := hSteady.staged hTidy hNone
    exact (install_installed hStaged.leaves.tidy source
      ((hFits source hLocated).staged hRoot hNone hSteady hNe)).mono (fun _ h => h)
      (fun _ _ h => h.staged hNe hStaged) (fun _ h => h.staged hNe hStaged) t rfl
  have hAttempt : Prog.Triple (Steady s (Staging s.root drawn.name) s.disk.isDir) (Prog.attempt do
      let source ← unpackCmxToDir archive (s.root ++ [drawn.name])
      install source) (fun _ => Staged s c drawn) (Leaves s [c, drawn.name]) :=
    hBlock.attempt.mono (fun _ h => h) (fun r t h => by cases r <;> exact h) fun _ h => h.leaves
  refine (hAttempt.bind fun r => ?_) t₀ hMade
  intro t ht
  have hBelow : ∀ l, target [] (s.root ++ [drawn.name]) <+: l → Own s.root [c, drawn.name] l := by
    intro l hl
    rw [target_root s drawn.plain.1] at hl
    exact .inr ⟨drawn.name, by simp, hl⟩
  have hKept : ∀ l, Homes t l → ¬target [] (s.root ++ [drawn.name]) <+: l := by
    rintro l ⟨id, e, he, rfl⟩ hl
    rw [target_root s drawn.plain.1] at hl
    obtain ⟨c', hTarget, -⟩ := ht.leaves.tidy.direct id e he
    rw [hTarget, ht.leaves.root] at hl
    have hSame := hl.eq_of_length (by simp)
    exact ht.apart id e he (by rw [hTarget, ht.leaves.root, hSame])
  have hGone : ∀ t', Steady t (Own s.root [c, drawn.name]) (Homes t) t' →
      Leaves s [c, drawn.name] t' := fun t' ht' =>
    ⟨ht'.tidy_homes ht.leaves.tidy, ht'.root.trans ht.leaves.root,
      fun l hl => (ht'.same l hl).trans (ht.leaves.same l hl)⟩
  refine (((removeDirAll_keeps hBelow hKept).attempted.mono (fun _ h => h) (fun _ _ h => hGone _ h)
    fun _ h => h.elim).bind fun _ => ?_) t ht.steady
  cases r with
  | ok id => exact .done fun _ h => h
  | error e => exact .fail fun _ h => h

end Archive

theorem Steady.leaves {dirs : List String} (h : Steady s (Own s.root dirs) (Homes s) t)
    (hTidy : Tidy s) : Leaves s dirs t := ⟨h.tidy_homes hTidy, h.root, h.same⟩

theorem Leaves.of_edit {dirs : List String} {s' : ExtensionRegistry} (hTidy : Tidy s')
    (hRoot : s'.root = s.root) (hDisk : ∀ l, ¬Own s.root dirs l → s'.disk.item l = s.disk.item l)
    (h : Steady s' (Own s.root dirs) (Homes s') t) : Leaves s dirs t :=
  ⟨h.tidy_homes hTidy, h.root.trans hRoot, fun l hl => (h.same l hl).trans (hDisk l hl)⟩

theorem save_leaves {dirs : List String} {s' : ExtensionRegistry} (hTidy : Tidy s')
    (hRoot : s'.root = s.root) (hDisk : ∀ l, ¬Own s.root dirs l → s'.disk.item l = s.disk.item l) :
    Prog.Triple (Steady s' (Own s.root dirs) (Homes s')) save (fun _ => Leaves s dirs)
      (Leaves s dirs) := by
  have hBooks : ∀ l, Books s'.root l → Own s.root dirs l := fun l hl => .inl (hRoot ▸ hl)
  exact Prog.Triple.mono (save_keeps hBooks) (fun _ h => h)
    (fun _ _ h => .of_edit hTidy hRoot hDisk h.1) fun _ h => .of_edit hTidy hRoot hDisk h

def withoutEntry (s : ExtensionRegistry) (id : String) : ExtensionRegistry :=
  { s with entries := s.entries.erase id }

theorem lookup_withoutEntry {id id' : String} {e : RegistryEntry}
    (h : (withoutEntry s id).entries.lookup id' = some e) :
    id' ≠ id ∧ s.entries.lookup id' = some e := by
  unfold withoutEntry at h
  by_cases hSame : id' = id
  · subst hSame
    rw [AList.lookup_erase] at h
    cases h
  · rw [AList.lookup_erase_ne hSame] at h
    exact ⟨hSame, h⟩

theorem Tidy.withoutEntry (hTidy : Tidy s) (id : String) : Tidy (withoutEntry s id) :=
  hTidy.of_part rfl (fun _ e he => ⟨e, (lookup_withoutEntry he).2, rfl⟩)
    fun _ _ he => hTidy.isDir (lookup_withoutEntry he).2

theorem uninstall_leaves (hTidy : Tidy s) (id : String) :
    Prog.Triple (· = s) (uninstall id)
      (fun _ t => ∃ e c, s.entries.lookup id = some e ∧ target [] e.extDir = s.root ++ [c] ∧
        Leaves s [c] t)
      fun t => Leaves s [] t ∨ ∃ e c, s.entries.lookup id = some e ∧
        target [] e.extDir = s.root ++ [c] ∧ Leaves s [c] t := by
  refine .perform fun t ht => ?_
  subst ht
  cases hEntry : t.entries.lookup id with
  | none => exact .fail fun t' ht' => .inl (ht' ▸ hTidy.leaves _)
  | some e =>
    obtain ⟨c, hTarget, -⟩ := hTidy.direct id e hEntry
    have hSave : Prog.Triple
        (Steady (withoutEntry t id) (Own t.root [c]) (Homes (withoutEntry t id))) save
        (fun _ => Leaves t [c]) (Leaves t [c]) :=
      save_leaves (hTidy.withoutEntry id) rfl fun _ _ => rfl
    have hEnd : ∀ t', Leaves t [c] t' → ∃ e' c, some e = some e' ∧
        target [] e'.extDir = t.root ++ [c] ∧ Leaves t [c] t' :=
      fun t' h => ⟨e, c, rfl, hTarget, h⟩
    have hSaved := hSave.mono (fun _ h => h) (fun _ t' h => hEnd t' h)
      fun t' h => (Or.inr (hEnd t' h) : Leaves t [] t' ∨ _)
    refine .perform fun t₁ ht₁ => ?_
    have hErased : ∀ t', t' = Act.apply (.erase id) t₁ →
        Steady (withoutEntry t id) (Own t.root [c]) (Homes (withoutEntry t id)) t' := by
      intro t' ht'
      subst ht' ht₁
      exact (hTidy.withoutEntry id).steady _
    split
    · have hBelow : ∀ l, target [] e.extDir <+: l → Own t.root [c] l :=
        fun l hl => .inr ⟨c, List.mem_singleton.mpr rfl, hTarget ▸ hl⟩
      have hKept : ∀ l, Homes (withoutEntry t id) l → ¬target [] e.extDir <+: l := by
        rintro l ⟨id', e', he', rfl⟩ hl
        obtain ⟨hNe, hOld⟩ := lookup_withoutEntry he'
        obtain ⟨c', hTarget', -⟩ := hTidy.direct id' e' hOld
        rw [hTarget, hTarget'] at hl
        have hSame := hl.eq_of_length (by simp)
        exact hTidy.apart id' e' id e hOld hEntry hNe (by rw [hTarget, hTarget', hSame])
      refine Prog.Triple.bind (Prog.Triple.mono (removeDirAll_keeps hBelow hKept) hErased
        (fun _ _ h => h.1) fun t' h => .inr (hEnd t' ?_)) fun _ => hSaved
      exact .of_edit (hTidy.withoutEntry id) rfl (fun _ _ => rfl) h
    · exact hSaved.mono hErased (fun _ _ h => h) fun _ h => h

theorem editEntry_leaves (hTidy : Tidy s) (id : String) {f : RegistryEntry → RegistryEntry}
    (hDir : ∀ e, (f e).extDir = e.extDir) :
    Prog.Triple (· = s) (editEntry id f) (fun _ => Leaves s []) (Leaves s []) := by
  refine .perform fun t ht => ?_
  subst ht
  cases hEntry : t.entries.lookup id with
  | none => exact .fail fun t' ht' => ht' ▸ hTidy.leaves _
  | some e =>
    have hPart (id' : String) (e' : RegistryEntry)
        (he' : (withEntry t id (f e)).entries.lookup id' = some e') :
        ∃ e₀, t.entries.lookup id' = some e₀ ∧ e₀.extDir = e'.extDir := by
      rw [lookup_withEntry] at he'
      split at he'
      · rename_i hSame
        cases he'
        exact ⟨e, hSame ▸ hEntry, (hDir e).symm⟩
      · exact ⟨e', he', rfl⟩
    have hEdited : Tidy (withEntry t id (f e)) := by
      refine hTidy.of_part rfl hPart fun id' e' he' => ?_
      obtain ⟨e₀, he₀, hSame⟩ := hPart id' e' he'
      exact hSame ▸ hTidy.isDir he₀
    have hSave : Prog.Triple
        (Steady (withEntry t id (f e)) (Own t.root []) (Homes (withEntry t id (f e)))) save
        (fun _ => Leaves t []) (Leaves t []) := save_leaves hEdited rfl fun _ _ => rfl
    refine .perform fun t₁ ht₁ => ?_
    refine hSave.mono (fun t' ht' => ?_) (fun _ _ h => h) fun _ h => h
    subst ht' ht₁
    exact hEdited.steady _

theorem Steady.read (h : Steady s A K t) : Steady s A K (Act.apply .read t) :=
  ⟨h.root, h.entries, h.same, h.kept⟩

/-- A directory of the root that holds a manifest. -/
def Holds (s : ExtensionRegistry) (name : String) (m : Manifest) : Prop :=
  s.disk.isDir (s.root ++ [name]) ∧
    s.disk.item (s.root ++ [name, manifestFilename]) = some (.file (.manifest m))

theorem Holds.unique {name : String} {m m' : Manifest} (h : Holds s name m) (h' : Holds s name m') :
    m = m' := by
  cases h.2.symm.trans h'.2
  rfl

theorem holds_of_found {name : FileName} {m : Manifest} (h : found name s = some m) :
    Holds s name.name m := by
  unfold found at h
  split at h
  · rename_i hDir
    split at h
    · rename_i m' hFile
      split at h
      · cases h
      · split at h
        · cases h
          exact ⟨hDir, hFile⟩
        · cases h
    · cases h
  · cases h

/-- The entries are those of manifests that lie in their directories. -/
def Adopted (s : ExtensionRegistry) (entries : AList fun _ : String => RegistryEntry) : Prop :=
  ∀ id e, entries.lookup id = some e →
    ∃ (name : FileName) (m : Manifest), e.extDir = s.root ++ [name.name] ∧ Holds s name.name m ∧ m.id = id

theorem Adopted.insert {entries : AList fun _ : String => RegistryEntry} (h : Adopted s entries)
    {name : FileName} {m : Manifest} (hHolds : Holds s name.name m) {e : RegistryEntry}
    (hDir : e.extDir = s.root ++ [name.name]) : Adopted s (entries.insert m.id e) := by
  intro id e' he'
  by_cases hSame : id = m.id
  · subst hSame
    rw [AList.lookup_insert] at he'
    cases he'
    exact ⟨name, m, hDir, hHolds, rfl⟩
  · rw [AList.lookup_insert_ne hSame] at he'
    exact h id e' he'

/-- The disk, the root and the entries are those of `s`. -/
structure SameDisk (s t : ExtensionRegistry) : Prop where
  disk : t.disk = s.disk
  root : t.root = s.root
  entries : t.entries = s.entries

theorem Steady.of_sameDisk {t' : ExtensionRegistry} (h : Steady s A K t) (hSame : SameDisk t t') :
    Steady s A K t' :=
  ⟨hSame.root.trans h.root, hSame.entries.trans h.entries, fun l hl => hSame.disk ▸ h.same l hl,
    fun l hl => hSame.disk ▸ h.kept l hl⟩

theorem adopt_adopted (p : PersistedRegistry) (listing : List FileName)
    (entries : AList fun _ : String => RegistryEntry) (h : Adopted s entries) :
    Prog.Keeps (SameDisk s) (adopt p listing entries) (Adopted s) := by
  induction listing generalizing entries with
  | nil => exact .done h
  | cons name rest ih =>
    refine .perform (fun t ht => ⟨ht.disk, ht.root, ht.entries⟩) fun t ht => ?_
    cases hFound : found name t with
    | none => exact ih entries h
    | some m =>
      refine .perform (fun t ht => ⟨ht.disk, ht.root, ht.entries⟩) fun t' _ => ih _ ?_
      have hHolds := holds_of_found hFound
      rw [Holds, ht.disk, ht.root] at hHolds
      refine h.insert hHolds ?_
      rw [← ht.root]
      cases p.extensions.lookup m.id <;> rfl

theorem Adopted.tidy (hEntries : Adopted s t.entries) (hDisk : t.disk = s.disk)
    (hRoot : t.root = s.root) : Tidy t := by
  refine ⟨fun id e he => ?_, fun id e id' e' he he' hNe => ?_⟩
  · obtain ⟨name, m, hDir, hHolds, -⟩ := hEntries id e he
    rw [hDir, hRoot, hDisk, target_root s name.plain.1]
    exact ⟨name.name, rfl, hHolds.1⟩
  · obtain ⟨name, m, hDir, hHolds, rfl⟩ := hEntries id e he
    obtain ⟨name', m', hDir', hHolds', rfl⟩ := hEntries id' e' he'
    rw [hDir, hDir', target_root s name.plain.1, target_root s name'.plain.1]
    refine append_name_ne s.root fun hName => hNe ?_
    rw [hName] at hHolds
    rw [hHolds.unique hHolds']

theorem loadPersisted_keeps : KeepsSteady s A K loadPersisted := by
  refine .perform (fun t ht => ht.read) fun t _ => ?_
  split
  · exact .done trivial
  · split
    · split
      · exact .fail
      · split
        · exact .fail
        · exact .done trivial
    · exact .fail

theorem refresh_leaves (hTidy : Tidy s) (listing : List FileName) :
    Prog.Triple (· = s) (refresh listing) (fun _ => Leaves s []) (Leaves s []) := by
  have hBooks : ∀ l, Books s.root l → Own s.root [] l := fun l hl => .inl hl
  refine .perform fun t ht => ?_
  subst ht
  have hLeaves : ∀ t', Steady t (Own t.root []) (Homes t) t' → Leaves t [] t' :=
    fun t' h => h.leaves hTidy
  have hRest : Prog.Triple (Steady t (Own t.root []) (Homes t)) (do
      let p ← loadPersisted
      let entries ← adopt p listing ∅
      let _ ← Prog.perform (.replace entries)
      save) (fun _ => Leaves t []) (Leaves t []) := by
    refine Prog.Triple.bind (Prog.Triple.mono loadPersisted_keeps (fun _ h => h) (fun _ _ h => h.1)
      hLeaves) fun p => ?_
    intro t₁ ht₁
    have hNone : Adopted t₁ ∅ := fun id e he => by cases he
    have hAdopt := adopt_adopted p listing ∅ hNone
    refine (Prog.Triple.bind (Prog.Triple.mono hAdopt (fun t₂ ht₂ => ?_) (fun _ _ h => h)
      fun t₂ ht₂ => hLeaves t₂ (ht₁.of_sameDisk ht₂)) fun entries => ?_) t₁ rfl
    · subst ht₂
      exact ⟨rfl, rfl, rfl⟩
    refine .perform fun t₂ ht₂ => ?_
    obtain ⟨hSame, hEntries⟩ := ht₂
    let t₃ : ExtensionRegistry := { t₂ with entries }
    have hTidy₃ : Tidy t₃ := Adopted.tidy (s := t₁) (t := t₃) hEntries hSame.disk hSame.root
    have hSave : Prog.Triple (Steady t₃ (Own t.root []) (Homes t₃)) save (fun _ => Leaves t [])
        (Leaves t []) :=
      save_leaves hTidy₃ (hSame.root.trans ht₁.root) (ht₁.of_sameDisk hSame).same
    exact hSave.mono (fun t₄ ht₄ => ht₄ ▸ hTidy₃.steady _) (fun _ _ h => h) fun _ h => h
  dsimp only
  split
  · exact Prog.Triple.bind (Prog.Triple.mono (createDirAll_keeps (clear_root t _ hBooks))
      (fun t' ht' => ht' ▸ hTidy.steady _) (fun _ _ h => h.1) hLeaves) fun _ => hRest
  · exact hRest.mono (fun t' ht' => ht' ▸ hTidy.steady _) (fun _ _ h => h) fun _ h => h

/-- A call of the registry. -/
inductive Call where
  | refresh (listing : List FileName)
  | install (source : Source)
  | installArchive (archive : Archive) (drawn : FileName)
  | uninstall (id : String)
  | setEnabled (id : String) (enabled : Bool)
  | setDisabledByCrash (id : String)

namespace Call

/-- The state after a call, however it ends. -/
def step (s : ExtensionRegistry) : Call → ExtensionRegistry
  | .refresh listing => ((Extensions.refresh listing).run s).2
  | .install source => ((Extensions.install source).run s).2
  | .installArchive archive drawn => ((Extensions.installArchive archive drawn).run s).2
  | .uninstall id => ((Extensions.uninstall id).run s).2
  | .setEnabled id enabled => ((Extensions.setEnabled id enabled).run s).2
  | .setDisabledByCrash id => ((Extensions.setDisabledByCrash id).run s).2

/-- An installation goes to a directory of its own below the root. -/
def InRoot (s : ExtensionRegistry) : Call → Prop
  | .install source => ∃ c, source.Fits s c
  | .installArchive archive drawn =>
    ∃ c, c ≠ drawn.name ∧ ∀ source, archive.located = .ok source → source.Fits s c
  | _ => True

/-- The call touches nothing outside the root, nor another extension. -/
def StaysInside (s : ExtensionRegistry) (call : Call) : Prop :=
  match call with
  | .install _ => ∃ c, Leaves s [c] (call.step s)
  | .installArchive _ drawn => ∃ c, Leaves s [c, drawn.name] (call.step s)
  | .uninstall id => Leaves s [] (call.step s) ∨ ∃ e c, s.entries.lookup id = some e ∧
      target [] e.extDir = s.root ++ [c] ∧ Leaves s [c] (call.step s)
  | _ => Leaves s [] (call.step s)

theorem leaves_of_triple {α : Type} {p : Op α} {Q : ExtensionRegistry → Prop}
    (h : Prog.Triple (· = s) p (fun _ => Q) Q) : Q (p.run s).2 := by
  have hRun := h s rfl
  cases hEnd : p.run s with
  | mk r t =>
    rw [hEnd] at hRun
    cases r <;> exact hRun

theorem step_staysInside (hTidy : Tidy s) (call : Call) (h : call.InRoot s) : call.StaysInside s := by
  cases call with
  | refresh listing => exact leaves_of_triple (refresh_leaves hTidy listing)
  | install source =>
    obtain ⟨c, hFits⟩ := h
    exact ⟨c, leaves_of_triple ((install_installed hTidy source hFits).mono (fun _ h => h)
      (fun _ _ h => h.leaves) fun _ h => h.leaves)⟩
  | installArchive archive drawn =>
    obtain ⟨c, hNe, hFits⟩ := h
    exact ⟨c, leaves_of_triple (installArchive_leaves hTidy archive hNe hFits)⟩
  | uninstall id =>
    exact leaves_of_triple ((uninstall_leaves hTidy id).mono (fun _ h => h) (fun _ _ h => .inr h)
      fun _ h => h)
  | setEnabled id enabled =>
    exact leaves_of_triple (editEntry_leaves hTidy id fun _ => rfl)
  | setDisabledByCrash id =>
    exact leaves_of_triple (editEntry_leaves hTidy id fun _ => rfl)

theorem StaysInside.tidy {call : Call} (h : call.StaysInside s) : Tidy (call.step s) := by
  cases call with
  | install _ | installArchive _ _ =>
    obtain ⟨c, hLeaves⟩ := h
    exact hLeaves.tidy
  | uninstall id =>
    rcases h with hLeaves | ⟨e, c, -, -, hLeaves⟩
    · exact hLeaves.tidy
    · exact hLeaves.tidy
  | refresh _ | setEnabled _ _ | setDisabledByCrash _ => exact Leaves.tidy h

end Call

theorem Tidy.not_nested (hTidy : Tidy s) {id id' : String} {e e' : RegistryEntry}
    (he : s.entries.lookup id = some e) (he' : s.entries.lookup id' = some e') (hNe : id ≠ id') :
    ¬target [] e.extDir <+: target [] e'.extDir := by
  intro hNested
  obtain ⟨c, hTarget, -⟩ := hTidy.direct id e he
  obtain ⟨c', hTarget', -⟩ := hTidy.direct id' e' he'
  refine hTidy.apart id e id' e' he he' hNe ?_
  rw [hTarget, hTarget'] at hNested ⊢
  exact hNested.eq_of_length (by simp)

/-- From a new registry on any disk, as long as every id that is installed leads into the root: every
call changes only the directory that it is for, and the directories of the installed extensions are
directories of the root of which none is another or lies in it. -/
theorem installs_stay_inside (s : ExtensionRegistry) (hNew : s.entries = ∅) (calls : List Call)
    (hIds : History.Each Call.step Call.InRoot s calls) :
    History.Each Call.step Call.StaysInside s calls ∧ Tidy (History.play Call.step s calls) ∧
      ∀ id e id' e', (History.play Call.step s calls).entries.lookup id = some e →
        (History.play Call.step s calls).entries.lookup id' = some e' → id ≠ id' →
        ¬target [] e.extDir <+: target [] e'.extDir := by
  have hStart : Tidy s := by
    refine ⟨fun id e he => ?_, fun id e id' e' he => ?_⟩
    · rw [hNew] at he
      cases he
    · rw [hNew] at he
      cases he
  have hStep : ∀ t c, Tidy t → Call.InRoot t c → Tidy (Call.step t c) :=
    fun t c ht hc => (Call.step_staysInside ht c hc).tidy
  have hTidy : Tidy (History.play Call.step s calls) := History.preserves hStep hIds hStart
  refine ⟨?_, hTidy, fun id e id' e' he he' hNe => hTidy.not_nested he he' hNe⟩
  exact History.each_of_invariant
    (fun t c ht hc => ⟨hStep t c ht hc, Call.step_staysInside ht c hc⟩) hIds hStart

section Examples

def newRegistry : ExtensionRegistry where
  root := ["ext"]
  down := by decide
  entries := ∅
  disk := .empty Content
  faults := []
  clock := []

def mainFile : SourceItem where
  rel := [⟨"main.js", by decide⟩]
  item := .file .other

def sourceOf (publisher id : String) : Source where
  manifest := .ok ⟨id, "Demo", "1", publisher, "^1.0", none, []⟩
  walk := [some mainFile]

theorem demo_fits : (sourceOf "alice" "alice.demo").Fits newRegistry "alice.demo" := by
  intro m hManifest _ _
  obtain rfl := Except.ok.inj hManifest
  have hPath : join newRegistry.root "alice.demo" = ["ext", "alice.demo"] := by decide
  refine ⟨?_, fun l hl => .inr ?_⟩
  · show target [] (join newRegistry.root "alice.demo") = _
    rw [hPath]
    rfl
  · replace hl : l ∈ trail [] (join newRegistry.root "alice.demo") := hl
    rw [hPath] at hl
    have hCases : l = ["ext"] ∨ l = ["ext", "alice.demo"] := by
      simpa [trail, goTo] using hl
    rcases hCases with rfl | rfl
    · exact .inl (List.prefix_refl _)
    · exact .inr ⟨List.prefix_refl _, rfl⟩

/-- An extension is installed and uninstalled. -/
theorem demo_stays_inside :
    History.Each Call.step Call.StaysInside newRegistry
      [.install (sourceOf "alice" "alice.demo"), .uninstall "alice.demo"] :=
  (installs_stay_inside newRegistry rfl
    [.install (sourceOf "alice" "alice.demo"), .uninstall "alice.demo"]
    ⟨⟨"alice.demo", demo_fits⟩, trivial, trivial⟩).1

/-- An absolute id takes the place of the root. -/
theorem evil_escapes :
    (sourceOf "/tmp/evil" "/tmp/evil.ext").manifest.bind (·.validate) = .ok () ∧
      ¬Call.StaysInside newRegistry (.install (sourceOf "/tmp/evil" "/tmp/evil.ext")) := by
  refine ⟨by decide, ?_⟩
  rintro ⟨c, hLeaves⟩
  have hOutside : ¬Own ["ext"] [c] ["tmp", "evil.ext", "main.js"] := by
    rintro (hBooks | ⟨c', -, hBelow⟩)
    · rcases hBooks with hAbove | hFile | hFile
      · exact absurd hAbove (by decide)
      · exact absurd hFile (by decide)
      · exact absurd hFile (by decide)
    · exact absurd (List.cons_prefix_cons.mp hBelow).1 (by decide)
  have hThere : ((Call.step newRegistry
      (.install (sourceOf "/tmp/evil" "/tmp/evil.ext"))).disk.item
        ["tmp", "evil.ext", "main.js"]).isSome = true := by decide
  rw [hLeaves.same ["tmp", "evil.ext", "main.js"] hOutside] at hThere
  cases hThere

end Examples

end Cronymax.Extensions
