import Cronymax.Atomic.Triple
import Cronymax.Extensions.Registry

/-! What the file operations of the registry change.  `Steady` says of a state that nothing has changed
since another one but what is allowed, and that some directories are still there. -/

namespace Cronymax.Extensions

open Atomic Files

/-- The locations of the registry's own files, and those above them. -/
def Books (root : Location) (l : Location) : Prop :=
  l <+: root ∨ l = root ++ [registryTmp] ∨ l = root ++ [registryFilename]

/-- The locations that the registry writes to. -/
def Own (root : Location) (dirs : List String) (l : Location) : Prop :=
  Books root l ∨ ∃ c ∈ dirs, root ++ [c] <+: l

/-- Since `s` nothing has changed but what `A` allows, and the directories of `K` are there. -/
structure Steady (s : ExtensionRegistry) (A K : Location → Prop) (t : ExtensionRegistry) : Prop where
  root : t.root = s.root
  entries : t.entries = s.entries
  same : ∀ l, ¬A l → t.disk.item l = s.disk.item l
  kept : ∀ l, K l → t.disk.isDir l

variable {s t : ExtensionRegistry} {A K : Location → Prop}

namespace Steady

theorem start (s : ExtensionRegistry) (A : Location → Prop) : Steady s A s.disk.isDir s :=
  ⟨rfl, rfl, fun _ _ => rfl, fun _ h => h⟩

theorem weaken {A' K' : Location → Prop} (h : Steady s A K t) (hA : ∀ l, A l → A' l)
    (hK : ∀ l, K' l → K l) : Steady s A' K' t :=
  ⟨h.root, h.entries, fun l hl => h.same l fun hAllowed => hl (hA l hAllowed),
    fun l hl => h.kept l (hK l hl)⟩

theorem onDisk (h : Steady s A K t) {f : Disk Content → Disk Content}
    (hSame : ∀ l, ¬A l → (f t.disk).item l = t.disk.item l)
    (hKept : ∀ l, K l → (f t.disk).isDir l) : Steady s A K (t.onDisk f) := by
  refine ⟨h.root, h.entries, fun l hl => ?_, fun l hl => ?_⟩
  · show (if t.fault then t.disk else f t.disk).item l = s.disk.item l
    split
    · exact h.same l hl
    · rw [hSame l hl]
      exact h.same l hl
  · show (if t.fault then t.disk else f t.disk).isDir l
    split
    · exact h.kept l hl
    · exact hKept l hl

theorem mkdir (h : Steady s A K t) {l : Location} (hl : K l ∨ A l) :
    Steady s A K (Act.apply (.mkdir l) t) := by
  refine h.onDisk (f := (·.mkdir l)) (fun l' hl' => ?_) fun l' hl' => Disk.isDir_mkdir (h.kept l' hl')
  by_cases hSame : l' = l
  · subst hSame
    have hDir : t.disk.isDir l' := h.kept l' (hl.resolve_right hl')
    exact (Disk.isDir_mkdir hDir).trans hDir.symm
  · exact Disk.item_mkdir hSame

theorem write (h : Steady s A K t) {path : Path} (hPath : A (target [] path)) (content : Content) :
    Steady s A K (Act.apply (.write path content) t) := by
  refine h.onDisk (fun l hl => ?_) fun l hl => ?_
  · unfold writeAt
    split
    · rename_i loc hLoc
      have hNe : l ≠ loc := fun hEq => hl (hEq ▸ Disk.resolve_eq hLoc ▸ hPath)
      exact Disk.item_write hNe
    · rfl
  · unfold writeAt
    split
    · exact Disk.isDir_write (h.kept l hl)
    · exact h.kept l hl

theorem remove (h : Steady s A K t) {path : Path} (hPath : ∀ l, target [] path <+: l → A l)
    (hKept : ∀ l, K l → ¬target [] path <+: l) : Steady s A K (Act.apply (.removeDirAll path) t) := by
  have hSame (l : Location) (hl : ¬target [] path <+: l) :
      (removeAt path t.disk).item l = t.disk.item l := by
    unfold removeAt
    split
    · rename_i loc hLoc
      rw [Disk.resolve_eq hLoc]
      exact Disk.item_remove hl
    · rfl
  refine h.onDisk (fun l hl => hSame l fun hBelow => hl (hPath l hBelow)) fun l hl => ?_
  exact (hSame l (hKept l hl)).trans (h.kept l hl)

theorem rename (h : Steady s A K t) {source path : Path} (hSource : A (target [] source))
    (hPath : A (target [] path)) : Steady s A K (Act.apply (.rename source path) t) := by
  have hMoved (l : Location) (hSame : l ≠ target [] source ∨ t.disk.isDir l)
      (hSame' : l ≠ target [] path ∨ t.disk.isDir l) :
      (renameAt source path t.disk).item l = t.disk.item l := by
    unfold renameAt
    cases hMove : movable source path t.disk with
    | none => rfl
    | some moved =>
      obtain ⟨loc, loc', content⟩ := moved
      unfold movable at hMove
      split at hMove
      · rename_i l₁ l₂ hLoc hLoc'
        split at hMove
        · rename_i content' hFile
          split at hMove
          · cases hMove
          · rename_i hNotDir
            cases hMove
            rw [← Disk.resolve_eq hLoc] at hSame
            rw [← Disk.resolve_eq hLoc'] at hSame'
            have hNe : l ≠ loc := by
              rcases hSame with hNe | hDir
              · exact hNe
              · intro hEq
                subst hEq
                cases hDir.symm.trans hFile
            have hNe' : l ≠ loc' := by
              rcases hSame' with hNe | hDir
              · exact hNe
              · intro hEq
                exact hNotDir (hEq ▸ hDir)
            show ((t.disk.remove loc).write loc' content).item l = t.disk.item l
            rw [Disk.item_write hNe']
            exact Disk.item_remove_file hFile hNe
        · cases hMove
      · cases hMove
  refine h.onDisk (fun l hl => ?_) fun l hl => ?_
  · exact hMoved l (.inl fun hEq => hl (hEq ▸ hSource)) (.inl fun hEq => hl (hEq ▸ hPath))
  · have hDir := h.kept l hl
    exact (hMoved l (.inr hDir) (.inr hDir)).trans hDir

end Steady

/-- The program keeps `Steady`. -/
abbrev KeepsSteady {α : Type} (s : ExtensionRegistry) (A K : Location → Prop) (p : Op α) : Prop :=
  Prog.Keeps (Steady s A K) p fun _ => True

/-- What may be on the way of a path along which directories are made. -/
def Clear (A K : Location → Prop) (path : Path) : Prop := ∀ l ∈ trail [] path, K l ∨ A l

theorem createDirAll_dir (path : Path) (loc : Location) (hTrail : ∀ l ∈ trail loc path, K l ∨ A l) :
    Prog.Triple (fun t => Steady s A K t ∧ t.disk.isDir loc) (createDirAll loc path)
      (fun _ t => Steady s A K t ∧ t.disk.isDir (target loc path)) (Steady s A K) := by
  induction path generalizing loc with
  | nil => exact .done fun t ht => ht
  | cons name path ih =>
    refine .perform fun t ht => ?_
    obtain ⟨hSteady, hLoc⟩ := ht
    have hMade := hSteady.mkdir (hTrail (goTo loc name) List.mem_cons_self)
    have hRest := ih (goTo loc name) fun l hl => hTrail l (List.mem_cons_of_mem _ hl)
    cases hItem : t.disk.item (goTo loc name) with
    | none =>
      dsimp only
      by_cases hFault : t.fault
      · rw [if_pos hFault]
        exact .fail fun t' ht' => ht' ▸ hMade
      · rw [if_neg hFault]
        refine hRest.mono (fun t' ht' => ht' ▸ ⟨hMade, ?_⟩) (fun _ _ h => h) fun _ h => h
        show (if t.fault then t.disk else t.disk.mkdir (goTo loc name)).isDir (goTo loc name)
        rw [if_neg hFault]
        exact Disk.mkdir_goTo hLoc hItem
    | some it =>
      cases it with
      | dir =>
        refine hRest.mono (fun t' ht' => ht' ▸ ⟨hMade, ?_⟩) (fun _ _ h => h) fun _ h => h
        show (if t.fault then t.disk else t.disk.mkdir (goTo loc name)).isDir (goTo loc name)
        split
        · exact hItem
        · exact Disk.isDir_mkdir hItem
      | file content => exact .fail fun t' ht' => ht' ▸ hMade

theorem createDirAll_keeps {path : Path} (hClear : Clear A K path) :
    KeepsSteady s A K (createDirAll [] path) :=
  (createDirAll_dir path [] hClear).mono (fun t ht => ⟨ht, t.disk.top⟩) (fun _ _ h => ⟨h.1, trivial⟩)
    fun _ h => h

theorem writeFile_keeps {path : Path} (hPath : A (target [] path)) (content : Content) :
    KeepsSteady s A K (writeFile path content) := by
  refine .perform (fun t ht => ht.write hPath content) fun t ht => ?_
  split
  · split
    · exact .fail
    · exact .done trivial
  · exact .fail

theorem rename_keeps {source path : Path} (hSource : A (target [] source))
    (hPath : A (target [] path)) : KeepsSteady s A K (rename source path) := by
  refine .perform (fun t ht => ht.rename hSource hPath) fun t ht => ?_
  split
  · exact .fail
  · exact .done trivial

theorem removeDirAll_keeps {path : Path} (hPath : ∀ l, target [] path <+: l → A l)
    (hKept : ∀ l, K l → ¬target [] path <+: l) : KeepsSteady s A K (removeDirAll path) := by
  refine .perform (fun t ht => ht.remove hPath hKept) fun t ht => ?_
  split
  · exact .fail
  · exact .done trivial

theorem clear_dropLast {path : Path} (h : Clear A K path) : Clear A K path.dropLast := by
  intro l hl
  refine h l ?_
  by_cases hPath : path = []
  · subst hPath
    exact hl
  · rw [← List.dropLast_concat_getLast hPath, trail_append]
    exact List.mem_append_left _ hl

theorem placeFile_keeps {path : Path} (hClear : Clear A K path) (hPath : A (target [] path))
    (content : Content) : KeepsSteady s A K (do
      createDirAll [] path.dropLast
      writeFile path content) :=
  (createDirAll_keeps (clear_dropLast hClear)).bind fun _ _ => writeFile_keeps hPath content

theorem clear_append {dest rel : Path} (hDest : Clear A K dest)
    (hRel : ∀ l ∈ trail (target [] dest) rel, A l) : Clear A K (dest ++ rel) := by
  intro l hl
  rw [trail_append] at hl
  rcases List.mem_append.mp hl with hl | hl
  · exact hDest l hl
  · exact .inr (hRel l hl)

theorem SourceItem.down (i : SourceItem) : ".." ∉ i.path := by
  intro h
  obtain ⟨name, -, hName⟩ := List.mem_map.mp h
  exact name.plain.1 hName

theorem copyItem_keeps {dest : Path} (hDest : Clear A K dest)
    (hBelow : ∀ l, target [] dest <+: l → A l) (i : SourceItem) :
    KeepsSteady s A K (copyItem dest i) := by
  have hTrail : ∀ l ∈ trail (target [] dest) i.path, A l :=
    fun l hl => hBelow l (trail_of_names i.down hl).1
  have hTarget : A (target [] (dest ++ i.path)) := by
    rw [target_append, target_of_names i.down]
    exact hBelow _ (List.prefix_append _ _)
  unfold copyItem
  split
  · exact .done trivial
  · split
    · exact createDirAll_keeps (clear_append hDest hTrail)
    · exact placeFile_keeps (clear_append hDest hTrail) hTarget _

theorem copyItems_keeps {dest : Path} (hDest : Clear A K dest)
    (hBelow : ∀ l, target [] dest <+: l → A l) (walk : List (Option SourceItem)) :
    KeepsSteady s A K (copyItems dest walk) := by
  induction walk with
  | nil => exact .done trivial
  | cons i rest ih =>
    cases i with
    | none => exact .fail
    | some i => exact (copyItem_keeps hDest hBelow i).bind fun _ _ => ih

theorem copyDirRecursive_keeps {dest : Path} (hDest : Clear A K dest)
    (hBelow : ∀ l, target [] dest <+: l → A l) (source : Source) :
    Prog.Triple (Steady s A K) (copyDirRecursive source dest)
      (fun _ => Steady s A fun l => K l ∨ l = target [] dest) (Steady s A K) := by
  have hMade : Prog.Triple (Steady s A K) (createDirAll [] dest)
      (fun _ => Steady s A fun l => K l ∨ l = target [] dest) (Steady s A K) :=
    (createDirAll_dir dest [] hDest).mono (fun t ht => ⟨ht, t.disk.top⟩)
      (fun _ t ht => ⟨ht.1.root, ht.1.entries, ht.1.same, fun l hl =>
        hl.elim (ht.1.kept l) fun hSame => hSame ▸ ht.2⟩) fun _ h => h
  have hDest' : Clear A (fun l => K l ∨ l = target [] dest) dest :=
    fun l hl => (hDest l hl).imp_left .inl
  exact hMade.bind fun _ => Prog.Triple.mono (copyItems_keeps hDest' hBelow source.walk)
    (fun _ h => h) (fun _ _ h => h.1) fun _ h => h.weaken (fun _ h => h) fun _ h => .inl h

theorem clear_root (s : ExtensionRegistry) (K : Location → Prop)
    (hBooks : ∀ l, Books s.root l → A l) : Clear A K s.root := by
  intro l hl
  have hAbove : l <+: [] ++ s.root := (trail_of_names s.down hl).2
  exact .inr (hBooks l (.inl hAbove))

theorem target_root (s : ExtensionRegistry) {name : String} (hName : name ≠ "..") :
    target [] (s.root ++ [name]) = s.root ++ [name] := by
  have hDown : ".." ∉ s.root ++ [name] := by
    intro h
    rcases List.mem_append.mp h with h | h
    · exact s.down h
    · exact hName (List.mem_singleton.mp h).symm
  exact target_of_names hDown []

theorem save_keeps (hBooks : ∀ l, Books s.root l → A l) : KeepsSteady s A K save := by
  refine .perform (fun t ht => ht) fun t ht => ?_
  rw [ht.root]
  have hTmp : A (target [] (s.root ++ [registryTmp])) := by
    rw [target_root s (by decide)]
    exact hBooks _ (.inr (.inl rfl))
  have hFinal : A (target [] (s.root ++ [registryFilename])) := by
    rw [target_root s (by decide)]
    exact hBooks _ (.inr (.inr rfl))
  exact (createDirAll_keeps (clear_root s K hBooks)).bind fun _ _ =>
    (writeFile_keeps hTmp _).bind fun _ _ => rename_keeps hTmp hFinal

end Cronymax.Extensions
