import Mathlib.Data.List.Basic
import Mathlib.Data.List.Induction

/-! A file system as a tree of directories and files.  A disk carries the proof that whatever is there
lies in directories, so that no operation can leave a file behind in a directory that is gone.  A path
is a list of steps that may go up, so that where it leads is not what it spells. -/

namespace Files

abbrev Location := List String

/-- The steps of a path from the top; `..` goes up. -/
abbrev Path := List String

inductive Item (C : Type) where
  | dir
  | file (content : C)
deriving DecidableEq

/-- What a file holds. -/
def Item.content? {C : Type} : Item C → Option C
  | .dir => none
  | .file content => some content

/-- Files and directories: whatever there is lies in a directory. -/
structure Disk (C : Type) where
  item : Location → Option (Item C)
  top : item [] = some .dir
  closed : ∀ loc, loc ≠ [] → item loc ≠ none → item loc.dropLast = some .dir

@[grind =] def goTo (loc : Location) (name : String) : Location :=
  if name = ".." then loc.dropLast else loc ++ [name]

def target (loc : Location) (path : Path) : Location := path.foldl goTo loc

/-- The locations that a path leads through. -/
def trail : Location → Path → List Location
  | _, [] => []
  | loc, name :: path => goTo loc name :: trail (goTo loc name) path

@[simp] theorem target_nil (loc : Location) : target loc [] = loc := rfl

@[simp] theorem target_cons (loc : Location) (name : String) (path : Path) :
    target loc (name :: path) = target (goTo loc name) path := rfl

theorem target_append (loc : Location) (path path' : Path) :
    target loc (path ++ path') = target (target loc path) path' := List.foldl_append

theorem trail_append (loc : Location) (path path' : Path) :
    trail loc (path ++ path') = trail loc path ++ trail (target loc path) path' := by
  induction path generalizing loc with
  | nil => rfl
  | cons name path ih => simp only [List.cons_append, trail, target_cons, ih]

theorem target_mem_trail {loc : Location} {path : Path} (h : path ≠ []) :
    target loc path ∈ trail loc path := by
  induction path generalizing loc with
  | nil => exact absurd rfl h
  | cons name path ih =>
    cases path with
    | nil => exact List.mem_singleton.mpr rfl
    | cons name' path => exact List.mem_cons_of_mem _ (ih (List.cons_ne_nil name' path))

theorem target_of_names {path : Path} (h : ".." ∉ path) (loc : Location) :
    target loc path = loc ++ path := by
  induction path generalizing loc with
  | nil => simp
  | cons name path ih =>
    have hName : name ≠ ".." := fun hEq => h (hEq ▸ List.mem_cons_self)
    rw [target_cons, goTo, if_neg hName, ih fun hMem => h (List.mem_cons_of_mem _ hMem),
      List.append_assoc]
    rfl

theorem trail_of_names {path : Path} (h : ".." ∉ path) {loc l : Location} (hl : l ∈ trail loc path) :
    loc <+: l ∧ l <+: loc ++ path := by
  induction path generalizing loc with
  | nil => cases hl
  | cons name path ih =>
    have hName : name ≠ ".." := fun hEq => h (hEq ▸ List.mem_cons_self)
    have hSplit : loc ++ name :: path = loc ++ [name] ++ path := by simp
    rw [trail, goTo, if_neg hName] at hl
    rw [hSplit]
    rcases List.mem_cons.mp hl with rfl | hRest
    · exact ⟨List.prefix_append _ _, List.prefix_append _ _⟩
    · obtain ⟨hBelow, hAbove⟩ := ih (fun hMem => h (List.mem_cons_of_mem _ hMem)) hRest
      exact ⟨(List.prefix_append loc [name]).trans hBelow, hAbove⟩

namespace Disk

variable {C : Type} (d : Disk C)

/-- Nothing but the top. -/
def empty (C : Type) : Disk C where
  item := fun l => if l = [] then some .dir else none
  top := rfl
  closed := fun _ hl hThere => absurd (if_neg hl) hThere

def isDir (loc : Location) : Prop := d.item loc = some .dir

instance (loc : Location) : Decidable (d.isDir loc) :=
  match h : d.item loc with
  | some .dir => isTrue h
  | some (.file _) => isFalse fun hDir => by cases h.symm.trans hDir
  | none => isFalse fun hDir => by cases h.symm.trans hDir

/-- Where a path leads, if what it goes through are directories. -/
@[grind =] def resolve : Location → Path → Option Location
  | loc, [] => some loc
  | loc, name :: path =>
    match d.item loc with
    | some .dir => resolve (goTo loc name) path
    | _ => none

def has (path : Path) : Bool :=
  match d.resolve [] path with
  | some loc => (d.item loc).isSome
  | none => false

variable {d}

theorem resolve_eq {loc l : Location} {path : Path} (h : d.resolve loc path = some l) :
    l = target loc path := by
  induction path generalizing loc with
  | nil => exact (Option.some.inj h).symm
  | cons name path ih =>
    rw [resolve] at h
    split at h
    · exact ih h
    · cases h

theorem resolve_of_dirs {loc : Location} {path : Path} (hLoc : d.isDir loc)
    (h : ∀ l ∈ trail loc path, d.isDir l) : d.resolve loc path = some (target loc path) := by
  induction path generalizing loc with
  | nil => rfl
  | cons name path ih =>
    have hNext : d.isDir (goTo loc name) := h _ List.mem_cons_self
    have hRest : ∀ l ∈ trail (goTo loc name) path, d.isDir l :=
      fun l hl => h l (List.mem_cons_of_mem _ hl)
    have hItem : d.item loc = some .dir := hLoc
    rw [resolve, hItem]
    exact ih hNext hRest

theorem has_of_dirs {path : Path} (h : ∀ l ∈ trail [] path, d.isDir l) : d.has path = true := by
  have hTarget : d.isDir (target [] path) := by
    by_cases hPath : path = []
    · subst hPath
      exact d.top
    · exact h _ (target_mem_trail hPath)
  have hItem : d.item (target [] path) = some .dir := hTarget
  rw [has, resolve_of_dirs d.top h]
  simp only [hItem, Option.isSome_some]

theorem isDir_of_below {loc : Location} : ∀ {rest : Location}, rest ≠ [] →
    d.item (loc ++ rest) ≠ none → d.isDir loc := by
  intro rest
  induction rest using List.reverseRec with
  | nil => exact fun h => absurd rfl h
  | append_singleton rest name ih =>
    intro _ hThere
    have hParent : d.item (loc ++ rest) = some .dir := by
      have hClosed := d.closed (loc ++ (rest ++ [name])) (by simp) hThere
      rwa [← List.append_assoc, List.dropLast_concat] at hClosed
    by_cases hRest : rest = []
    · subst hRest
      rwa [List.append_nil] at hParent
    · exact ih hRest (by rw [hParent]; exact Option.some_ne_none _)

theorem isDir_above {loc l : Location} (hLoc : loc <+: l) (hNe : loc ≠ l)
    (h : d.item l ≠ none) : d.isDir loc := by
  obtain ⟨rest, rfl⟩ := hLoc
  exact isDir_of_below (fun hRest => hNe (by rw [hRest, List.append_nil])) h

theorem isDir_ne_none {loc : Location} (h : d.isDir loc) : d.item loc ≠ none := by
  rw [show d.item loc = some .dir from h]
  exact Option.some_ne_none _

theorem not_below {loc l : Location} (hNone : d.item loc = none) (h : d.item l ≠ none) :
    ¬loc <+: l := by
  intro hBelow
  by_cases hSame : loc = l
  · exact h (hSame ▸ hNone)
  · exact isDir_ne_none (isDir_above hBelow hSame h) hNone

theorem resolve_mono {d' : Disk C} (hDirs : ∀ l, d.isDir l → d'.isDir l) {loc l : Location}
    {path : Path} (h : d.resolve loc path = some l) : d'.resolve loc path = some l := by
  induction path generalizing loc with
  | nil => exact h
  | cons name path ih =>
    rw [resolve] at h ⊢
    split at h
    · rename_i hDir
      rw [show d'.item loc = some .dir from hDirs loc hDir]
      exact ih h
    · cases h

theorem has_mono {d' : Disk C} {path : Path} (hDirs : ∀ l, d.isDir l → d'.isDir l)
    (hEnd : d.item (target [] path) ≠ none → d'.item (target [] path) ≠ none)
    (h : d.has path = true) : d'.has path = true := by
  unfold has at h ⊢
  cases hLoc : d.resolve [] path with
  | none =>
    rw [hLoc] at h
    cases h
  | some loc =>
    rw [hLoc] at h
    rw [resolve_mono hDirs hLoc]
    rw [← resolve_eq hLoc] at hEnd
    have hThere := hEnd (Option.isSome_iff_ne_none.mp h)
    exact Option.isSome_iff_ne_none.mpr hThere

/-- One item is set. -/
def put (d : Disk C) (loc : Location) (it : Item C) (hLoc : loc ≠ [])
    (hParent : d.item loc.dropLast = some .dir) (hOld : d.item loc = some .dir → it = .dir) :
    Disk C where
  item := fun l => if l = loc then some it else d.item l
  top := by
    rw [if_neg (Ne.symm hLoc)]
    exact d.top
  closed := by
    intro l hl hThere
    by_cases hSame : l = loc
    · subst hSame
      have hShort : l.dropLast ≠ l := by
        intro hEq
        have hLength := congrArg List.length hEq
        have hPos := List.length_pos_iff.mpr hl
        rw [List.length_dropLast] at hLength
        omega
      rw [if_neg hShort]
      exact hParent
    · rw [if_neg hSame] at hThere
      have hDir := d.closed l hl hThere
      split
      · rename_i hUp
        rw [hOld (hUp ▸ hDir)]
      · exact hDir

/-- A directory is made, if there is none. -/
def mkdir (d : Disk C) (loc : Location) : Disk C :=
  if h : loc ≠ [] ∧ d.isDir loc.dropLast ∧ (d.item loc).isNone then
    d.put loc .dir h.1 h.2.1 fun _ => rfl
  else d

/-- A file is written, in a directory. -/
def write (d : Disk C) (loc : Location) (content : C) : Disk C :=
  if h : loc ≠ [] ∧ d.isDir loc.dropLast ∧ ¬d.isDir loc then
    d.put loc (.file content) h.1 h.2.1 fun hDir => absurd hDir h.2.2
  else d

/-- A file or a directory goes, with all that is below. -/
def remove (d : Disk C) (loc : Location) : Disk C where
  item := fun l => if loc <+: l ∧ l ≠ [] then none else d.item l
  top := by
    rw [if_neg fun h => h.2 rfl]
    exact d.top
  closed := by
    intro l hl hThere
    by_cases hGone : loc <+: l ∧ l ≠ []
    · rw [if_pos hGone] at hThere
      exact absurd rfl hThere
    · rw [if_neg hGone] at hThere
      have hUp : ¬(loc <+: l.dropLast ∧ l.dropLast ≠ []) :=
        fun h => hGone ⟨h.1.trans (List.dropLast_prefix l), hl⟩
      rw [if_neg hUp]
      exact d.closed l hl hThere

variable {l loc : Location}

theorem item_mkdir (h : l ≠ loc) : (d.mkdir loc).item l = d.item l := by
  unfold mkdir
  split
  · exact if_neg h
  · rfl

theorem isDir_mkdir (h : d.isDir l) : (d.mkdir loc).isDir l := by
  unfold mkdir
  split
  · show (if l = loc then some Item.dir else d.item l) = some .dir
    split
    · rfl
    · exact h
  · exact h

theorem mkdir_isDir (hLoc : loc ≠ []) (hParent : d.isDir loc.dropLast) (hNone : d.item loc = none) :
    (d.mkdir loc).isDir loc := by
  unfold mkdir
  rw [dif_pos ⟨hLoc, hParent, by rw [hNone]; rfl⟩]
  exact if_pos rfl

theorem mkdir_goTo {name : String} (hLoc : d.isDir loc) (hNone : d.item (goTo loc name) = none) :
    (d.mkdir (goTo loc name)).isDir (goTo loc name) := by
  by_cases hUp : name = ".."
  · have hDir : d.item loc.dropLast = some .dir := by
      by_cases hTop : loc = []
      · subst hTop
        exact d.top
      · exact d.closed loc hTop (by rw [show d.item loc = some .dir from hLoc]; simp)
    rw [goTo, if_pos hUp, hDir] at hNone
    cases hNone
  · rw [goTo, if_neg hUp] at hNone ⊢
    refine mkdir_isDir (by simp) ?_ hNone
    rwa [List.dropLast_concat]

theorem item_write {content : C} (h : l ≠ loc) : (d.write loc content).item l = d.item l := by
  unfold write
  split
  · exact if_neg h
  · rfl

theorem isDir_write {content : C} (h : d.isDir l) : (d.write loc content).isDir l := by
  by_cases hSame : l = loc
  · subst hSame
    unfold write
    rw [dif_neg fun hOk => hOk.2.2 h]
    exact h
  · exact (item_write hSame).trans h

theorem item_remove (h : ¬loc <+: l) : (d.remove loc).item l = d.item l := if_neg fun hGone => h hGone.1

theorem item_remove_file {content : C} (hFile : d.item loc = some (.file content)) (h : l ≠ loc) :
    (d.remove loc).item l = d.item l := by
  by_cases hBelow : loc <+: l
  · have hNone : d.item l = none := by
      by_contra hThere
      cases hFile.symm.trans (isDir_above hBelow (Ne.symm h) hThere)
    rw [hNone]
    show (if loc <+: l ∧ l ≠ [] then none else d.item l) = none
    split
    · rfl
    · exact hNone
  · exact item_remove hBelow

@[grind =] def fileAt (d : Disk C) (loc : Location) : Option C := (d.item loc).bind Item.content?

end Disk

end Files
