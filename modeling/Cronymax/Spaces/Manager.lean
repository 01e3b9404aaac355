import Cronymax.Table.Rows

/-! The manager of the spaces: the list of the open spaces with the index of the active one, the table
of spaces on disk, and the callbacks that a switch makes. -/

namespace Cronymax.Spaces

/-- A row of the table of spaces. -/
structure SpaceRow where
  id : String
  name : String
  rootPath : String
  profileId : String
  createdAt : Int
  lastActive : Int
deriving DecidableEq

structure SpaceStore where
  rows : List SpaceRow
  primaryKey : (rows.map (·.id)).Nodup

namespace SpaceStore

variable (store : SpaceStore)

def ids : List String := store.rows.map (·.id)

/-- `INSERT OR IGNORE`. -/
def createSpace (row : SpaceRow) : SpaceStore :=
  if h : row.id ∈ store.ids then store
  else
    ⟨store.rows ++ [row], by
      rw [List.map_append, List.nodup_append_comm]
      exact List.nodup_cons.mpr ⟨h, store.primaryKey⟩⟩

/-- `UpdateLastActive`. -/
def updateLastActive (spaceId : String) (ts : Int) : SpaceStore where
  rows := store.rows.map fun row => if row.id = spaceId then { row with lastActive := ts } else row
  primaryKey := by
    rw [List.map_map]
    convert store.primaryKey using 2
    funext row
    show (if row.id = spaceId then { row with lastActive := ts } else row).id = row.id
    split <;> rfl

/-- `DeleteSpace` of the store. -/
def deleteSpace (spaceId : String) : SpaceStore where
  rows := store.rows.filter (·.id ≠ spaceId)
  primaryKey := store.primaryKey.sublist (List.filter_sublist.map _)

variable {store} in
theorem ids_createSpace {row : SpaceRow} (hNew : row.id ∉ store.ids) :
    (store.createSpace row).ids = store.ids ++ [row.id] := by
  unfold createSpace
  rw [dif_neg hNew]
  exact List.map_append

variable {store} in
theorem ids_createSpace_known {row : SpaceRow} (hKnown : row.id ∈ store.ids) :
    (store.createSpace row).ids = store.ids := by
  unfold createSpace
  rw [dif_pos hKnown]

@[simp] theorem ids_updateLastActive (spaceId : String) (ts : Int) :
    (store.updateLastActive spaceId ts).ids = store.ids := by
  show (store.rows.map _).map _ = _
  rw [List.map_map]
  refine List.map_congr_left fun row _ => ?_
  show (if row.id = spaceId then { row with lastActive := ts } else row).id = row.id
  split <;> rfl

theorem ids_deleteSpace (spaceId : String) :
    (store.deleteSpace spaceId).ids = store.ids.filter (· ≠ spaceId) := by
  unfold ids deleteSpace
  rw [List.filter_map]
  rfl

end SpaceStore

structure ProfileRecord where
  id : String
  name : String
  memoryId : String
  allowNetwork : Bool
  extraReadPaths : List String
  extraWritePaths : List String
  extraDenyPaths : List String
deriving DecidableEq

structure Space where
  id : String
  name : String
  profileId : String
  workspaceRoot : String
deriving DecidableEq

def instantiateSpace (row : SpaceRow) : Space := ⟨row.id, row.name, row.profileId, row.rootPath⟩

/-- The manager: the store, the spaces in memory and the active one. -/
structure SpaceManager where
  store : SpaceStore
  profileStore : String → Option ProfileRecord
  spaces : List Space
  activeIndex : Int
  switchCallback : Bool
  runtimeRestartCallback : Bool
  announced : List (String × String)
  restarted : List (String × ProfileRecord)
  switched : List String

namespace SpaceManager

variable (s : SpaceManager)

/-- `ActiveSpace`. -/
def activeSpace : Option Space :=
  if s.activeIndex < 0 ∨ (s.spaces.length : Int) ≤ s.activeIndex then none
  else s.spaces[s.activeIndex.toNat]?

def indexOf (spaceId : String) : Option Nat := s.spaces.findIdx? (·.id == spaceId)

def fallbackProfile : ProfileRecord := ⟨"default", "Default", "default", true, [], [], []⟩

/-- The profile of a space, or the default one. -/
def profileOf (sp : Space) : ProfileRecord :=
  match s.profileStore sp.profileId with
  | some profile => profile
  | none => (s.profileStore "default").getD fallbackProfile

def activeId : String :=
  if 0 ≤ s.activeIndex then ((s.spaces[s.activeIndex.toNat]?).map (·.id)).getD "" else ""

/-- A space becomes the active one. -/
def enter (i : Nat) (sp : Space) (now : Int) : SpaceManager :=
  { s with
    activeIndex := i
    store := s.store.updateLastActive sp.id now
    restarted :=
      if s.runtimeRestartCallback then s.restarted ++ [(sp.workspaceRoot, s.profileOf sp)]
      else s.restarted
    announced := if s.switchCallback then s.announced ++ [(s.activeId, sp.id)] else s.announced
    switched := s.switched ++ [sp.id] }

/-- No manager where the source returns `false`. -/
def switchTo (spaceId : String) (now : Int) : Option SpaceManager :=
  (s.indexOf spaceId).bind fun i => (s.spaces[i]?).map fun sp => s.enter i sp now

/-- The first space is entered. -/
def enterFirst (now : Int) : SpaceManager :=
  match s.spaces with
  | [] => s
  | sp :: _ => (s.switchTo sp.id now).getD s

/-- `Init`. -/
def init (store : SpaceStore) (profileStore : String → Option ProfileRecord)
    (switchCallback runtimeRestartCallback : Bool) (now : Int) : SpaceManager :=
  enterFirst
    { store
      profileStore
      spaces := store.rows.map instantiateSpace
      activeIndex := -1
      switchCallback
      runtimeRestartCallback
      announced := []
      restarted := []
      switched := [] }
    now

def newRow (id name rootPath profileId : String) (createdAt lastActive : Int) : SpaceRow where
  id := id
  name := name
  rootPath := rootPath
  profileId := if profileId = "" then "default" else profileId
  createdAt := createdAt
  lastActive := lastActive

/-- A space is stored and kept. -/
def add (row : SpaceRow) : SpaceManager :=
  { s with store := s.store.createSpace row, spaces := s.spaces ++ [instantiateSpace row] }

def addOrEnter (row : SpaceRow) (now : Int) : SpaceManager :=
  if (s.add row).activeIndex < 0 then ((s.add row).switchTo row.id now).getD (s.add row)
  else s.add row

/-- `CreateSpace`. -/
def createSpace (isDirectory : Bool) (id name rootPath profileId : String)
    (createdAt lastActive now : Int) : SpaceManager × String :=
  if isDirectory then
    (s.addOrEnter (newRow id name rootPath profileId createdAt lastActive) now, id)
  else (s, "")

/-- Where the active index goes before a space is removed. -/
def nextIndex (idx : Nat) : Nat := if idx + 1 < s.spaces.length then idx + 1 else idx - 1

/-- The active space is left before it goes. -/
def leave (idx : Nat) (now : Int) : SpaceManager :=
  if (idx : Int) = s.activeIndex ∧ 1 < s.spaces.length then
    ((s.spaces[s.nextIndex idx]?).bind fun sp => s.switchTo sp.id now).getD s
  else s

/-- A space goes. -/
def removeAt (spaceId : String) (idx : Nat) : SpaceManager :=
  let spaces := s.spaces.eraseIdx idx
  { s with
    store := s.store.deleteSpace spaceId
    spaces
    activeIndex :=
      if spaces = [] then -1
      else if (spaces.length : Int) ≤ s.activeIndex then (spaces.length : Int) - 1
      else s.activeIndex }

/-- No manager where the source returns `false`. -/
def deleteSpace (spaceId : String) (now : Int) : Option SpaceManager :=
  (s.indexOf spaceId).map fun idx => (s.leave idx now).removeAt spaceId idx

end SpaceManager

inductive Call where
  | createSpace (isDirectory : Bool) (id name rootPath profileId : String)
      (createdAt lastActive now : Int)
  | switchTo (spaceId : String) (now : Int)
  | deleteSpace (spaceId : String) (now : Int)
  | setSwitchCallback
  | setRuntimeRestartCallback
deriving DecidableEq

def step (s : SpaceManager) : Call → SpaceManager
  | .createSpace isDirectory id name rootPath profileId createdAt lastActive now =>
    (s.createSpace isDirectory id name rootPath profileId createdAt lastActive now).1
  | .switchTo spaceId now => (s.switchTo spaceId now).getD s
  | .deleteSpace spaceId now => (s.deleteSpace spaceId now).getD s
  | .setSwitchCallback => { s with switchCallback := true }
  | .setRuntimeRestartCallback => { s with runtimeRestartCallback := true }

end Cronymax.Spaces
