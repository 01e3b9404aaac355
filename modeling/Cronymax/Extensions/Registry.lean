import Cronymax.Atomic.Program
import Cronymax.Extensions.Manifest
import Cronymax.Files.Disk
import Mathlib.Data.List.AList

/-! The registry of installed extensions.  Each extension lies in a directory that is named by its id
under the root of the registry, and `registry.json` keeps what the user has enabled.  An operation runs
alone; any of its file operations may fail. -/

namespace Cronymax.Extensions

open Atomic Files

inductive DisabledReason where
  | crash
deriving DecidableEq

structure PersistedEntry where
  enabled : Bool
  installedAt : Nat
  disabledReason : Option DisabledReason

structure PersistedRegistry where
  version : Nat
  extensions : AList fun _ : String => PersistedEntry

/-- What the text of a file parses to. -/
inductive Content where
  | manifest (m : Manifest)
  | registry (p : PersistedRegistry)
  | other

structure RegistryEntry where
  manifest : Manifest
  extDir : Path
  enabled : Bool
  disabledReason : Option DisabledReason
  installedAt : Nat

/-- The registry with the disk, its faults and the clock. -/
structure ExtensionRegistry where
  root : Location
  down : ".." ∉ root
  entries : AList fun _ : String => RegistryEntry
  disk : Disk Content
  faults : List Bool
  clock : List Nat

/-- A name that is one component of a path. -/
structure FileName where
  name : String
  plain : name ≠ ".." ∧ name ≠ "." ∧ name ≠ "" ∧ '/' ∉ name.toList

def manifestFilename : String := "cronymax-extension.json"

def registryFilename : String := "registry.json"

def registryTmp : String := "registry.json.tmp"

def registryVersion : Nat := 1

/-- The components of a path. -/
def components (path : String) : Path :=
  ((path.toList.splitOn '/').map String.ofList).filter fun c => c ≠ "" ∧ c ≠ "."

/-- `Path::join`: an absolute path replaces the one it is joined to. -/
def join (root : Path) (path : String) : Path :=
  if path.toList.head? = some '/' then components path else root ++ components path

/-- An access to the disk, or an edit of the entries. -/
inductive Act where
  | look
  | now
  | read
  | mkdir (loc : Location)
  | write (path : Path) (content : Content)
  | rename (source target : Path)
  | removeDirAll (path : Path)
  | insert (id : String) (entry : RegistryEntry)
  | erase (id : String)
  | replace (entries : AList fun _ : String => RegistryEntry)

namespace ExtensionRegistry

variable (s : ExtensionRegistry)

def fault : Bool := s.faults.headD false

def nowSeconds : Nat := s.clock.headD 0

/-- An access that fails changes nothing. -/
def onDisk (f : Disk Content → Disk Content) : ExtensionRegistry :=
  { s with disk := if s.fault then s.disk else f s.disk, faults := s.faults.tail }

end ExtensionRegistry

def writeAt (path : Path) (content : Content) (d : Disk Content) : Disk Content :=
  match d.resolve [] path with
  | some loc => d.write loc content
  | none => d

def removeAt (path : Path) (d : Disk Content) : Disk Content :=
  match d.resolve [] path with
  | some loc => d.remove loc
  | none => d

def movable (source target : Path) (d : Disk Content) : Option (Location × Location × Content) :=
  match d.resolve [] source, d.resolve [] target with
  | some loc, some loc' =>
    match d.item loc with
    | some (.file content) => if d.isDir loc' then none else some (loc, loc', content)
    | _ => none
  | _, _ => none

def renameAt (source target : Path) (d : Disk Content) : Disk Content :=
  match movable source target d with
  | some (loc, loc', content) => (d.remove loc).write loc' content
  | none => d

/-- What an access does. -/
def Act.apply : Act → ExtensionRegistry → ExtensionRegistry
  | .look, s => s
  | .now, s => { s with clock := s.clock.tail }
  | .read, s => { s with faults := s.faults.tail }
  | .mkdir loc, s => s.onDisk (·.mkdir loc)
  | .write path content, s => s.onDisk (writeAt path content)
  | .rename source target, s => s.onDisk (renameAt source target)
  | .removeDirAll path, s => s.onDisk (removeAt path)
  | .insert id entry, s => { s with entries := s.entries.insert id entry }
  | .erase id, s => { s with entries := s.entries.erase id }
  | .replace entries, s => { s with entries }

instance : Acts Act ExtensionRegistry := ⟨Act.apply⟩

abbrev Op (α : Type) := Prog Act ExtensionRegistry ExtensionError α

/-- `create_dir_all`, one directory after the other. -/
def createDirAll : Location → Path → Op Unit
  | _, [] => pure ()
  | loc, name :: path => do
    let s ← Prog.perform (.mkdir (goTo loc name))
    match s.disk.item (goTo loc name) with
    | some .dir => createDirAll (goTo loc name) path
    | some (.file _) => .fail .io
    | none => if s.fault then .fail .io else createDirAll (goTo loc name) path

/-- `fs::write`. -/
def writeFile (path : Path) (content : Content) : Op Unit := do
  let s ← Prog.perform (.write path content)
  match s.disk.resolve [] path with
  | some loc => if s.fault ∨ s.disk.isDir loc then .fail .io else pure ()
  | none => .fail .io

def rename (source target : Path) : Op Unit := do
  let s ← Prog.perform (.rename source target)
  if s.fault ∨ (movable source target s.disk).isNone then .fail .io else pure ()

def removeDirAll (path : Path) : Op Unit := do
  let s ← Prog.perform (.removeDirAll path)
  if s.fault ∨ (s.disk.resolve [] path).isNone then .fail .io else pure ()

/-- What `WalkDir` yields below a source directory. -/
structure SourceItem where
  rel : List FileName
  item : Item Content

def SourceItem.path (i : SourceItem) : Path := i.rel.map (·.name)

structure Source where
  manifest : Except ExtensionError Manifest
  walk : List (Option SourceItem)

def copyItem (dest : Path) (i : SourceItem) : Op Unit :=
  if i.path = [] then pure ()
  else match i.item with
    | .dir => createDirAll [] (dest ++ i.path)
    | .file content => do
      createDirAll [] (dest ++ i.path).dropLast
      writeFile (dest ++ i.path) content

def copyItems (dest : Path) : List (Option SourceItem) → Op Unit
  | [] => pure ()
  | none :: _ => .fail .io
  | some i :: rest => do
    copyItem dest i
    copyItems dest rest

/-- `copy_dir_recursive`: what is copied before a failure stays. -/
def copyDirRecursive (source : Source) (dest : Path) : Op Unit := do
  createDirAll [] dest
  copyItems dest source.walk

/-- What `registry.json` keeps of the entries. -/
def persisted (entries : AList fun _ : String => RegistryEntry) : PersistedRegistry where
  version := registryVersion
  extensions := (entries.entries.map fun e =>
    ⟨e.1, ⟨e.2.enabled, e.2.installedAt, e.2.disabledReason⟩⟩ :
      List (Sigma fun _ : String => PersistedEntry)).toAList

/-- `save`: by way of a temporary file. -/
def save : Op Unit := do
  let s ← Prog.perform .look
  createDirAll [] s.root
  writeFile (s.root ++ [registryTmp]) (.registry (persisted s.entries))
  rename (s.root ++ [registryTmp]) (s.root ++ [registryFilename])

/-- `load_persisted`. -/
def loadPersisted : Op PersistedRegistry := do
  let s ← Prog.perform .read
  if !s.disk.has (s.root ++ [registryFilename]) then pure ⟨registryVersion, ∅⟩
  else match s.disk.item (s.root ++ [registryFilename]) with
    | some (.file (.registry p)) =>
      if s.fault then .fail .io
      else if p.version ≠ registryVersion then .fail (.manifestInvalid
        ("registry.json version " ++ toString p.version ++ " is not understood (expected 1)"))
      else pure p
    | _ => .fail .io

/-- The manifest in a directory of the root. -/
def found (name : FileName) (s : ExtensionRegistry) : Option Manifest :=
  if s.disk.isDir (s.root ++ [name.name]) then
    match s.disk.item (s.root ++ [name.name, manifestFilename]) with
    | some (.file (.manifest m)) => if s.fault then none else
      match m.validate with
      | .ok () => some m
      | .error _ => none
    | _ => none
  else none

def entryOf (m : Manifest) (dir : Path) (now : Nat) : Option PersistedEntry → RegistryEntry
  | some p => ⟨m, dir, p.enabled, p.disabledReason, p.installedAt⟩
  | none => ⟨m, dir, true, none, now⟩

/-- The loop of `refresh` over the directories. -/
def adopt (p : PersistedRegistry) : List FileName → (AList fun _ : String => RegistryEntry) →
    Op (AList fun _ : String => RegistryEntry)
  | [], entries => pure entries
  | name :: rest, entries => do
    let s ← Prog.perform .read
    match found name s with
    | none => adopt p rest entries
    | some m => do
      let t ← Prog.perform .now
      adopt p rest (entries.insert m.id
        (entryOf m (s.root ++ [name.name]) t.nowSeconds (p.extensions.lookup m.id)))

/-- `refresh`, where `listing` is what `read_dir` yields. -/
def refresh (listing : List FileName) : Op Unit := do
  let s ← Prog.perform .look
  if !s.disk.has s.root then createDirAll [] s.root
  let p ← loadPersisted
  let entries ← adopt p listing ∅
  let _ ← Prog.perform (.replace entries)
  save

/-- `install` of a manifest that is valid. -/
def installValid (m : Manifest) (source : Source) : Op String := do
  let s ← Prog.perform .look
  match s.entries.lookup m.id with
  | some existing => .fail (.alreadyInstalled m.id existing.manifest.version)
  | none =>
    let dest := join s.root m.id
    if s.disk.has dest then .fail (.alreadyInstalled m.id m.version)
    else do
      createDirAll [] s.root
      copyDirRecursive source dest
      let t ← Prog.perform .now
      let _ ← Prog.perform (.insert m.id ⟨m, dest, true, none, t.nowSeconds⟩)
      match ← save.attempt with
      | .ok () => pure m.id
      | .error e => do
        -- the copy is rolled back when the registry cannot be written
        let _ ← (removeDirAll dest).attempt
        let _ ← Prog.perform (.erase m.id)
        .fail e

/-- `install`. -/
def install (source : Source) : Op String :=
  match source.manifest with
  | .error e => .fail e
  | .ok m =>
    match m.validate with
    | .error e => .fail e
    | .ok () => installValid m source

structure EnclosedPath where
  path : Path
  inside : ∀ dir, ∀ l ∈ trail dir path, dir <+: l

/-- An entry of an archive, with the path that the archive reader makes of its name. -/
structure ArchiveEntry where
  name : String
  enclosedName : Option EnclosedPath
  isDir : Bool
  content : Content

structure Archive where
  isFile : Bool
  opens : Bool
  entries : List ArchiveEntry
  located : Except ExtensionError Source

/-- One turn of the loop over the archive. -/
def unpackEntry (dest : Path) (e : ArchiveEntry) : Op Unit :=
  match e.enclosedName with
  | none => .fail (.package ("archive entry `" ++ e.name ++ "` has an unsafe path"))
  | some rel =>
    if e.isDir then createDirAll [] (dest ++ rel.path)
    else do
      createDirAll [] (dest ++ rel.path).dropLast
      writeFile (dest ++ rel.path) e.content

def unpackEntries (dest : Path) : List ArchiveEntry → Op Unit
  | [] => pure ()
  | e :: rest => do
    unpackEntry dest e
    unpackEntries dest rest

/-- `unpack_cmx_to_dir`. -/
def unpackCmxToDir (archive : Archive) (dest : Path) : Op Source :=
  if !archive.opens then .fail .io
  else do
    createDirAll [] dest
    unpackEntries dest archive.entries
    match archive.located with
    | .ok source => pure source
    | .error e => .fail e

/-- `TempDir::new_in` with the name that was drawn. -/
def newTempDir (drawn : FileName) : Op Path := do
  let s ← Prog.perform .look
  let dir := s.root ++ [drawn.name]
  let t ← Prog.perform (.mkdir dir)
  if t.fault ∨ ¬t.disk.isDir s.root ∨ (t.disk.item dir).isSome then .fail .io else pure dir

/-- `install_from_path` for an archive. -/
def installArchive (archive : Archive) (drawn : FileName) : Op String :=
  if !archive.isFile then .fail (.package "`.cmx` archive not found")
  else do
    let staging ← newTempDir drawn
    let result ← Prog.attempt do
      let source ← unpackCmxToDir archive staging
      install source
    -- the staging directory goes when it is dropped, however the install ends
    let _ ← (removeDirAll staging).attempt
    match result with
    | .ok id => pure id
    | .error e => .fail e

/-- `uninstall`. -/
def uninstall (id : String) : Op Unit := do
  let s ← Prog.perform .look
  match s.entries.lookup id with
  | none => .fail (.notInstalled id)
  | some entry => do
    let _ ← Prog.perform (.erase id)
    if s.disk.has entry.extDir then removeDirAll entry.extDir
    save

/-- `set_enabled` and `set_disabled_by_crash`: an edit of an entry. -/
def editEntry (id : String) (f : RegistryEntry → RegistryEntry) : Op Unit := do
  let s ← Prog.perform .look
  match s.entries.lookup id with
  | none => .fail (.notInstalled id)
  | some entry => do
    let _ ← Prog.perform (.insert id (f entry))
    save

/-- `set_enabled`. -/
def setEnabled (id : String) (enabled : Bool) : Op Unit :=
  editEntry id fun e =>
    { e with enabled, disabledReason := if enabled then none else e.disabledReason }

def setDisabledByCrash (id : String) : Op Unit :=
  editEntry id fun e => { e with enabled := false, disabledReason := some .crash }

end Cronymax.Extensions
