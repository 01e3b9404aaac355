import Cronymax.Atomic.History
import Cronymax.Paths.Lexical
import Mathlib.Data.Set.Insert
import Mathlib.Logic.Function.Basic

/-! The memory of agents: a store for each namespace, which is loaded when it is first used and is
written back as a whole after every write, and the manager that caches the stores.  The process may
die at any step, and the host may fail any. -/

namespace Cronymax.Memory

open Paths (Name)

abbrev FilePath := Paths.Path Char

structure MemoryEntry where
  key : String
  value : String
  updatedAtMs : Int
deriving DecidableEq

abbrev Entries := String → Option MemoryEntry

abbrev NamespaceId := List Char

/-- What a file holds, if it parses. -/
inductive FileText where
  | holds (entries : Entries)
  | malformed

abbrev Disk := FilePath → Option FileText

def memoryName : Name Char := ⟨"memory".toList, by decide, by decide, by decide, by decide⟩

def entriesName : Name Char := ⟨"entries.json".toList, by decide, by decide, by decide, by decide⟩

section Manager

variable (appData : FilePath)

def memoryDir : FilePath := appData.join ⟨.bare, [.normal memoryName]⟩

/-- The file of a namespace: its id is a path. -/
def entriesPath (ns : NamespaceId) : FilePath :=
  ((memoryDir appData).join (Paths.Path.parse ns)).join ⟨.bare, [.normal entriesName]⟩

/-- Where the file lies. -/
def location (ns : NamespaceId) : FilePath := (entriesPath appData ns).normalize

inductive LoadEnd where
  | answers
  | fails
deriving DecidableEq

/-- `load`: a file that cannot be read counts as empty. -/
def load (disk : Disk) (ns : NamespaceId) : LoadEnd → Entries
  | .fails => fun _ => none
  | .answers =>
    match disk (location appData ns) with
    | some (.holds entries) => entries
    | some .malformed => fun _ => none
    | none => fun _ => none

inductive FlushStep where
  | createDir
  | openFile
  | writeText
deriving DecidableEq

/-- How far a flush comes. -/
inductive Fate where
  | completes
  | failsAt (s : FlushStep)
  | diesAt (s : FlushStep)
  /-- The process dies before the call returns. -/
  | diesAfter
deriving DecidableEq

/-- What a caller of `write` learns. -/
inductive Outcome where
  | ok
  | err
  | died
deriving DecidableEq

/-- `flush`. -/
def flush (disk : Disk) (loc : FilePath) (entries : Entries) : Fate → Disk × Outcome
  | .completes => (Function.update disk loc (some (.holds entries)), .ok)
  | .failsAt .writeText => (Function.update disk loc (some .malformed), .err)
  | .failsAt _ => (disk, .err)
  | .diesAt .writeText => (Function.update disk loc (some .malformed), .died)
  | .diesAt _ => (disk, .died)
  | .diesAfter => (Function.update disk loc (some (.holds entries)), .died)

/-- The files, and the stores in the cache. -/
structure World where
  disk : Disk
  cache : NamespaceId → Option Entries

/-- The cache is lost. -/
def World.restart (w : World) : World := { w with cache := fun _ => none }

/-- `get_or_load`. -/
def getOrLoad (w : World) (ns : NamespaceId) (loaded : LoadEnd) : Entries :=
  match w.cache ns with
  | some entries => entries
  | none => load appData w.disk ns loaded

def World.keep (w : World) (ns : NamespaceId) (entries : Entries) : World :=
  { w with cache := Function.update w.cache ns (some entries) }

/-- `read`. -/
def MemoryManager.read (w : World) (ns : NamespaceId) (key : String) (loaded : LoadEnd) :
    World × Option MemoryEntry :=
  let entries := getOrLoad appData w ns loaded
  (w.keep ns entries, entries key)

/-- `write`: the cache first, then the file. -/
def MemoryManager.write (w : World) (ns : NamespaceId) (key value : String) (nowMs : Int) (loaded : LoadEnd)
    (fate : Fate) : World × Outcome :=
  let entries := Function.update (getOrLoad appData w ns loaded) key (some ⟨key, value, nowMs⟩)
  let flushed := flush w.disk (location appData ns) entries fate
  let written := { w with disk := flushed.1 }
  (if flushed.2 = .died then written.restart else written.keep ns entries, flushed.2)

/-- A call of the manager, or the death of the process. -/
inductive Op where
  | read (ns : NamespaceId) (key : String) (loaded : LoadEnd)
  | write (ns : NamespaceId) (key value : String) (nowMs : Int) (loaded : LoadEnd) (fate : Fate)
  | restart

def Op.namespace? : Op → Option NamespaceId
  | .read ns _ _ => some ns
  | .write ns _ _ _ _ _ => some ns
  | .restart => none

def Op.next (w : World) : Op → World
  | .read ns key loaded => (MemoryManager.read appData w ns key loaded).1
  | .write ns key value nowMs loaded fate => (MemoryManager.write appData w ns key value nowMs loaded fate).1
  | .restart => w.restart

def Op.dies (w : World) : Op → Bool
  | .read _ _ _ => false
  | .write ns key value nowMs loaded fate =>
    (MemoryManager.write appData w ns key value nowMs loaded fate).2 = .died
  | .restart => true

def used (ops : List Op) : List NamespaceId := ops.filterMap Op.namespace?

/-- What a read would answer. -/
def live (w : World) (ns : NamespaceId) (key : String) : Option String :=
  (getOrLoad appData w ns .answers key).map MemoryEntry.value

/-- What a read would answer after a restart. -/
def kept (w : World) (ns : NamespaceId) (key : String) : Option String :=
  live appData w.restart ns key

/-- What each key may hold. -/
abbrev Ledger := NamespaceId → String → Set (Option String)

/-- A write enters its value; one that failed leaves the former one possible. -/
def Op.enter (w : World) (ledger : Ledger) : Op → Ledger
  | .write ns key value nowMs loaded fate =>
    match (MemoryManager.write appData w ns key value nowMs loaded fate).2 with
    | .ok => Function.update ledger ns (Function.update (ledger ns) key {some value})
    | .err => ledger
    | .died => Function.update ledger ns (Function.update (ledger ns) key
        (insert (some value) (ledger ns key)))
  | _ => ledger

/-- The world with its ledger. -/
structure Session where
  world : World
  ledger : Ledger

def Session.next (t : Session) (op : Op) : Session where
  world := op.next appData t.world
  ledger := op.enter appData t.world t.ledger

def Session.start (disk : Disk) : Session where
  world := ⟨disk, fun _ => none⟩
  ledger := fun ns key => {kept appData ⟨disk, fun _ => none⟩ ns key}

variable (ids : List NamespaceId)

/-- Whatever is read, now or after a restart, is in the ledger. -/
def Sound (t : Session) : Prop :=
  ∀ ns ∈ ids, ∀ key, live appData t.world ns key ∈ t.ledger ns key ∧
    kept appData t.world ns key ∈ t.ledger ns key

/-- The call changes no other namespace than its own. -/
def Frames (w : World) (op : Op) : Prop :=
  ∀ ns ∈ ids, op.namespace? ≠ some ns → ∀ key,
    kept appData (op.next appData w) ns key = kept appData w ns key ∧
      (op.dies appData w = false →
        live appData (op.next appData w) ns key = live appData w ns key)

/-- The namespace has a file of its own. -/
def Own (ns : NamespaceId) : Prop :=
  (∃ name : Name Char, (entriesPath appData ns).components =
      (memoryDir appData).components ++ [.normal name, .normal entriesName]) ∧
    ∀ ns' ∈ ids, entriesPath appData ns' = entriesPath appData ns → ns' = ns

/-- The property of a run. -/
def Survives (disk : Disk) (ops : List Op) : Prop :=
  (∀ ns ∈ used ops, Own appData (used ops) ns) ∧
    Atomic.History.Each (Session.next appData)
      (fun t op => Sound appData (used ops) (t.next appData op) ∧
        Frames appData (used ops) t.world op) (Session.start appData disk) ops

end Manager

end Cronymax.Memory
