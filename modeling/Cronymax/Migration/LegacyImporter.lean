import Cronymax.Authority.State

/-! The one-shot import of the run states that an older runtime left in the workspaces into the snapshot of
the runtime.  Any file operation may fail; a failure that the code does not look at is a value like any
other. -/

namespace Cronymax.Migration

open Authority (Value)
open Additions (has set add addAll)

/-- A name by its bytes. -/
abbrev FileName := List UInt8

abbrev JsonText := Option Value

/-- The directory of a run, with what `state.json` parses to. -/
structure RunDir where
  name : FileName
  isDirectory : Bool
  /-- The `state.json`, if there is one. -/
  state : Option JsonText

/-- The directory of a flow. -/
structure FlowDir where
  name : FileName
  isDirectory : Bool
  runs : Option (List RunDir)

structure ImportSpaceInfo where
  spaceId : String
  spaceName : String
  workspaceRoot : Option (Option (List FlowDir))

/-- An operation on the file system that can fail. -/
inductive Operation where
  | existsSnapshot
  | openSnapshot
  | existsFlows (space : Nat)
  | listFlows (space : Nat)
  | existsRuns (space : Nat) (flow : FileName)
  | listRuns (space : Nat) (flow : FileName)
  | existsState (space : Nat) (flow run : FileName)
  | openState (space : Nat) (flow run : FileName)
  | openTmp
  | writeTmp
  | flushTmp
  | renameTmp
  | openMarker
deriving DecidableEq

/-- The file `runtime-state.json`. -/
inductive SnapshotFile where
  | absent
  | unparseable
  | holds (snapshot : Value)

/-- `MapLegacyStatus`. -/
def mapLegacyStatus (legacy : String) : String :=
  if legacy = "RUNNING" then "paused"
  else if legacy = "PAUSED" then "paused"
  else if legacy = "COMPLETED" then "succeeded"
  else if legacy = "CANCELLED" then "cancelled"
  else if legacy = "FAILED" then "failed"
  else "pending"

def str (v : Value) (key : String) : String := ((v.get key).bind Value.asStr).getD ""

/-- `ParseLegacyRun`. -/
def parseLegacyRun (spaceId : String) (v : Value) : List (String × Value) :=
  let status := mapLegacyStatus (str v "status")
  [("id", .string ""),
    ("space_id", .string spaceId),
    ("agent_id", .null),
    ("spec", .object
      [("kind", .string "legacy_import"),
        ("flow_id", .string (str v "flow_id")),
        ("legacy_run_id", .string (str v "run_id")),
        ("initial_input", .string (str v "initial_input"))]),
    ("history", .array []),
    ("status", .object (("status", .string status) ::
      if status = "failed" then [("message", .string (str v "failure_reason"))] else []))]

/-- The hash of a name. -/
def djb2 (name : FileName) : UInt64 :=
  name.foldl (fun h c => ((h <<< 5) + h) ^^^ c.toUInt64) 5381

def hexDigits : Nat → Nat → String
  | 0, _ => ""
  | digits + 1, n => hexDigits digits (n / 16) ++ String.singleton (Nat.digitChar (n % 16))

/-- The id of a run: it hashes the two names. -/
def runUuid (flowId runDir : FileName) : String :=
  let h1 := djb2 flowId
  let h2 := djb2 runDir
  hexDigits 8 (h1 >>> 32).toNat ++ "-" ++
    hexDigits 4 ((h1 >>> 16) &&& 0xffff).toNat ++ "-4" ++
    hexDigits 3 (h2 &&& 0x0fff).toNat ++ "-" ++
    hexDigits 4 (((h2 >>> 48) &&& 0x3fff) ||| 0x8000).toNat ++ "-" ++
    hexDigits 12 (h2 &&& 0x0000ffffffffffff).toNat

/-- A run that has been found. -/
structure LegacyRun where
  index : Nat
  space : ImportSpaceInfo
  flowId : FileName
  runDir : FileName
  state : JsonText

namespace LegacyRun

variable (run : LegacyRun)

def uuid : String := runUuid run.flowId run.runDir

/-- The entry of a run. -/
def entry (now : Int) (v : Value) : Value :=
  let fields := set "id" (.string run.uuid) (parseLegacyRun run.space.spaceId v)
  .object (add (add fields ("created_at_ms", .number (toString now)))
    ("updated_at_ms", .number (toString now)))

def object : Option Value :=
  match run.state with
  | some (.object fields) => some (.object fields)
  | _ => none

end LegacyRun

section scan

variable (fails : Operation → Bool)

/-- The loop over the directories of runs. -/
def scanRun (index : Nat) (space : ImportSpaceInfo) (flow : FlowDir) (run : RunDir) : List LegacyRun :=
  if run.isDirectory then
    match run.state with
    | none => []
    | some state =>
      if fails (.existsState index flow.name run.name) then []
      else [⟨index, space, flow.name, run.name, state⟩]
  else []

def scanFlow (index : Nat) (space : ImportSpaceInfo) (flow : FlowDir) : List LegacyRun :=
  if flow.isDirectory then
    match flow.runs with
    | none => []
    | some runs =>
      if fails (.existsRuns index flow.name) ∨ fails (.listRuns index flow.name) then []
      else runs.flatMap (scanRun fails index space flow)
  else []

def scanSpace (index : Nat) (space : ImportSpaceInfo) : List LegacyRun :=
  if space.spaceId = "" then []
  else
    match space.workspaceRoot with
    | none => []
    | some none => []
    | some (some flows) =>
      if fails (.existsFlows index) ∨ fails (.listFlows index) then []
      else flows.flatMap (scanFlow fails index space)

def scanFrom (index : Nat) : List ImportSpaceInfo → List LegacyRun
  | [] => []
  | space :: spaces => scanSpace fails index space ++ scanFrom (index + 1) spaces

/-- The runs of all spaces. -/
def scan (spaces : List ImportSpaceInfo) : List LegacyRun := scanFrom fails 0 spaces

/-- The state of a run, if it can be read. -/
def readState (run : LegacyRun) : Option Value :=
  if fails (.openState run.index run.flowId run.runDir) then none else run.object

end scan

/-- `ImportResult`. -/
structure ImportResult where
  spacesSeeded : Nat
  runsImported : Nat
  runsSkipped : Nat
  parseErrors : Nat
deriving DecidableEq

/-- A member is inserted: `none` where the source throws. -/
def insert (member : Value) (key : String) (x : Value) : Option Value :=
  match member with
  | .object fields => some (.object (fields ++ [(key, x)]))
  | .null => some (.object [(key, x)])
  | _ => none

def contains (member : Value) (key : String) : Bool := (member.get key).isSome

/-- A space comes to the snapshot, unless it is there. -/
def seedSpace (s : Value × ImportResult) (space : ImportSpaceInfo) : Option (Value × ImportResult) :=
  if space.spaceId = "" then some s
  else if contains s.1 space.spaceId then some s
  else
    (insert s.1 space.spaceId
      (.object [("id", .string space.spaceId), ("name", .string space.spaceName)])).map fun member =>
        (member, { s.2 with spacesSeeded := s.2.spacesSeeded + 1 })

/-- A run comes to the snapshot, unless it is there. -/
def importRun (fails : Operation → Bool) (now : Int) (s : Value × ImportResult) (run : LegacyRun) :
    Option (Value × ImportResult) :=
  if contains s.1 run.uuid then some (s.1, { s.2 with runsSkipped := s.2.runsSkipped + 1 })
  else
    match readState fails run with
    | none => some (s.1, { s.2 with parseErrors := s.2.parseErrors + 1 })
    | some v =>
      (insert s.1 run.uuid (run.entry now v)).map fun member =>
        (member, { s.2 with runsImported := s.2.runsImported + 1 })

def kSchemaVersion : Value := .number "1"

/-- `LoadSnapshot`. -/
def loadSnapshot (fails : Operation → Bool) : SnapshotFile → Value
  | .absent => .object []
  | .unparseable => .object []
  | .holds snapshot =>
    if fails .existsSnapshot ∨ fails .openSnapshot then .object [] else snapshot

def fieldsOf : Value → List (String × Value)
  | .object fields => fields
  | _ => []

def defaults : List (String × Value) :=
  [("schema_version", kSchemaVersion), ("spaces", .object []), ("agents", .object []),
    ("runs", .object []), ("memory", .object []), ("reviews", .object [])]

def member (fields : List (String × Value)) (key : String) : Value := (fields.lookup key).getD .null

/-- `SaveSnapshot`. -/
def saveSnapshot (fails : Operation → Bool) (snapshot : Value) (file : SnapshotFile) :
    SnapshotFile × Bool :=
  if fails .openTmp ∨ fails .writeTmp ∨ fails .renameTmp then (file, false)
  else if fails .flushTmp then (.unparseable, false)
  else (.holds snapshot, true)

/-- What a call leaves and reports. -/
structure Outcome where
  file : SnapshotFile
  saved : Bool
  marker : Bool
  result : ImportResult

/-- `Run`, unless the process ends in it. -/
def run (fails : Operation → Bool) (now : Int) (file : SnapshotFile) (spaces : List ImportSpaceInfo) :
    Option Outcome :=
  let fields := addAll (fieldsOf (loadSnapshot fails file)) defaults
  (spaces.foldlM seedSpace (member fields "spaces", ⟨0, 0, 0, 0⟩)).bind fun seeded =>
    ((scan fails spaces).foldlM (importRun fails now) (member fields "runs", seeded.2)).map fun imported =>
      let snapshot := Value.object (set "runs" imported.1 (set "spaces" seeded.1 fields))
      { file := (saveSnapshot fails snapshot file).1
        saved := (saveSnapshot fails snapshot file).2
        marker := !fails .openMarker
        result := imported.2 }

end Cronymax.Migration
