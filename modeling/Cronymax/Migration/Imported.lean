import Cronymax.Migration.LegacyImporter
import Mathlib.Data.List.Nodup

/-! What the import leaves when it leaves its marker.  A section of the snapshot takes the entries that it
misses, each under its key; what follows for the runs and for the former file is read off the two sections. -/

namespace Cronymax.Migration

open Authority (Value)
open Additions (has set add addAll lookup_set lookup_add lookup_addAll)

/-- Takes no entries. -/
def Closed : Value → Prop
  | .object _ => False
  | .null => False
  | _ => True

/-- A member with the additions. -/
def grown (member : Value) (additions : List (String × Value)) : Option Value :=
  match member with
  | .object fields => some (.object (addAll fields additions))
  | .null => some (if additions = [] then .null else .object (addAll [] additions))
  | other => if additions = [] then some other else none

theorem grown_nil (m : Value) : grown m [] = some m := by
  cases m <;> rfl

theorem grown_one (m : Value) (key : String) (x : Value) :
    grown m [(key, x)] = if contains m key then some m else insert m key x := by
  cases m with
  | object fields =>
    show some (Value.object (add fields (key, x))) = _
    unfold add
    show _ = if has fields key then _ else _
    split <;> rfl
  | null | bool | number | string | array => rfl

theorem grown_append (m : Value) (a b : List (String × Value)) :
    grown m (a ++ b) = (grown m a).bind (grown · b) := by
  cases a with
  | nil => rw [List.nil_append, grown_nil, Option.bind_some]
  | cons f rest =>
    cases m with
    | object fields => exact congrArg (fun l => some (Value.object l)) List.foldl_append
    | null => exact congrArg (fun l => some (Value.object l)) List.foldl_append
    | bool | number | string | array => rfl

theorem get_grown {m m' : Value} {additions : List (String × Value)} (h : grown m additions = some m')
    (key : String) : m'.get key = (m.get key).or (additions.lookup key) := by
  cases m with
  | object fields =>
    cases h
    exact lookup_addAll additions
  | null =>
    cases h
    split
    · rename_i hNone
      rw [hNone]
      rfl
    · exact lookup_addAll additions
  | bool | number | string | array =>
    obtain ⟨hNone, hSame⟩ := Option.ite_none_right_eq_some.mp h
    cases hSame
    rw [hNone]
    rfl

theorem grown_eq_none {m : Value} {additions : List (String × Value)} :
    grown m additions = none ↔ Closed m ∧ additions ≠ [] := by
  cases m with
  | object fields => exact iff_of_false (fun h => by cases h) fun h => h.1
  | null => exact iff_of_false (fun h => by cases h) fun h => h.1
  | bool | number | string | array =>
    show (if additions = [] then _ else none) = none ↔ True ∧ _
    rw [true_and]
    split
    · rename_i hNone
      exact iff_of_false (fun h => by cases h) fun h => h hNone
    · rename_i hSome
      exact iff_of_true rfl hSome

theorem fold_grown {α R : Type*} {step : Value × R → α → Option (Value × R)}
    {adds : α → List (String × Value)} (hStep : ∀ s a, (step s a).map Prod.fst = grown s.1 (adds a))
    (l : List α) (s : Value × R) : (l.foldlM step s).map Prod.fst = grown s.1 (l.flatMap adds) := by
  induction l generalizing s with
  | nil => exact (grown_nil s.1).symm
  | cons a l ih =>
    have hFirst := hStep s a
    rw [List.foldlM_cons, List.flatMap_cons, grown_append, ← hFirst]
    cases step s a with
    | none => rfl
    | some next => exact ih next

/-- The entry of a space. -/
def seed (space : ImportSpaceInfo) : List (String × Value) :=
  if space.spaceId = "" then []
  else [(space.spaceId, .object [("id", .string space.spaceId), ("name", .string space.spaceName)])]

def seeds (spaces : List ImportSpaceInfo) : List (String × Value) := spaces.flatMap seed

section imports

variable (fails : Operation → Bool) (now : Int)

/-- The entry of a run. -/
def imported (run : LegacyRun) : List (String × Value) :=
  match readState fails run with
  | none => []
  | some v => [(run.uuid, run.entry now v)]

/-- The entries of all runs. -/
def imports (spaces : List ImportSpaceInfo) : List (String × Value) :=
  (scan fails spaces).flatMap (imported fails now)

theorem seedSpace_grown (s : Value × ImportResult) (space : ImportSpaceInfo) :
    (seedSpace s space).map Prod.fst = grown s.1 (seed space) := by
  unfold seedSpace seed
  split
  · exact (grown_nil s.1).symm
  · rw [grown_one]
    split
    · rfl
    · rw [Option.map_map]
      exact congrFun Option.map_id _

theorem importRun_grown (s : Value × ImportResult) (run : LegacyRun) :
    (importRun fails now s run).map Prod.fst = grown s.1 (imported fails now run) := by
  unfold importRun imported
  cases hRead : readState fails run with
  | none =>
    rw [grown_nil]
    split <;> rfl
  | some v =>
    rw [grown_one]
    split
    · rfl
    · show Option.map _ (Option.map _ (insert s.1 run.uuid (run.entry now v))) = _
      rw [Option.map_map]
      exact congrFun Option.map_id _

theorem run_eq (file : SnapshotFile) (spaces : List ImportSpaceInfo) :
    (run fails now file spaces).map (fun out => (out.file, out.saved, out.marker)) =
      let fields := addAll (fieldsOf (loadSnapshot fails file)) defaults
      (grown (member fields "spaces") (seeds spaces)).bind fun seeded =>
        (grown (member fields "runs") (imports fails now spaces)).map fun runs =>
          let snapshot := Value.object (set "runs" runs (set "spaces" seeded fields))
          ((saveSnapshot fails snapshot file).1, (saveSnapshot fails snapshot file).2,
            !fails .openMarker) := by
  have hSeeds := fold_grown seedSpace_grown spaces
    (member (addAll (fieldsOf (loadSnapshot fails file)) defaults) "spaces", ⟨0, 0, 0, 0⟩)
  have hImports := fun result => fold_grown (importRun_grown fails now) (scan fails spaces)
    (member (addAll (fieldsOf (loadSnapshot fails file)) defaults) "runs", result)
  unfold run
  simp only [seeds, imports]
  rw [← hSeeds]
  cases spaces.foldlM seedSpace
      (member (addAll (fieldsOf (loadSnapshot fails file)) defaults) "spaces", ⟨0, 0, 0, 0⟩) with
  | none => rfl
  | some seeded =>
    show Option.map _ (Option.map _ _) = (grown _ _).map _
    rw [← hImports seeded.2, Option.map_map, Option.map_map]
    rfl

end imports

/-- The runs that lie on disk. -/
def diskRun (index : Nat) (space : ImportSpaceInfo) (flow : FlowDir) (run : RunDir) : List LegacyRun :=
  if run.isDirectory then run.state.toList.map fun state => ⟨index, space, flow.name, run.name, state⟩
  else []

def diskFlow (index : Nat) (space : ImportSpaceInfo) (flow : FlowDir) : List LegacyRun :=
  if flow.isDirectory then (flow.runs.getD []).flatMap (diskRun index space flow) else []

def diskSpace (index : Nat) (space : ImportSpaceInfo) : List LegacyRun :=
  ((space.workspaceRoot.getD none).getD []).flatMap (diskFlow index space)

def diskFrom (index : Nat) : List ImportSpaceInfo → List LegacyRun
  | [] => []
  | space :: spaces => diskSpace index space ++ diskFrom (index + 1) spaces

/-- The runs whose state is an object. -/
def parseable (spaces : List ImportSpaceInfo) : List LegacyRun :=
  (diskFrom 0 spaces).filter (·.object.isSome)

/-- No operation fails on the way to the state of a run, and its space has an id. -/
structure Reached (fails : Operation → Bool) (run : LegacyRun) : Prop where
  named : run.space.spaceId ≠ ""
  flows : ¬(fails (.existsFlows run.index) ∨ fails (.listFlows run.index))
  runs : ¬(fails (.existsRuns run.index run.flowId) ∨ fails (.listRuns run.index run.flowId))
  state : ¬fails (.existsState run.index run.flowId run.runDir)

section scan

variable {fails : Operation → Bool} {index : Nat} {space : ImportSpaceInfo} {run : LegacyRun}

theorem diskRun_at {flow : FlowDir} {dir : RunDir} (h : run ∈ diskRun index space flow dir) :
    run.index = index ∧ run.space = space ∧ run.flowId = flow.name := by
  unfold diskRun at h
  split at h
  · obtain ⟨state, -, rfl⟩ := List.mem_map.mp h
    exact ⟨rfl, rfl, rfl⟩
  · cases h

theorem scanRun_eq {flow : FlowDir} {dir : RunDir} :
    scanRun fails index space flow dir = (diskRun index space flow dir).filter
      fun run => ¬fails (.existsState run.index run.flowId run.runDir) := by
  unfold scanRun diskRun
  split
  · cases dir.state with
    | none => rfl
    | some state =>
      show (if fails (.existsState index flow.name dir.name) then [] else _) = List.filter _ [_]
      split
      · rename_i hFails
        rw [List.filter_cons_of_neg (by simpa using hFails), List.filter_nil]
      · rename_i hFine
        rw [List.filter_cons_of_pos (by simpa using hFine), List.filter_nil]
  · rfl

theorem diskFlow_at {flow : FlowDir} (h : run ∈ diskFlow index space flow) :
    run.index = index ∧ run.space = space ∧ run.flowId = flow.name := by
  unfold diskFlow at h
  split at h
  · obtain ⟨dir, -, hRun⟩ := List.mem_flatMap.mp h
    exact diskRun_at hRun
  · cases h

theorem mem_scanFlow {flow : FlowDir} :
    run ∈ scanFlow fails index space flow ↔ run ∈ diskFlow index space flow ∧
      ¬(fails (.existsRuns run.index run.flowId) ∨ fails (.listRuns run.index run.flowId)) ∧
      ¬fails (.existsState run.index run.flowId run.runDir) := by
  unfold scanFlow diskFlow
  split
  · cases flow.runs with
    | none => exact iff_of_false List.not_mem_nil fun h => List.not_mem_nil h.1
    | some runs =>
      show run ∈ (if fails (.existsRuns index flow.name) ∨ fails (.listRuns index flow.name) then []
        else _) ↔ run ∈ runs.flatMap _ ∧ _
      split
      · rename_i hFails
        refine iff_of_false List.not_mem_nil ?_
        rintro ⟨hMem, hFine, -⟩
        obtain ⟨dir, -, hRun⟩ := List.mem_flatMap.mp hMem
        obtain ⟨hIndex, -, hFlow⟩ := diskRun_at hRun
        rw [hIndex, hFlow] at hFine
        exact hFine hFails
      · rename_i hFine
        constructor
        · intro hMem
          obtain ⟨dir, hDir, hRun⟩ := List.mem_flatMap.mp hMem
          rw [scanRun_eq] at hRun
          obtain ⟨hRun, hState⟩ := List.mem_filter.mp hRun
          obtain ⟨hIndex, -, hFlow⟩ := diskRun_at hRun
          refine ⟨List.mem_flatMap.mpr ⟨dir, hDir, hRun⟩, ?_, of_decide_eq_true hState⟩
          rwa [hIndex, hFlow]
        · rintro ⟨hMem, -, hState⟩
          obtain ⟨dir, hDir, hRun⟩ := List.mem_flatMap.mp hMem
          refine List.mem_flatMap.mpr ⟨dir, hDir, ?_⟩
          rw [scanRun_eq]
          exact List.mem_filter.mpr ⟨hRun, decide_eq_true hState⟩
  · exact iff_of_false List.not_mem_nil fun h => List.not_mem_nil h.1

theorem mem_scanSpace :
    run ∈ scanSpace fails index space ↔ run ∈ diskSpace index space ∧ Reached fails run := by
  have hAt {flows : List FlowDir} (h : run ∈ flows.flatMap (diskFlow index space)) :
      run.index = index ∧ run.space = space := by
    obtain ⟨flow, -, hRun⟩ := List.mem_flatMap.mp h
    exact ⟨(diskFlow_at hRun).1, (diskFlow_at hRun).2.1⟩
  unfold scanSpace diskSpace
  split
  · rename_i hUnnamed
    refine iff_of_false List.not_mem_nil ?_
    rintro ⟨hMem, hReached⟩
    obtain ⟨-, hSpace⟩ := hAt hMem
    exact hReached.named (hSpace ▸ hUnnamed)
  · rename_i hNamed
    rcases hRoot : space.workspaceRoot with _ | _ | flows
    · exact iff_of_false List.not_mem_nil fun h => List.not_mem_nil h.1
    · exact iff_of_false List.not_mem_nil fun h => List.not_mem_nil h.1
    · show run ∈ (if fails (.existsFlows index) ∨ fails (.listFlows index) then [] else _) ↔
        run ∈ flows.flatMap (diskFlow index space) ∧ _
      split
      · rename_i hFails
        refine iff_of_false List.not_mem_nil ?_
        rintro ⟨hMem, hReached⟩
        obtain ⟨hIndex, -⟩ := hAt hMem
        exact hReached.flows (hIndex ▸ hFails)
      · rename_i hFine
        constructor
        · intro hMem
          obtain ⟨flow, hFlow, hRun⟩ := List.mem_flatMap.mp hMem
          obtain ⟨hRun, hRuns, hState⟩ := mem_scanFlow.mp hRun
          have hMem := List.mem_flatMap.mpr ⟨flow, hFlow, hRun⟩
          obtain ⟨hIndex, hSpace⟩ := hAt hMem
          exact ⟨hMem, hSpace ▸ hNamed, hIndex ▸ hFine, hRuns, hState⟩
        · rintro ⟨hMem, hReached⟩
          obtain ⟨flow, hFlow, hRun⟩ := List.mem_flatMap.mp hMem
          exact List.mem_flatMap.mpr
            ⟨flow, hFlow, mem_scanFlow.mpr ⟨hRun, hReached.runs, hReached.state⟩⟩

theorem mem_scanFrom {spaces : List ImportSpaceInfo} :
    run ∈ scanFrom fails index spaces ↔ run ∈ diskFrom index spaces ∧ Reached fails run := by
  induction spaces generalizing index with
  | nil => exact iff_of_false List.not_mem_nil fun h => List.not_mem_nil h.1
  | cons space spaces ih =>
    show run ∈ scanSpace fails index space ++ scanFrom fails (index + 1) spaces ↔
      run ∈ diskSpace index space ++ diskFrom (index + 1) spaces ∧ _
    rw [List.mem_append, List.mem_append, mem_scanSpace, ih, or_and_right]

end scan

end Cronymax.Migration
