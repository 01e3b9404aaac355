import Cronymax.Migration.Imported

/-! The law of the import: a marker stands for a saved snapshot that has every legacy run under its own
space, keeps what the former file held and gains nothing from another import. -/

namespace Cronymax.Migration

open Authority (Value)
open Additions (has set add addAll lookup_set lookup_add lookup_addAll)

/-- The member is the same, or it has all entries of the former one. -/
def Retained (x w : Value) : Prop :=
  x = w ∨ x = .null ∨ ∃ f g, x = .object f ∧ w = .object g ∧ ∀ k y, f.lookup k = some y → g.lookup k = some y

/-- The snapshot has what another one held. -/
def Extends (prev next : Value) : Prop :=
  prev = .null ∨ ∃ f g, prev = .object f ∧ next = .object g ∧
    ∀ k x, f.lookup k = some x → ∃ w, g.lookup k = some w ∧ Retained x w

/-- The snapshot has all that the file holds, which is no document that cannot be parsed. -/
def Keeps : SnapshotFile → Value → Prop
  | .absent, _ => True
  | .unparseable, _ => False
  | .holds prev, snapshot => Extends prev snapshot

/-- An entry of a member of the snapshot. -/
def entryAt (snapshot : Value) (name key : String) : Option Value :=
  (snapshot.get name).bind (·.get key)

/-- The snapshot has an entry of this name under the key. -/
def HasEntry (name key : String) : SnapshotFile → Prop
  | .holds snapshot => (entryAt snapshot name key).isSome
  | _ => False

/-- Each run has an entry of its own, under its space. -/
structure Complete (spaces : List ImportSpaceInfo) (snapshot : Value) : Prop where
  apart : ((parseable spaces).map LegacyRun.uuid).Nodup
  entered : ∀ run ∈ parseable spaces, ∃ e, entryAt snapshot "runs" run.uuid = some e ∧
    e.get "space_id" = some (.string run.space.spaceId)

/-- Everything that was there is there, and everything found has come. -/
structure Preserved (file : SnapshotFile) (spaces : List ImportSpaceInfo) (out : Outcome) : Prop where
  saved : out.saved = true
  complete : ∃ snapshot, out.file = .holds snapshot ∧ Keeps file snapshot ∧ Complete spaces snapshot
  settled : ∀ fails now again, run fails now out.file spaces = some again →
    ∀ name ∈ ["spaces", "runs"], ∀ key, HasEntry name key again.file → HasEntry name key out.file

section call

variable (fails : Operation → Bool) (now : Int) (file : SnapshotFile) (spaces : List ImportSpaceInfo)

/-- The members with the defaults. -/
def start : List (String × Value) := addAll (fieldsOf (loadSnapshot fails file)) defaults

/-- The members do not take what is to come. -/
def Ends : Prop :=
  Closed (member (start fails file) "spaces") ∧ seeds spaces ≠ [] ∨
    Closed (member (start fails file) "runs") ∧ imports fails now spaces ≠ []

def snapshotOf (seeded runs : Value) : Value :=
  .object (set "runs" runs (set "spaces" seeded (start fails file)))

variable {fails now file spaces}

theorem run_ends (h : Ends fails now file spaces) : run fails now file spaces = none := by
  refine Option.map_eq_none_iff.mp ((run_eq fails now file spaces).trans ?_)
  rcases h with hSpaces | hRuns
  · show (grown (member (start fails file) "spaces") (seeds spaces)).bind _ = none
    rw [grown_eq_none.mpr hSpaces]
    rfl
  · show (grown (member (start fails file) "spaces") (seeds spaces)).bind (fun seeded =>
      (grown (member (start fails file) "runs") (imports fails now spaces)).map _) = none
    rw [grown_eq_none.mpr hRuns]
    cases grown (member (start fails file) "spaces") (seeds spaces) <;> rfl

theorem run_some {out : Outcome} (h : run fails now file spaces = some out) :
    ∃ seeded runs, grown (member (start fails file) "spaces") (seeds spaces) = some seeded ∧
      grown (member (start fails file) "runs") (imports fails now spaces) = some runs ∧
      out.file = (saveSnapshot fails (snapshotOf fails file seeded runs) file).1 ∧
      out.saved = (saveSnapshot fails (snapshotOf fails file seeded runs) file).2 ∧
      out.marker = !fails .openMarker := by
  have hEq := run_eq fails now file spaces
  rw [h, Option.map_some] at hEq
  obtain ⟨seeded, hSeeded, hRest⟩ := Option.bind_eq_some_iff.mp hEq.symm
  obtain ⟨runs, hRuns, hOut⟩ := Option.map_eq_some_iff.mp hRest
  obtain ⟨hFile, hSaved, hMarker⟩ := by simpa only [Prod.mk.injEq] using hOut
  exact ⟨seeded, runs, hSeeded, hRuns, hFile.symm, hSaved.symm, hMarker.symm⟩

theorem run_survives (h : ¬Ends fails now file spaces) : ∃ out, run fails now file spaces = some out := by
  unfold Ends at h
  rw [← grown_eq_none, ← grown_eq_none, not_or] at h
  obtain ⟨seeded, hSeeded⟩ := Option.ne_none_iff_exists'.mp h.1
  obtain ⟨runs, hRuns⟩ := Option.ne_none_iff_exists'.mp h.2
  have hEq := run_eq fails now file spaces
  cases hRun : run fails now file spaces with
  | some out => exact ⟨out, rfl⟩
  | none =>
    have hNone : (grown (member (start fails file) "spaces") (seeds spaces)).bind (fun seeded =>
        (grown (member (start fails file) "runs") (imports fails now spaces)).map fun runs =>
          ((saveSnapshot fails (snapshotOf fails file seeded runs) file).1,
            (saveSnapshot fails (snapshotOf fails file seeded runs) file).2, !fails .openMarker)) = none := by
      rw [hRun] at hEq
      exact hEq.symm
    rw [hSeeded, hRuns] at hNone
    cases hNone

theorem get_snapshotOf (seeded runs : Value) (key : String) :
    (snapshotOf fails file seeded runs).get key =
      if key = "runs" then some runs else if key = "spaces" then some seeded
      else (start fails file).lookup key := by
  show (set "runs" runs (set "spaces" seeded (start fails file))).lookup key = _
  rw [lookup_set, lookup_set]

theorem get_start (key : String) :
    (start fails file).lookup key = ((loadSnapshot fails file).get key).or (defaults.lookup key) := by
  unfold start
  rw [lookup_addAll]
  cases loadSnapshot fails file <;> rfl

theorem get_member {name : String} (hDefault : defaults.lookup name = some (.object [])) (key : String) :
    (member (start fails file) name).get key = entryAt (loadSnapshot fails file) name key := by
  unfold member entryAt
  rw [get_start, hDefault]
  cases (loadSnapshot fails file).get name <;> rfl

theorem entryAt_runs {seeded runs : Value}
    (h : grown (member (start fails file) "runs") (imports fails now spaces) = some runs) (key : String) :
    entryAt (snapshotOf fails file seeded runs) "runs" key =
      (entryAt (loadSnapshot fails file) "runs" key).or ((imports fails now spaces).lookup key) := by
  unfold entryAt
  rw [get_snapshotOf, if_pos rfl, Option.bind_some, get_grown h, get_member rfl]
  rfl

theorem entryAt_spaces {seeded runs : Value}
    (h : grown (member (start fails file) "spaces") (seeds spaces) = some seeded) (key : String) :
    entryAt (snapshotOf fails file seeded runs) "spaces" key =
      (entryAt (loadSnapshot fails file) "spaces" key).or ((seeds spaces).lookup key) := by
  unfold entryAt
  rw [get_snapshotOf, if_neg (by decide), if_pos rfl, Option.bind_some, get_grown h, get_member rfl]
  rfl

theorem entry_space (run : LegacyRun) (v : Value) :
    (run.entry now v).get "space_id" = some (.string run.space.spaceId) := by
  show (add (add (set "id" (.string run.uuid) (parseLegacyRun run.space.spaceId v)) _) _).lookup _ = _
  rw [lookup_add, lookup_add, lookup_set, if_neg (by decide)]
  rfl

/-- A run whose state the call reads. -/
def Read (fails : Operation → Bool) (run : LegacyRun) : Prop :=
  Reached fails run ∧ fails (.openState run.index run.flowId run.runDir) = false

theorem mem_imports {key : String} {e : Value} :
    (key, e) ∈ imports fails now spaces ↔
      ∃ run ∈ parseable spaces, Read fails run ∧ key = run.uuid ∧
        ∃ v, run.object = some v ∧ e = run.entry now v := by
  unfold imports scan parseable
  simp only [List.mem_flatMap, mem_scanFrom, List.mem_filter]
  constructor
  · rintro ⟨run, ⟨hDisk, hReached⟩, hMem⟩
    unfold imported readState at hMem
    split at hMem
    · cases hMem
    · rename_i v hRead
      obtain ⟨hFine, hObject⟩ := Option.ite_none_left_eq_some.mp hRead
      obtain ⟨rfl, rfl⟩ := by simpa using hMem
      exact ⟨run, ⟨hDisk, by rw [hObject]; rfl⟩, ⟨hReached, by simpa using hFine⟩, rfl, v, hObject, rfl⟩
  · rintro ⟨run, ⟨hDisk, -⟩, ⟨hReached, hFine⟩, rfl, v, hObject, rfl⟩
    refine ⟨run, ⟨hDisk, hReached⟩, ?_⟩
    unfold imported readState
    rw [if_neg (by simp [hFine]), hObject]
    exact List.mem_singleton_self _

theorem mem_of_lookup {κ β : Type*} [DecidableEq κ] {l : List (κ × β)} {k : κ} {v : β}
    (h : l.lookup k = some v) : (k, v) ∈ l := by
  obtain ⟨front, back, rfl, -⟩ := List.lookup_eq_some_iff.mp h
  simp

theorem lookup_of_mem {κ β : Type*} [DecidableEq κ] {l : List (κ × β)} {k : κ} {v : β}
    (h : (k, v) ∈ l) : ∃ w, l.lookup k = some w := by
  refine Option.ne_none_iff_exists'.mp fun hNone => ?_
  have := List.lookup_eq_none_iff.mp hNone _ h
  simp at this

theorem uuid_inj (hApart : ((parseable spaces).map LegacyRun.uuid).Nodup) {run run' : LegacyRun}
    (h : run ∈ parseable spaces) (h' : run' ∈ parseable spaces) (hSame : run.uuid = run'.uuid) :
    run = run' := List.inj_on_of_nodup_map hApart h h' hSame

/-- The entry of the run is its own. -/
def Enters (fails : Operation → Bool) (file : SnapshotFile) (run : LegacyRun) : Prop :=
  (∃ e, entryAt (loadSnapshot fails file) "runs" run.uuid = some e ∧
      e.get "space_id" = some (.string run.space.spaceId)) ∨
    entryAt (loadSnapshot fails file) "runs" run.uuid = none ∧ Read fails run

theorem complete_iff {seeded runs : Value}
    (hRuns : grown (member (start fails file) "runs") (imports fails now spaces) = some runs) :
    Complete spaces (snapshotOf fails file seeded runs) ↔
      ((parseable spaces).map LegacyRun.uuid).Nodup ∧ ∀ run ∈ parseable spaces, Enters fails file run := by
  constructor
  · rintro ⟨hApart, hEntered⟩
    refine ⟨hApart, fun run hRun => ?_⟩
    obtain ⟨e, hEntry, hSpace⟩ := hEntered run hRun
    rw [entryAt_runs hRuns] at hEntry
    cases hOld : entryAt (loadSnapshot fails file) "runs" run.uuid with
    | some old =>
      rw [hOld, Option.some_or, Option.some.injEq] at hEntry
      exact .inl ⟨old, hOld, hEntry ▸ hSpace⟩
    | none =>
      rw [hOld, Option.none_or] at hEntry
      obtain ⟨run', hRun', hRead, hSame, -⟩ := mem_imports.mp (mem_of_lookup hEntry)
      exact .inr ⟨hOld, uuid_inj hApart hRun hRun' hSame ▸ hRead⟩
  · rintro ⟨hApart, hEnters⟩
    refine ⟨hApart, fun run hRun => ?_⟩
    rw [entryAt_runs hRuns]
    rcases hEnters run hRun with ⟨e, hOld, hSpace⟩ | ⟨hNew, hRead⟩
    · exact ⟨e, by rw [hOld, Option.some_or], hSpace⟩
    · obtain ⟨v, hObject⟩ := Option.isSome_iff_exists.mp (List.mem_filter.mp hRun).2
      have hMem : (run.uuid, run.entry now v) ∈ imports fails now spaces :=
        mem_imports.mpr ⟨run, hRun, hRead, rfl, v, hObject, rfl⟩
      obtain ⟨e, hEntry⟩ := lookup_of_mem hMem
      obtain ⟨run', hRun', -, hSame, v', -, rfl⟩ := mem_imports.mp (mem_of_lookup hEntry)
      obtain rfl := uuid_inj hApart hRun hRun' hSame
      exact ⟨_, by rw [hNew, Option.none_or, hEntry], entry_space run v'⟩

theorem retained_grown {m m' : Value} {additions : List (String × Value)}
    (h : grown m additions = some m') : Retained m m' := by
  cases m with
  | object fields =>
    cases h
    refine .inr (.inr ⟨fields, _, rfl, rfl, fun k y hy => ?_⟩)
    rw [lookup_addAll, hy, Option.some_or]
  | null => exact .inr (.inl rfl)
  | bool | number | string | array =>
    obtain ⟨-, hSame⟩ := Option.ite_none_right_eq_some.mp h
    exact .inl (Option.some.inj hSame)

/-- What a call writes where nothing was there. -/
def written (fails : Operation → Bool) (now : Int) (spaces : List ImportSpaceInfo) : Value :=
  .object [("schema_version", kSchemaVersion), ("spaces", .object (addAll [] (seeds spaces))),
    ("agents", .object []), ("runs", .object (addAll [] (imports fails now spaces))),
    ("memory", .object []), ("reviews", .object [])]

/-- An object all of whose entries are among the given ones. -/
def Among (entries : List (String × Value)) (x : Value) : Prop :=
  ∃ f, x = .object f ∧ ∀ k y, f.lookup k = some y → entries.lookup k = some y

/-- A member of a former file that a call starting from an empty snapshot writes again. -/
inductive Anew (seeded imported : List (String × Value)) : String → Value → Prop where
  | schemaVersion : Anew seeded imported "schema_version" kSchemaVersion
  | spaces {x : Value} (h : Among seeded x) : Anew seeded imported "spaces" x
  | runs {x : Value} (h : Among imported x) : Anew seeded imported "runs" x
  | empty {k : String} (h : k ∈ ["agents", "memory", "reviews"]) : Anew seeded imported k (.object [])
  | null {k : String} (h : k ∈ ["schema_version", "spaces", "agents", "runs", "memory", "reviews"]) :
      Anew seeded imported k .null

/-- The former file is read, or has nothing to lose. -/
def Readable (fails : Operation → Bool) (now : Int) (spaces : List ImportSpaceInfo) : SnapshotFile → Prop
  | .absent => True
  | .unparseable => False
  | .holds prev =>
    prev = .null ∨ ∃ f, prev = .object f ∧
      (¬(fails .existsSnapshot ∨ fails .openSnapshot) ∨
        ∀ k x, f.lookup k = some x → Anew (seeds spaces) (imports fails now spaces) k x)

theorem retained_object {x : Value} {g : List (String × Value)} :
    Retained x (.object g) ↔ x = .null ∨ Among g x := by
  constructor
  · rintro (rfl | hNull | ⟨f, g', rfl, hSame, hEntries⟩)
    · exact .inr ⟨g, rfl, fun _ _ h => h⟩
    · exact .inl hNull
    · cases hSame
      exact .inr ⟨f, rfl, hEntries⟩
  · rintro (hNull | ⟨f, rfl, hEntries⟩)
    · exact .inr (.inl hNull)
    · exact .inr (.inr ⟨f, g, rfl, rfl, hEntries⟩)

theorem among_nil {x : Value} : Among [] x ↔ x = .object [] := by
  constructor
  · rintro ⟨f, rfl, hEntries⟩
    cases f with
    | nil => rfl
    | cons e f =>
      cases hEntries e.1 e.2 List.lookup_cons_self
  · rintro rfl
    exact ⟨[], rfl, fun _ _ h => h⟩

theorem among_addAll {entries : List (String × Value)} {x : Value} :
    Among (addAll [] entries) x ↔ Among entries x := by
  have hLookup (k : String) : (addAll [] entries).lookup k = entries.lookup k := lookup_addAll entries
  simp only [Among, hLookup]

theorem anew_empty {k : String} {x : Value} {seeded imported : List (String × Value)}
    (hEmpty : k ∈ ["agents", "memory", "reviews"])
    (hMember : k ∈ ["schema_version", "spaces", "agents", "runs", "memory", "reviews"])
    (h : Retained x (.object [])) : Anew seeded imported k x := by
  rcases retained_object.mp h with rfl | hAmong
  · exact .null hMember
  · rw [among_nil.mp hAmong]
    exact .empty hEmpty

theorem anew_iff {k : String} {x : Value} :
    (∃ w, (written fails now spaces).get k = some w ∧ Retained x w) ↔
      Anew (seeds spaces) (imports fails now spaces) k x := by
  constructor
  · rintro ⟨w, hw, hRetained⟩
    have hMember : (k, w) ∈ _ := mem_of_lookup (v := w) hw
    simp only [List.mem_cons, List.not_mem_nil, or_false, Prod.mk.injEq] at hMember
    rcases hMember with ⟨rfl, rfl⟩ | ⟨rfl, rfl⟩ | ⟨rfl, rfl⟩ | ⟨rfl, rfl⟩ | ⟨rfl, rfl⟩ | ⟨rfl, rfl⟩
    · rcases hRetained with rfl | rfl | ⟨_, _, _, hObject, _⟩
      · exact .schemaVersion
      · exact .null (by decide)
      · cases hObject
    · rcases retained_object.mp hRetained with rfl | hAmong
      · exact .null (by decide)
      · exact .spaces (among_addAll.mp hAmong)
    · exact anew_empty (by decide) (by decide) hRetained
    · rcases retained_object.mp hRetained with rfl | hAmong
      · exact .null (by decide)
      · exact .runs (among_addAll.mp hAmong)
    · exact anew_empty (by decide) (by decide) hRetained
    · exact anew_empty (by decide) (by decide) hRetained
  · intro h
    cases h with
    | schemaVersion => exact ⟨_, rfl, .inl rfl⟩
    | spaces h => exact ⟨_, rfl, retained_object.mpr (.inr (among_addAll.mpr h))⟩
    | runs h => exact ⟨_, rfl, retained_object.mpr (.inr (among_addAll.mpr h))⟩
    | empty h =>
      simp only [List.mem_cons, List.not_mem_nil, or_false] at h
      rcases h with rfl | rfl | rfl <;> exact ⟨_, rfl, .inl rfl⟩
    | null h =>
      simp only [List.mem_cons, List.not_mem_nil, or_false] at h
      rcases h with rfl | rfl | rfl | rfl | rfl | rfl <;> exact ⟨_, rfl, .inr (.inl rfl)⟩

theorem extends_written {f : List (String × Value)} :
    Extends (.object f) (written fails now spaces) ↔
      ∀ k x, f.lookup k = some x → Anew (seeds spaces) (imports fails now spaces) k x := by
  constructor
  · rintro (hNull | ⟨f', g, hSame, hWritten, hMembers⟩) k x hx
    · cases hNull
    · cases hSame
      obtain ⟨w, hw, hRetained⟩ := hMembers k x hx
      exact anew_iff.mp ⟨w, by rw [hWritten]; exact hw, hRetained⟩
  · exact fun h => .inr ⟨f, _, rfl, rfl, fun k x hx => anew_iff.mpr (h k x hx)⟩

theorem keeps_loaded {f : List (String × Value)} {seeded runs : Value}
    (hLoaded : loadSnapshot fails file = .object f)
    (hSeeded : grown (member (start fails file) "spaces") (seeds spaces) = some seeded)
    (hRuns : grown (member (start fails file) "runs") (imports fails now spaces) = some runs) :
    Extends (.object f) (snapshotOf fails file seeded runs) := by
  refine .inr ⟨f, _, rfl, rfl, fun k x hx => ?_⟩
  have hStart : (start fails file).lookup k = some x := by
    rw [get_start, hLoaded]
    show (f.lookup k).or _ = _
    rw [hx, Option.some_or]
  show ∃ w, (snapshotOf fails file seeded runs).get k = some w ∧ _
  rw [get_snapshotOf]
  split
  · rename_i hName
    refine ⟨runs, rfl, ?_⟩
    have hMember : member (start fails file) "runs" = x := by
      rw [member, ← hName, hStart, Option.getD_some]
    exact hMember ▸ retained_grown hRuns
  · split
    · rename_i hName
      refine ⟨seeded, rfl, ?_⟩
      have hMember : member (start fails file) "spaces" = x := by
        rw [member, ← hName, hStart, Option.getD_some]
      exact hMember ▸ retained_grown hSeeded
    · exact ⟨x, hStart, .inl rfl⟩

theorem keeps_iff {seeded runs : Value}
    (hSeeded : grown (member (start fails file) "spaces") (seeds spaces) = some seeded)
    (hRuns : grown (member (start fails file) "runs") (imports fails now spaces) = some runs) :
    Keeps file (snapshotOf fails file seeded runs) ↔ Readable fails now spaces file := by
  cases file with
  | absent => exact Iff.rfl
  | unparseable => exact Iff.rfl
  | holds prev =>
    by_cases hNull : prev = .null
    · exact iff_of_true (.inl hNull) (.inl hNull)
    by_cases hFails : fails .existsSnapshot ∨ fails .openSnapshot
    · have hLoaded : loadSnapshot fails (.holds prev) = .object [] := if_pos hFails
      have hWritten : snapshotOf fails (.holds prev) seeded runs = written fails now spaces := by
        unfold start at hSeeded hRuns
        unfold snapshotOf start
        rw [hLoaded] at hSeeded hRuns ⊢
        cases hSeeded
        cases hRuns
        rfl
      rw [hWritten]
      constructor
      · rintro (hPrev | ⟨f, g, rfl, hRest⟩)
        · exact absurd hPrev hNull
        · exact .inr ⟨f, rfl, .inr (extends_written.mp (.inr ⟨f, g, rfl, hRest⟩))⟩
      · rintro (hPrev | ⟨f, rfl, hFine | hAnew⟩)
        · exact absurd hPrev hNull
        · exact absurd hFails hFine
        · exact extends_written.mpr hAnew
    · constructor
      · rintro (hPrev | ⟨f, g, rfl, -⟩)
        · exact absurd hPrev hNull
        · exact .inr ⟨f, rfl, .inl hFails⟩
      · rintro (hPrev | ⟨f, rfl, -⟩)
        · exact absurd hPrev hNull
        · exact keeps_loaded (if_neg hFails) hSeeded hRuns

theorem saveSnapshot_cases (snapshot : Value) (file : SnapshotFile) :
    (saveSnapshot fails snapshot file = (file, false)) ∨
      (saveSnapshot fails snapshot file = (.unparseable, false)) ∨
      saveSnapshot fails snapshot file = (.holds snapshot, true) := by
  unfold saveSnapshot
  split
  · exact .inl rfl
  · split
    · exact .inr (.inl rfl)
    · exact .inr (.inr rfl)

theorem entryAt_load {snapshot e : Value} {name key : String}
    (h : entryAt (loadSnapshot fails (.holds snapshot)) name key = some e) :
    entryAt snapshot name key = some e := by
  have hLoad : loadSnapshot fails (.holds snapshot) =
      if fails .existsSnapshot ∨ fails .openSnapshot then .object [] else snapshot := rfl
  rw [hLoad] at h
  split at h
  · cases h
  · exact h

theorem settled {snapshot seeded runs : Value} (hComplete : Complete spaces snapshot)
    (hSnapshot : snapshot = snapshotOf fails file seeded runs)
    (hSeeded : grown (member (start fails file) "spaces") (seeds spaces) = some seeded)
    {fails' : Operation → Bool} {now' : Int} {again : Outcome}
    (hAgain : run fails' now' (.holds snapshot) spaces = some again) :
    ∀ name ∈ ["spaces", "runs"], ∀ key,
      HasEntry name key again.file → HasEntry name key (.holds snapshot) := by
  obtain ⟨seeded', runs', hSeeded', hRuns', hFile, -, -⟩ := run_some hAgain
  intro name hName key hHas
  rw [hFile] at hHas
  let snapshot' := snapshotOf fails' (.holds snapshot) seeded' runs'
  have hSaved : saveSnapshot fails' snapshot' (.holds snapshot) = (.holds snapshot, false) ∨
      saveSnapshot fails' snapshot' (.holds snapshot) = (.unparseable, false) ∨
      saveSnapshot fails' snapshot' (.holds snapshot) = (.holds snapshot', true) :=
    saveSnapshot_cases snapshot' (.holds snapshot)
  rcases hSaved with hSave | hSave | hSave
  · rwa [hSave] at hHas
  · rw [hSave] at hHas
    exact absurd hHas id
  · rw [hSave] at hHas
    obtain ⟨e, hEntry⟩ := Option.isSome_iff_exists.mp hHas
    simp only [List.mem_cons, List.not_mem_nil, or_false] at hName
    rcases hName with rfl | rfl
    · rw [entryAt_spaces hSeeded'] at hEntry
      rcases Option.or_eq_some_iff.mp hEntry with hOld | ⟨-, hNew⟩
      · exact Option.isSome_iff_exists.mpr ⟨e, entryAt_load hOld⟩
      · show (entryAt snapshot "spaces" key).isSome
        rw [hSnapshot, entryAt_spaces hSeeded, hNew]
        cases entryAt (loadSnapshot fails file) "spaces" key <;> rfl
    · rw [entryAt_runs hRuns'] at hEntry
      rcases Option.or_eq_some_iff.mp hEntry with hOld | ⟨-, hNew⟩
      · exact Option.isSome_iff_exists.mpr ⟨e, entryAt_load hOld⟩
      · obtain ⟨run, hRun, -, rfl, -⟩ := mem_imports.mp (mem_of_lookup hNew)
        obtain ⟨old, hOld, -⟩ := hComplete.entered run hRun
        exact Option.isSome_iff_exists.mpr ⟨old, hOld⟩

end call

/-- The file is kept, and what is found can be entered. -/
structure Meets (fails : Operation → Bool) (now : Int) (file : SnapshotFile)
    (spaces : List ImportSpaceInfo) : Prop where
  writes : ¬(fails .openTmp ∨ fails .writeTmp ∨ fails .renameTmp) ∧ ¬fails .flushTmp
  readable : Readable fails now spaces file
  apart : ((parseable spaces).map LegacyRun.uuid).Nodup
  enters : ∀ run ∈ parseable spaces, Enters fails file run

/-- An import that leaves its marker has preserved everything exactly if it meets the condition, or ends
with the process or without a marker. -/
theorem preserved_iff (fails : Operation → Bool) (now : Int) (file : SnapshotFile)
    (spaces : List ImportSpaceInfo) :
    (∀ out, run fails now file spaces = some out → out.marker = true → Preserved file spaces out) ↔
      Ends fails now file spaces ∨ fails .openMarker = true ∨ Meets fails now file spaces := by
  by_cases hEnds : Ends fails now file spaces
  · refine iff_of_true (fun out hRun => ?_) (.inl hEnds)
    rw [run_ends hEnds] at hRun
    cases hRun
  rw [or_iff_right hEnds]
  obtain ⟨out, hRun⟩ := run_survives hEnds
  obtain ⟨seeded, runs, hSeeded, hRuns, hFile, hSaved, hMarker⟩ := run_some hRun
  rw [hRun]
  cases hOpen : fails .openMarker with
  | true =>
    refine iff_of_true (fun out' hSame hLeft => ?_) (.inl rfl)
    cases hSame
    rw [hMarker, hOpen] at hLeft
    cases hLeft
  | false =>
    rw [or_iff_right Bool.false_ne_true]
    constructor
    · intro hAll
      obtain ⟨hDone, ⟨snapshot, hHolds, hKeeps, hComplete⟩, -⟩ :=
        hAll out rfl (by rw [hMarker, hOpen]; rfl)
      unfold saveSnapshot at hFile hSaved
      rw [hSaved] at hDone
      split at hDone
      · cases hDone
      rename_i hWrites
      rw [if_neg hWrites] at hFile
      split at hDone
      · cases hDone
      rename_i hFlush
      rw [if_neg hFlush] at hFile
      obtain rfl : snapshotOf fails file seeded runs = snapshot :=
        SnapshotFile.holds.inj (hFile.symm.trans hHolds)
      obtain ⟨hApart, hEnters⟩ := (complete_iff hRuns).mp hComplete
      exact ⟨⟨hWrites, hFlush⟩, (keeps_iff hSeeded hRuns).mp hKeeps, hApart, hEnters⟩
    · rintro ⟨⟨hWrites, hFlush⟩, hReadable, hApart, hEnters⟩ out' hSame -
      cases hSame
      unfold saveSnapshot at hFile hSaved
      rw [if_neg hWrites, if_neg hFlush] at hFile hSaved
      have hComplete : Complete spaces (snapshotOf fails file seeded runs) :=
        (complete_iff hRuns).mpr ⟨hApart, hEnters⟩
      refine ⟨hSaved, ⟨_, hFile, (keeps_iff hSeeded hRuns).mpr hReadable, hComplete⟩, ?_⟩
      rw [hFile]
      exact fun fails' now' again hAgain => settled hComplete rfl hSeeded hAgain

def oneRun : Option (Option (List FlowDir)) :=
  some (some [⟨[102], true, some [⟨[114], true, some (some (.object [("status", .string "COMPLETED")]))⟩]⟩])

def twoSpaces : List ImportSpaceInfo := [⟨"a", "A", oneRun⟩, ⟨"b", "B", oneRun⟩]

/-- Two spaces with a flow and a run of the same names. -/
theorem twins_collapse :
    ¬∀ out, run (fun _ => false) 0 .absent twoSpaces = some out → out.marker = true →
      Preserved .absent twoSpaces out := by
  intro hAll
  obtain ⟨out, hRun⟩ : ∃ out, run (fun _ => false) 0 .absent twoSpaces = some out := ⟨_, rfl⟩
  have hMarker : out.marker = true := by
    cases hRun
    rfl
  obtain ⟨-, ⟨snapshot, -, -, hApart, -⟩, -⟩ := hAll out hRun hMarker
  have hTwins : (parseable twoSpaces).map LegacyRun.uuid = [runUuid [102] [114], runUuid [102] [114]] := rfl
  rw [hTwins] at hApart
  simp at hApart

end Cronymax.Migration
