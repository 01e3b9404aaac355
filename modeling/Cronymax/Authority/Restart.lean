import Cronymax.Authority.Delivery
import Cronymax.Authority.Integrity
import Cronymax.Authority.LockStep

/-! The snapshot on disk, and what of it a restart gives back.  The file is replaced by a rename, so that
a save that fails leaves it as it was.  Memory is not written, and a restart pauses the runs that it
interrupts and drops the reviews; everything else comes back. -/

namespace Cronymax.Authority

/-- `serde_json` for documents. -/
structure JsonText (Bytes : Type) where
  toVecPretty : Value → Bytes
  fromSlice : Bytes → Except String Value
  invalid : Value → String

/-- The text of the document is read as the document. -/
def JsonText.Reproduces {Bytes : Type} (text : JsonText Bytes) (doc : Value) : Prop :=
  text.fromSlice (text.toVecPretty doc) = .ok doc

/-- The snapshot's file and the temporary one beside it. -/
structure Files (Bytes : Type) where
  file : Option Bytes
  tmp : Option Bytes

/-- Which accesses of a save fail. -/
structure SaveOutcome (Bytes : Type) where
  openTmp : Option String
  writeAll : Option (String × Bytes)
  syncAll : Option String
  rename : Option String

namespace Snapshot

/-- The version that a save writes. -/
def stamp (version : UInt32) (s : Snapshot) : Snapshot :=
  if s.schemaVersion = version then { s with schemaVersion := version + 1 } else s

/-- `migrate_snapshot`. -/
def migrate (s : Snapshot) : Except PersistenceError Snapshot :=
  if snapshotSchemaVersion < s.schemaVersion then
    .error (.migration s.schemaVersion snapshotSchemaVersion)
  else .ok (stamp 4 (stamp 3 (stamp 2 (stamp 1 (stamp 0 s)))))

end Snapshot

section Disk

variable {Bytes : Type} (text : JsonText Bytes)

/-- `JsonFilePersistence::load`. -/
def load (readFails : Option String) (d : Files Bytes) : Except PersistenceError Snapshot :=
  match readFails with
  | some e => .error (.io e)
  | none =>
    match d.file with
    | none => Snapshot.empty.migrate
    | some bytes =>
      match text.fromSlice bytes with
      | .error e => .error (.serde e)
      | .ok doc =>
        match Snapshot.json.read doc with
        | none => .error (.serde (text.invalid doc))
        | some s => s.migrate

/-- `JsonFilePersistence::save`. -/
def save (s : Snapshot) (o : SaveOutcome Bytes) (d : Files Bytes) :
    Except PersistenceError Unit × Files Bytes :=
  let bytes := text.toVecPretty (Snapshot.json.write s)
  match o.openTmp with
  | some e => (.error (.io e), d)
  | none =>
    match o.writeAll with
    | some (e, part) => (.error (.io e), { d with tmp := some part })
    | none =>
      match o.syncAll.or o.rename with
      | some e => (.error (.io e), { d with tmp := some bytes })
      | none => (.ok (), ⟨some bytes, none⟩)

/-- The file is loaded, and the authority rehydrated from it. -/
def restart (readFails : Option String) (o : SaveOutcome Bytes)
    (faults : List (Option PersistenceError)) (clock : List Int) (d : Files Bytes) :
    Except AuthorityError RuntimeAuthority × Files Bytes :=
  match load text readFails d with
  | .error e => (.error (.persistence e), d)
  | .ok s =>
    if s.isStale then
      match save text (s.recover (clock.headD 0)) o d with
      | (.error e, d') => (.error (.persistence e), d')
      | (.ok (), d') => (rehydrate (.ok s) (none :: faults) clock, d')
    else (rehydrate (.ok s) faults clock, d)

theorem save_file (s : Snapshot) (o : SaveOutcome Bytes) (d : Files Bytes) :
    (∃ e, (save text s o d).1 = .error e ∧ (save text s o d).2.file = d.file) ∨
      save text s o d = (.ok (), ⟨some (text.toVecPretty (Snapshot.json.write s)), none⟩) := by
  unfold save
  dsimp only
  split
  · exact .inl ⟨_, rfl, rfl⟩
  · split
    · exact .inl ⟨_, rfl, rfl⟩
    · split
      · exact .inl ⟨_, rfl, rfl⟩
      · exact .inr rfl

end Disk

namespace Snapshot

variable {s s' : Snapshot}

/-- The snapshots of the current version. -/
def Current (s : Snapshot) : Prop := s.schemaVersion = snapshotSchemaVersion

theorem migrate_current (h : s.Current) : s.migrate = .ok s := by
  have hStamp (version : UInt32) (hOld : version ≠ snapshotSchemaVersion) : s.stamp version = s :=
    if_neg fun hSame => hOld (hSame.symm.trans h)
  rw [migrate, if_neg (by rw [h]; decide), hStamp 0 (by decide), hStamp 1 (by decide),
    hStamp 2 (by decide), hStamp 3 (by decide), hStamp 4 (by decide)]

theorem current_of_migrate (h : s.migrate = .ok s') : s'.Current := by
  rw [migrate] at h
  split at h
  · cases h
  · rename_i hOld
    obtain rfl := Except.ok.inj h
    have hStamp (version : UInt32) (s : Snapshot) : (s.stamp version).schemaVersion =
        if s.schemaVersion = version then version + 1 else s.schemaVersion := by
      rw [stamp]
      split <;> rfl
    rw [Current]
    simp only [hStamp]
    rw [snapshotSchemaVersion] at hOld ⊢
    generalize s.schemaVersion = v at hOld ⊢
    grind

theorem current_keeps (hCurrent : s.Current) (h : KeepsLinks s s') : s'.Current :=
  h.version.trans hCurrent

end Snapshot

/-- What a restart makes of a snapshot: it pauses the runs that are abandoned, drops the reviews, and
leaves everything else. -/
structure Rehydrated (now : Int) (s s' : Snapshot) : Prop where
  version : s'.schemaVersion = s.schemaVersion
  spaces : s'.spaces = s.spaces
  agents : s'.agents = s.agents
  sessions : s'.sessions = s.sessions
  memory : s'.memory = s.memory
  taskTrees : s'.taskTrees = s.taskTrees
  reviews : s'.reviews = ∅
  runs : ∀ r, s'.run? r = (s.run? r).map fun run =>
    if run.status.isAbandoned then { run with status := .paused, updatedAtMs := now } else run

theorem rehydrated_recover (s : Snapshot) (now : Int) : Rehydrated now s (s.recover now) :=
  ⟨rfl, rfl, rfl, rfl, rfl, rfl, rfl, fun _ => Table.lookup_mapValues ..⟩

theorem recover_fresh (s : Snapshot) (now : Int) : (s.recover now).isStale = false := by
  simp only [Snapshot.isStale, decide_eq_false_iff_not, not_or, not_exists, not_and]
  refine ⟨fun r _ => ?_, Finset.not_nonempty_empty⟩
  rw [Snapshot.recover, Table.lookup_mapValues]
  cases s.runs.lookup r with
  | none => exact Bool.false_ne_true
  | some run =>
    rw [Option.map_some, Option.any_some]
    split
    · exact Bool.false_ne_true
    · rename_i hLive
      exact hLive

section Restart

variable {Bytes : Type} {text : JsonText Bytes} {s : Snapshot} {d : Files Bytes}

/-- The file holds the document of the snapshot. -/
def OnFile (text : JsonText Bytes) (s : Snapshot) (d : Files Bytes) : Prop :=
  d.file = some (text.toVecPretty (Snapshot.json.write s)) ∧
    text.Reproduces (Snapshot.json.write s)

theorem load_onFile (h : OnFile text s d) (hCurrent : s.Current) :
    load text none d = .ok s.stored := by
  have hText : text.fromSlice (text.toVecPretty (Snapshot.json.write s)) = .ok _ := h.2
  have hRead : Snapshot.json.read (Snapshot.json.write s) = some s.stored := Snapshot.json.read_write s
  have hMigrate : s.stored.migrate = .ok s.stored := Snapshot.migrate_current hCurrent
  simp only [load, h.1, hText, hRead, hMigrate]

theorem stored_stored (s : Snapshot) : s.stored.stored = s.stored := by
  have hTask (t : Task) : t.stored.stored = t.stored := by
    rw [Task.stored, Task.stored]
    cases t.output with
    | none => rfl
    | some d => by_cases h : d.isNull <;> simp [Option.filter, h]
  have hTrees : (s.stored.stored).taskTrees = s.stored.taskTrees := by
    refine Finmap.ext_lookup fun r => ?_
    simp only [Snapshot.stored, Table.lookup_mapValues, Option.map_map]
    refine congrArg (Option.map · _) (funext fun tree => ?_)
    refine congrArg TaskTree.mk (Finmap.ext_lookup fun id => ?_)
    simp only [Table.lookup_mapValues, Option.map_map]
    exact congrArg (Option.map · _) (funext hTask)
  exact congrArg (fun trees => ({ s.stored with taskTrees := trees } : Snapshot)) hTrees

variable {readFails : Option String} {o : SaveOutcome Bytes} {faults : List (Option PersistenceError)}
  {clock : List Int} {w : RuntimeAuthority} {d' : Files Bytes}

theorem snapshot_rehydrate (hStart : rehydrate (.ok s) faults clock = .ok w) :
    w.inner.snapshot = s.recover (clock.headD 0) := by
  simp only [rehydrate] at hStart
  split at hStart
  · split at hStart
    · cases hStart
    · cases hStart
      rfl
  · cases hStart
    rfl

theorem restart_onFile (h : OnFile text s d) (hCurrent : s.Current)
    (hStart : restart text readFails o faults clock d = (.ok w, d')) :
    w.inner.snapshot = s.stored.recover (clock.headD 0) ∧
      (d'.file = some (text.toVecPretty (Snapshot.json.write w.inner.snapshot)) ∨
        d' = d ∧ s.stored.isStale = false) := by
  cases readFails with
  | some e => cases hStart
  | none =>
    simp only [restart, load_onFile h hCurrent] at hStart
    split at hStart
    · obtain ⟨e, hFails, -⟩ | hSaved := save_file text (s.stored.recover (clock.headD 0)) o d
      · rcases hSave : save text (s.stored.recover (clock.headD 0)) o d with ⟨result, files⟩
        rw [hSave] at hStart hFails
        cases hFails
        cases hStart
      · rw [hSaved] at hStart
        obtain ⟨hOk, rfl⟩ := Prod.mk.inj hStart
        have hSnapshot := snapshot_rehydrate hOk
        exact ⟨hSnapshot, .inl (by rw [hSnapshot])⟩
    · rename_i hFresh
      obtain ⟨hOk, rfl⟩ := Prod.mk.inj hStart
      exact ⟨snapshot_rehydrate hOk, .inr ⟨rfl, eq_false_of_ne_true hFresh⟩⟩

theorem restart_fresh (h : OnFile text s d) (hCurrent : s.Current) (hFresh : s.stored.isStale = false)
    (hStart : restart text readFails o faults clock d = (.ok w, d')) :
    w.inner.snapshot = s.stored ∧ d' = d := by
  have hSnapshot := (restart_onFile h hCurrent hStart).1
  rw [recover_of_fresh hFresh] at hSnapshot
  refine ⟨hSnapshot, ?_⟩
  cases readFails with
  | some e => cases hStart
  | none =>
    simp only [restart, load_onFile h hCurrent, hFresh] at hStart
    exact (Prod.mk.inj hStart).2.symm

theorem load_current {loaded : Snapshot} (h : load text readFails d = .ok loaded) :
    loaded.Current := by
  unfold load at h
  split at h
  · cases h
  · split at h
    · exact Snapshot.current_of_migrate h
    · split at h
      · cases h
      · split at h
        · cases h
        · exact Snapshot.current_of_migrate h

theorem current_start (h : rehydrate (load text readFails d) faults clock = .ok w) :
    w.inner.snapshot.Current := by
  cases hLoad : load text readFails d with
  | error e =>
    rw [hLoad] at h
    cases h
  | ok loaded =>
    rw [hLoad] at h
    have hLoaded := load_current hLoad
    rw [snapshot_rehydrate h]
    exact hLoaded

theorem current_apply (hCurrent : w.inner.snapshot.Current) (x : Section) :
    (x.apply w).inner.snapshot.Current := by
  rw [Section.snapshot_apply]
  cases hLinks : x.links with
  | false => exact Snapshot.current_keeps hCurrent (Section.decide_keeps hLinks)
  | true =>
    cases x with
    | operation o =>
      cases o with
      | startRunWithSession spaceId agentId spec sessionId drawn =>
        rw [Section.decide, Operation.decide, startRun_snapshot]
        split <;> exact hCurrent
      | attachRunToSession sid r => exact hCurrent
      | _ => cases hLinks
    | _ => cases hLinks

theorem current_afterSections (hCurrent : w.inner.snapshot.Current) (xs : List Section) :
    (afterSections w xs).inner.snapshot.Current := by
  induction xs generalizing w with
  | nil => exact hCurrent
  | cons x xs ih => exact ih (current_apply hCurrent x)

end Restart

/-- Whatever sections an authority has gone through since it was started from its file: its snapshot, once
saved, is loaded as what is stored of it; a restart pauses the runs that it interrupts, drops the
reviews, and changes nothing else; and another restart changes nothing. -/
theorem restart_keeps {Bytes : Type} (text : JsonText Bytes) {d d₁ : Files Bytes}
    {readFails : Option String} {faults : List (Option PersistenceError)} {clock : List Int}
    {w : RuntimeAuthority} (hStart : rehydrate (load text readFails d) faults clock = .ok w)
    (xs : List Section) {o : SaveOutcome Bytes}
    (hSave : save text (afterSections w xs).inner.snapshot o d = (.ok (), d₁))
    (hText : text.Reproduces (Snapshot.json.write (afterSections w xs).inner.snapshot)) :
    load text none d₁ = .ok (afterSections w xs).inner.snapshot.stored ∧
    ∀ readFails₁ o₁ faults₁ clock₁ w₁ d₂,
      restart text readFails₁ o₁ faults₁ clock₁ d₁ = (.ok w₁, d₂) →
      Rehydrated (clock₁.headD 0) (afterSections w xs).inner.snapshot.stored w₁.inner.snapshot ∧
      (text.Reproduces (Snapshot.json.write w₁.inner.snapshot) →
        ∀ readFails₂ o₂ faults₂ clock₂ w₂ d₃,
          restart text readFails₂ o₂ faults₂ clock₂ d₂ = (.ok w₂, d₃) →
          w₂.inner.snapshot = w₁.inner.snapshot ∧ d₃ = d₂) := by
  have hCurrent := current_afterSections (current_start hStart) xs
  generalize (afterSections w xs).inner.snapshot = s at hCurrent hSave hText ⊢
  have hFile : OnFile text s d₁ := by
    obtain ⟨e, hFails, -⟩ | hSaved := save_file text s o d
    · rw [hSave] at hFails
      cases hFails
    · rw [hSave] at hSaved
      exact ⟨by rw [(Prod.mk.inj hSaved).2], hText⟩
  refine ⟨load_onFile hFile hCurrent, fun readFails₁ o₁ faults₁ clock₁ w₁ d₂ hFirst => ?_⟩
  obtain ⟨hSnapshot, hFiles⟩ := restart_onFile hFile hCurrent hFirst
  refine ⟨hSnapshot ▸ rehydrated_recover s.stored _,
    fun hText₁ readFails₂ o₂ faults₂ clock₂ w₂ d₃ hSecond => ?_⟩
  obtain hWritten | ⟨rfl, hFresh⟩ := hFiles
  · -- the first restart has written what it recovered
    have hStored : w₁.inner.snapshot.stored = w₁.inner.snapshot := by
      rw [hSnapshot]
      exact congrArg (fun s : Snapshot => s.recover (clock₁.headD 0)) (stored_stored s)
    have hFresh : w₁.inner.snapshot.stored.isStale = false := by
      rw [hStored, hSnapshot]
      exact recover_fresh s.stored _
    have hCurrent₁ : w₁.inner.snapshot.Current := by
      rw [hSnapshot]
      exact hCurrent
    have hAgain := restart_fresh ⟨hWritten, hText₁⟩ hCurrent₁ hFresh hSecond
    rwa [hStored] at hAgain
  · have hAgain := restart_fresh hFile hCurrent hFresh hSecond
    rwa [hSnapshot, recover_of_fresh hFresh]

/-- All of the snapshot is written: it holds no memory, and no task that has ended with the output
`null`. -/
structure Snapshot.Durable (s : Snapshot) : Prop where
  memory : s.memory = ∅
  outputs : ∀ runId tree, s.taskTrees.lookup runId = some tree → ∀ taskId task,
    tree.tasks.lookup taskId = some task → ∀ d ∈ task.output, d.isNull = false

theorem Task.stored_eq_iff (t : Task) : t.stored = t ↔ ∀ d ∈ t.output, d.isNull = false := by
  rw [Task.stored]
  constructor
  · intro h d hd
    have hOutput := congrArg Task.output h
    rw [Option.mem_def.mp hd, Option.filter_eq_some_iff] at hOutput
    simpa using hOutput.2
  · intro h
    have hOutput : t.output.filter (fun d => !d.isNull) = t.output := by
      cases hd : t.output with
      | none => rfl
      | some d => simp [h d hd]
    rw [hOutput]

theorem Snapshot.stored_eq_iff (s : Snapshot) : s.stored = s ↔ s.Durable := by
  have hTree (tree : TaskTree) : (⟨tree.tasks.mapValues Task.stored⟩ : TaskTree) = tree ↔
      ∀ taskId task, tree.tasks.lookup taskId = some task → ∀ d ∈ task.output, d.isNull = false := by
    obtain ⟨tasks⟩ := tree
    rw [TaskTree.mk.injEq, Table.mapValues_eq_self]
    exact forall₃_congr fun _ task _ => task.stored_eq_iff
  have hTrees : s.taskTrees.mapValues (fun t => ⟨t.tasks.mapValues Task.stored⟩) = s.taskTrees ↔
      ∀ runId tree, s.taskTrees.lookup runId = some tree → ∀ taskId task,
        tree.tasks.lookup taskId = some task → ∀ d ∈ task.output, d.isNull = false :=
    Table.mapValues_eq_self.trans (forall₃_congr fun _ tree _ => hTree tree)
  constructor
  · intro h
    exact ⟨(congrArg Snapshot.memory h).symm, hTrees.mp (congrArg Snapshot.taskTrees h)⟩
  · rintro ⟨hMemory, hOutputs⟩
    rw [Snapshot.stored, hTrees.mpr hOutputs, ← hMemory]

/-- A file gives the snapshot back: loaded, it is the snapshot; a restart from it pauses the runs
that it interrupts, drops the reviews, and changes nothing else; and another restart changes
nothing. -/
structure GivesBack {Bytes : Type} (text : JsonText Bytes) (d : Files Bytes) (s : Snapshot) :
    Prop where
  loaded : load text none d = .ok s
  restarted : ∀ readFails₁ o₁ faults₁ clock₁ w₁ d₁,
    restart text readFails₁ o₁ faults₁ clock₁ d = (.ok w₁, d₁) →
      Rehydrated (clock₁.headD 0) s w₁.inner.snapshot ∧
      (text.Reproduces (Snapshot.json.write w₁.inner.snapshot) →
        ∀ readFails₂ o₂ faults₂ clock₂ w₂ d₂,
          restart text readFails₂ o₂ faults₂ clock₂ d₁ = (.ok w₂, d₂) →
          w₂.inner.snapshot = w₁.inner.snapshot ∧ d₂ = d₁)

/-- Whatever sections an authority has gone through since it was started from its file: the file that
it saves gives its snapshot back exactly when the snapshot holds no memory, and no task with the
output `null`. -/
theorem givesBack_iff {Bytes : Type} (text : JsonText Bytes) {d d₁ : Files Bytes}
    {readFails : Option String} {faults : List (Option PersistenceError)} {clock : List Int}
    {w : RuntimeAuthority} (hStart : rehydrate (load text readFails d) faults clock = .ok w)
    (xs : List Section) {o : SaveOutcome Bytes}
    (hSave : save text (afterSections w xs).inner.snapshot o d = (.ok (), d₁))
    (hText : text.Reproduces (Snapshot.json.write (afterSections w xs).inner.snapshot)) :
    GivesBack text d₁ (afterSections w xs).inner.snapshot ↔
      (afterSections w xs).inner.snapshot.Durable := by
  obtain ⟨hLoad, hRestart⟩ := restart_keeps text hStart xs hSave hText
  rw [← Snapshot.stored_eq_iff]
  constructor
  · intro h
    rw [h.loaded] at hLoad
    exact (Except.ok.inj hLoad).symm
  · intro hStored
    rw [hStored] at hLoad hRestart
    exact ⟨hLoad, hRestart⟩

def documentText : JsonText Value := ⟨id, .ok, fun _ => "not a snapshot"⟩

def savesWell : SaveOutcome Value := ⟨none, none, none, none⟩

def noFiles : Files Value := ⟨none, none⟩

/-- What the notes say. -/
def notes : MemoryNamespaceId := ⟨"notes"⟩

def remember : Call := .operation (.putMemory notes ⟨"plan", .string "ship it", 0⟩)

/-- The memory is acknowledged and saved, and it is not loaded again. -/
theorem memory_not_loaded :
    let w := remember.step (inMemory [])
    remember.result (inMemory []) = .ok .unit ∧
    save documentText w.inner.snapshot savesWell noFiles =
      (.ok (), ⟨some (Snapshot.json.write w.inner.snapshot), none⟩) ∧
    load documentText none ⟨some (Snapshot.json.write w.inner.snapshot), none⟩ ≠
      .ok w.inner.snapshot := by
  intro w
  have hCurrent : w.inner.snapshot.Current := rfl
  refine ⟨rfl, rfl, fun hLoad => ?_⟩
  have hFile : OnFile documentText w.inner.snapshot
      ⟨some (Snapshot.json.write w.inner.snapshot), none⟩ := ⟨rfl, rfl⟩
  rw [load_onFile hFile hCurrent] at hLoad
  have hMemory : ∅ = w.inner.snapshot.memory := congrArg Snapshot.memory (Except.ok.inj hLoad)
  have hNotes : (w.inner.snapshot.memory.lookup notes).isSome := rfl
  rw [← hMemory, Finmap.lookup_empty] at hNotes
  cases hNotes

def oneTask : List Section := [.operation (.upsertSpace ⟨home, "home", 80, 6⟩),
  .operation (.startRunWithSession home none .null none coder),
  .operation (.startChildTask coder none "tests" none none ⟨"t1"⟩),
  .operation (.completeChildTask coder ⟨"t1"⟩ (some (.string "green")) true)]

def taskDone : Snapshot := (afterSections (.start .empty .empty [] []) oneTask).inner.snapshot

theorem taskDone_durable : taskDone.Durable := by
  refine ⟨rfl, fun runId tree hTree taskId task hTask d hd => ?_⟩
  have hTrees : taskDone.taskTrees = endTask coder ⟨"t1"⟩ (some (.string "green")) true
      (addTask coder ⟨⟨"t1"⟩, none, "tests", none, none, .running, none, 0⟩ ∅) := rfl
  rw [hTrees, endTask, addTask, Table.lookup_modify, Table.lookup_insert_if] at hTree
  split at hTree
  · obtain rfl := Option.some.inj hTree
    rw [Table.lookup_modify, Table.lookup_insert_if] at hTask
    split at hTask
    · obtain rfl := Option.some.inj hTask
      obtain rfl := Option.some.inj hd
      rfl
    · cases hTask
  · cases hTree

/-- A run of a fresh install that has got the result of a task, saved, comes back. -/
theorem taskDone_comes_back :
    GivesBack documentText ⟨some (Snapshot.json.write taskDone), none⟩ taskDone :=
  (@givesBack_iff Value documentText noFiles _ none [] [] _ rfl oneTask savesWell rfl rfl).mpr
    taskDone_durable

end Cronymax.Authority
