import Cronymax.Atomic.History
import Cronymax.Table.Edits
import Cronymax.Llm.Sse
import Mathlib.Data.Countable.Basic
import Mathlib.Logic.Equiv.List

/-! The settings of an extension: a cache, and a file that every change writes anew.  The cache is
edited under its lock, the file is written after the lock has been released, through one temporary file
that all calls share. -/

namespace Cronymax.Extensions

open Atomic
open Llm (isWhitespace)

abbrev Settings (J : Type) := Table String J

/-- `serde_json` for settings: the text depends on the order in which the map is gone through. -/
structure ConfigCodec (J : Type) where
  render : Nat → Settings J → List Char
  parse : List Char → Option (Settings J)
  parse_render : ∀ order m, parse (render order m) = some m
  render_visible : ∀ order m, ¬(render order m).all isWhitespace

inductive ConfigError where
  | io
  | json
deriving DecidableEq

/-- The files, with the names of the settings and of the temporary file. -/
structure ConfigDisk where
  inodes : List (List Char)
  file : Option Nat
  tmp : Option Nat

structure ChangeEvent (J : Type) where
  key : String
  /-- `none` is `Value::Null`. -/
  newValue : Option J

/-- `ConfigStore`: what its lock guards, and the directory that it writes to. -/
structure ConfigStore (J : Type) where
  loaded : Bool
  cache : Settings J
  disk : ConfigDisk
  faults : List (Option Nat)
  notified : List (ChangeEvent J)

/-- A call that changes a setting. -/
inductive ConfigCall (J : Type) where
  | set (key : String) (value : J)
  | delete (key : String)

inductive ConfigAnswer where
  | stored
  | removed (was : Bool)

/-- What is next in `persist`; `notify` comes after it. -/
inductive SaveStage where
  | mkdir
  | create
  | write (handle : Nat)
  | sync
  | rename
  | notify
deriving DecidableEq

/-- What a call has to save. -/
structure Job (J : Type) where
  snapshot : Settings J
  order : Nat
  changed : Bool
  event : ChangeEvent J
  answer : ConfigAnswer

/-- How far a call has come. -/
inductive Phase (J : Type) where
  | start
  /-- `ensure_loaded` has returned. -/
  | ready
  | saving (stage : SaveStage) (job : Job J)
  | returned (result : Except ConfigError ConfigAnswer)

/-- A call in progress. -/
structure ConfigTask (J : Type) where
  call : ConfigCall J
  order : Nat
  phase : Phase J

/-- The store with the calls that are being made. -/
structure ConfigSystem (J : Type) where
  store : ConfigStore J
  tasks : List (ConfigTask J)
  sections : List Nat

/-- A call begins, or one makes its next step. -/
inductive ConfigStep (J : Type) where
  | call (call : ConfigCall J) (order : Nat)
  | run (task : Nat)

variable {J : Type} (codec : ConfigCodec J)

def ConfigCodec.contents (raw : List Char) : Option (Settings J) :=
  if raw.all isWhitespace then some ∅ else codec.parse raw

theorem ConfigCodec.contents_render (order : Nat) (m : Settings J) :
    codec.contents (codec.render order m) = some m := by
  rw [ConfigCodec.contents, if_neg (codec.render_visible order m), codec.parse_render]

namespace ConfigDisk

/-- What would be loaded. -/
def persisted (d : ConfigDisk) : Option (Settings J) :=
  match d.file with
  | none => some ∅
  | some i => codec.contents (d.inodes.getD i [])

/-- `File::create`: the file is truncated if it is there. -/
def create (d : ConfigDisk) : Nat × ConfigDisk :=
  match d.tmp with
  | some i => (i, { d with inodes := d.inodes.set i [] })
  | none => (d.inodes.length, { d with inodes := d.inodes ++ [[]], tmp := some d.inodes.length })

/-- A handle writes over what the file holds. -/
def write (d : ConfigDisk) (handle : Nat) (text : List Char) : ConfigDisk :=
  { d with inodes := d.inodes.modify handle fun old => text ++ old.drop text.length }

end ConfigDisk

namespace ConfigStore

variable (s : ConfigStore J)

def fault : Option Nat := s.faults.headD none

def next : ConfigStore J := { s with faults := s.faults.tail }

/-- `ensure_loaded`. -/
def ensureLoaded : Except ConfigError Unit × ConfigStore J :=
  if s.loaded then (.ok (), s)
  else
    match s.disk.file with
    | none => (.ok (), { s with loaded := true })
    | some i =>
      if s.fault.isSome then (.error .io, s.next)
      else
        match codec.contents (s.disk.inodes.getD i []) with
        | none => (.error .json, s.next)
        | some m => (.ok (), { s.next with cache := m, loaded := true })

/-- The section of a call that edits the cache. -/
def updateCache [DecidableEq J] (call : ConfigCall J) (order : Nat) : Phase J × ConfigStore J :=
  match call with
  | .set key value =>
    let cache := s.cache.insert key value
    (.saving .mkdir ⟨cache, order, s.cache.lookup key ≠ some value, ⟨key, some value⟩, .stored⟩,
      { s with cache })
  | .delete key =>
    if (s.cache.lookup key).isSome then
      let cache := s.cache.erase key
      (.saving .mkdir ⟨cache, order, true, ⟨key, none⟩, .removed true⟩, { s with cache })
    else (.returned (.ok (.removed false)), s)

/-- One operation of `persist`, or the callbacks. -/
def save (stage : SaveStage) (job : Job J) : Phase J × ConfigStore J :=
  let failed : Phase J := .returned (.error .io)
  match stage with
  | .mkdir => if s.fault.isSome then (failed, s.next) else (.saving .create job, s.next)
  | .create =>
    if s.fault.isSome then (failed, s.next)
    else (.saving (.write s.disk.create.1) job, { s.next with disk := s.disk.create.2 })
  | .write handle =>
    let text := codec.render job.order job.snapshot
    match s.fault with
    | some n => (failed, { s.next with disk := s.disk.write handle (text.take n) })
    | none => (.saving .sync job, { s.next with disk := s.disk.write handle text })
  | .sync => if s.fault.isSome then (failed, s.next) else (.saving .rename job, s.next)
  | .rename =>
    if s.fault.isSome then (failed, s.next)
    else
      match s.disk.tmp with
      | none => (failed, s.next)
      | some i => (.saving .notify job, { s.next with disk := { s.disk with file := some i, tmp := none } })
  | .notify =>
    (.returned (.ok job.answer),
      if job.changed then { s with notified := s.notified ++ [job.event] } else s)

end ConfigStore

namespace ConfigSystem

def start (disk : ConfigDisk) (faults : List (Option Nat)) : ConfigSystem J :=
  ⟨⟨false, ∅, disk, faults, []⟩, [], []⟩

variable (s : ConfigSystem J)

/-- A call goes on. -/
def goOn (i : Nat) (t : ConfigTask J) (next : Phase J × ConfigStore J) : ConfigSystem J :=
  { s with store := next.2, tasks := s.tasks.set i { t with phase := next.1 } }

/-- What a step does. -/
def step [DecidableEq J] (s : ConfigSystem J) : ConfigStep J → ConfigSystem J
  | .call call order => { s with tasks := s.tasks ++ [⟨call, order, .start⟩] }
  | .run i =>
    match s.tasks[i]? with
    | none => s
    | some t =>
      match t.phase with
      | .start =>
        match s.store.ensureLoaded codec with
        | (.ok (), store) => s.goOn i t (.ready, store)
        | (.error e, store) => s.goOn i t (.returned (.error e), store)
      | .ready => { s.goOn i t (s.store.updateCache t.call t.order) with sections := s.sections ++ [i] }
      | .saving stage job => s.goOn i t (s.store.save codec stage job)
      | .returned _ => s

end ConfigSystem

/-- What a call makes of the settings. -/
def ConfigCall.edit : ConfigCall J → Settings J → Settings J
  | .set key value => (·.insert key value)
  | .delete key => (·.erase key)

def Phase.isSaving : Phase J → Bool
  | .saving _ _ => true
  | _ => false

def Phase.isWaiting : Phase J → Bool
  | .start | .ready => true
  | _ => false

/-- The call, if it has come to its end well. -/
def ConfigTask.done (t : ConfigTask J) : Option (ConfigCall J) :=
  match t.phase with
  | .returned (.ok _) => some t.call
  | _ => none

namespace ConfigSystem

variable (s : ConfigSystem J)

/-- No call is left on its way. -/
def AtRest : Prop := ∀ t ∈ s.tasks, ∃ r, t.phase = .returned r

/-- The calls that have answered well, in the order of their sections. -/
def okCalls : List (ConfigCall J) := s.sections.filterMap fun i => s.tasks[i]?.bind (·.done)

@[grind =] def held (loaded : Option (Settings J)) : Option (Settings J) :=
  loaded.map fun m => s.okCalls.foldl (fun m c => c.edit m) m

/-- The cache is edited by one call at a time, and no file operation fails. -/
def Unhindered (s : ConfigSystem J) : ConfigStep J → Prop
  | .call _ _ => True
  | .run i => ∀ t, s.tasks[i]? = some t →
    (t.phase = .ready → ∀ t' ∈ s.tasks, ¬t'.phase.isSaving) ∧
      ∀ stage job, t.phase = .saving stage job → job.changed → stage ≠ .notify → s.store.fault = none

end ConfigSystem

/-- The two names stand for different inodes. -/
structure ConfigDisk.Tidy (d : ConfigDisk) : Prop where
  file : ∀ i ∈ d.file, i < d.inodes.length
  tmp : ∀ i ∈ d.tmp, i < d.inodes.length ∧ d.file ≠ some i

namespace ConfigDisk

variable {codec} {d : ConfigDisk}

theorem persisted_write (h : d.Tidy) {handle : Nat} (hTmp : d.tmp = some handle) (text : List Char) :
    (d.write handle text).persisted codec = d.persisted codec := by
  unfold persisted write
  cases hFile : d.file with
  | none => rfl
  | some i =>
    have hNe : handle ≠ i := by
      rintro rfl
      exact (h.tmp handle hTmp).2 hFile
    simp [List.getD_eq_getElem?_getD, hNe]

theorem Tidy.write (h : d.Tidy) (handle : Nat) (text : List Char) : (d.write handle text).Tidy where
  file i hi := by
    rw [ConfigDisk.write, List.length_modify]
    exact h.file i hi
  tmp i hi := by
    refine ⟨?_, (h.tmp i hi).2⟩
    rw [ConfigDisk.write, List.length_modify]
    exact (h.tmp i hi).1

theorem create_spec (h : d.Tidy) :
    d.create.2.Tidy ∧ d.create.2.tmp = some d.create.1 ∧ d.create.2.inodes[d.create.1]? = some [] ∧
      ∀ {J : Type} (codec : ConfigCodec J), d.create.2.persisted codec = d.persisted codec := by
  unfold create
  cases hTmp : d.tmp with
  | some i =>
    obtain ⟨hLt, hNe⟩ := h.tmp i hTmp
    refine ⟨⟨fun j hj => ?_, fun j hj => ?_⟩, rfl, ?_, fun codec => ?_⟩
    · simpa using h.file j hj
    · obtain rfl : i = j := Option.some.inj hj
      exact ⟨by simpa using hLt, hNe⟩
    · simp [List.getElem?_set_self hLt]
    · unfold persisted
      cases hFile : d.file with
      | none => rfl
      | some j =>
        have : i ≠ j := by
          rintro rfl
          exact hNe hFile
        simp [List.getD_eq_getElem?_getD, List.getElem?_set_ne this]
  | none =>
    refine ⟨⟨fun j hj => ?_, fun j hj => ?_⟩, rfl, by simp, fun codec => ?_⟩
    · have := h.file j hj
      simp only [List.length_append, List.length_singleton]
      omega
    · obtain rfl : d.inodes.length = j := Option.some.inj hj
      refine ⟨by simp, fun hFile => ?_⟩
      exact lt_irrefl _ (h.file _ hFile)
    · unfold persisted
      cases hFile : d.file with
      | none => rfl
      | some j =>
        have := h.file j hFile
        simp [List.getD_eq_getElem?_getD, List.getElem?_append_left this]

end ConfigDisk

section Tasks

variable {tasks : List (ConfigTask J)} {i j : Nat} {t t' : ConfigTask J} {sections : List Nat}

def doneAt (tasks : List (ConfigTask J)) (i : Nat) : Option (ConfigCall J) := tasks[i]?.bind (·.done)

theorem filterMap_doneAt_congr {tasks' : List (ConfigTask J)}
    (h : ∀ i ∈ sections, doneAt tasks' i = doneAt tasks i) :
    sections.filterMap (doneAt tasks') = sections.filterMap (doneAt tasks) :=
  List.filterMap_congr h

theorem doneAt_set_ne (h : i ≠ j) : doneAt (tasks.set i t) j = doneAt tasks j := by
  unfold doneAt
  rw [List.getElem?_set_ne h]

theorem doneAt_set_self (h : tasks[i]? = some t') : doneAt (tasks.set i t) i = t.done := by
  unfold doneAt
  rw [List.getElem?_set_self (List.getElem?_eq_some_iff.mp h).1]
  rfl

theorem doneAt_append (h : i < tasks.length) : doneAt (tasks ++ [t]) i = doneAt tasks i := by
  unfold doneAt
  rw [List.getElem?_append_left h]

end Tasks

/-- What the disk holds before each step of a save. -/
def SaveStage.Reached (codec : ConfigCodec J) (d : ConfigDisk) (job : Job J) (old : Settings J) : SaveStage → Prop
  | .mkdir | .create => d.persisted codec = some old
  | .write handle =>
    d.persisted codec = some old ∧ d.tmp = some handle ∧ d.inodes[handle]? = some []
  | .sync | .rename => d.persisted codec = some old ∧
    ∃ handle, d.tmp = some handle ∧ d.inodes[handle]? = some (codec.render job.order job.snapshot)
  | .notify => d.persisted codec = some job.snapshot

namespace ConfigSystem

/-- The call that is between its edit of the cache and its return. -/
structure Busy (codec : ConfigCodec J) (base : Option (Settings J)) (s : ConfigSystem J) (i : Nat)
    (t : ConfigTask J) (stage : SaveStage) (job : Job J) (old : Settings J) : Prop where
  task : s.tasks[i]? = some t
  phase : t.phase = .saving stage job
  alone : ∀ j t', s.tasks[j]? = some t' → t'.phase.isSaving → j = i
  last : ∃ before, s.sections = before ++ [i]
  loaded : s.store.loaded
  held : s.held base = some old
  cache : s.store.cache = job.snapshot
  edited : job.snapshot = t.call.edit old
  same : ¬job.changed → job.snapshot = old
  reached : stage.Reached codec s.store.disk job old

/-- No call is between its edit of the cache and its return. -/
structure Quiet (codec : ConfigCodec J) (base : Option (Settings J)) (s : ConfigSystem J) : Prop where
  still : ∀ t ∈ s.tasks, ¬t.phase.isSaving
  held : s.store.disk.persisted codec = s.held base
  cache : s.store.loaded → s.store.disk.persisted codec = some s.store.cache

/-- What unhindered steps keep. -/
structure Kept (codec : ConfigCodec J) (base : Option (Settings J)) (s : ConfigSystem J) : Prop where
  tidy : s.store.disk.Tidy
  nodup : s.sections.Nodup
  listed : ∀ i ∈ s.sections, ∃ t, s.tasks[i]? = some t ∧ t.phase.isWaiting = false
  waiting : ∀ t ∈ s.tasks, t.phase ≠ .start → ¬s.store.loaded → ∃ e, t.phase = .returned (.error e)
  fresh : ¬s.store.loaded → s.store.cache = ∅
  state : Quiet codec base s ∨ ∃ i t stage job old, Busy codec base s i t stage job old

variable {codec} {base : Option (Settings J)} {s : ConfigSystem J}

theorem mem_set_cases {tasks : List (ConfigTask J)} {i : Nat} {t t' : ConfigTask J}
    (h : t' ∈ tasks.set i t) : t' = t ∨ t' ∈ tasks :=
  (List.mem_or_eq_of_mem_set h).symm

theorem okCalls_goOn {i : Nat} {t : ConfigTask J} {next : Phase J × ConfigStore J}
    (hTask : s.tasks[i]? = some t) (hOld : t.done = none)
    (hNew : ({ t with phase := next.1 } : ConfigTask J).done = none) :
    (s.goOn i t next).okCalls = s.okCalls := by
  refine filterMap_doneAt_congr fun j _ => ?_
  show doneAt (s.tasks.set i _) j = doneAt s.tasks j
  by_cases hIdx : i = j
  · subst hIdx
    rw [doneAt_set_self hTask, hNew, doneAt, hTask]
    exact hOld.symm
  · exact doneAt_set_ne hIdx

theorem okCalls_returned {i : Nat} {t : ConfigTask J} {next : Phase J × ConfigStore J}
    {before : List Nat} (hTask : s.tasks[i]? = some t) (hOld : t.done = none)
    (hNew : ({ t with phase := next.1 } : ConfigTask J).done = some t.call) (hNodup : s.sections.Nodup)
    (hLast : s.sections = before ++ [i]) : (s.goOn i t next).okCalls = s.okCalls ++ [t.call] := by
  have hNot : i ∉ before := by
    rw [hLast] at hNodup
    exact fun hMem => (List.nodup_append.mp hNodup).2.2 i hMem i (List.mem_singleton_self i) rfl
  have hBefore : before.filterMap (doneAt (s.tasks.set i { t with phase := next.1 })) =
      before.filterMap (doneAt s.tasks) :=
    filterMap_doneAt_congr fun j hj => doneAt_set_ne fun hEq => hNot (hEq ▸ hj)
  show s.sections.filterMap (doneAt (s.tasks.set i _)) = s.sections.filterMap (doneAt s.tasks) ++ _
  rw [hLast, List.filterMap_append, List.filterMap_append, hBefore, List.append_assoc]
  congr 1
  have hNow : doneAt s.tasks i = none := by
    rw [doneAt, hTask]
    exact hOld
  have hThen : doneAt (s.tasks.set i { t with phase := next.1 }) i = some t.call := by
    rw [doneAt_set_self hTask, hNew]
  simp [hNow, hThen]

theorem kept_start (disk : ConfigDisk) (hTidy : disk.Tidy) (faults : List (Option Nat)) :
    Kept codec (disk.persisted codec) (start disk faults) where
  tidy := hTidy
  nodup := List.nodup_nil
  listed i hi := by cases hi
  waiting t ht := by cases ht
  fresh _ := rfl
  state := by
    refine .inl ⟨fun t ht => ?_, ?_, fun hLoaded => ?_⟩
    · cases ht
    · show _ = (disk.persisted codec).map fun m => m
      rw [Option.map_id']
      rfl
    · cases hLoaded

theorem mem_getElem? {tasks : List (ConfigTask J)} {i : Nat} {t : ConfigTask J} (h : tasks[i]? = some t) :
    t ∈ tasks := List.mem_of_getElem? h

theorem Kept.goOn (h : Kept codec base s) {i : Nat} {t : ConfigTask J} {next : Phase J × ConfigStore J}
    (hTask : s.tasks[i]? = some t) (hTidy : next.2.disk.Tidy)
    (hListed : i ∈ s.sections → next.1.isWaiting = false)
    (hLoaded : s.store.loaded → next.2.loaded)
    (hWaiting : ¬next.2.loaded → next.2.cache = ∅ ∧ ∃ e, next.1 = .returned (.error e))
    (hState : Quiet codec base (s.goOn i t next) ∨
      ∃ i' t' stage job old, Busy codec base (s.goOn i t next) i' t' stage job old) :
    Kept codec base (s.goOn i t next) where
  tidy := hTidy
  nodup := h.nodup
  listed j hj := by
    by_cases hIdx : i = j
    · subst hIdx
      exact ⟨_, List.getElem?_set_self (List.getElem?_eq_some_iff.mp hTask).1, hListed hj⟩
    · obtain ⟨t', ht', hPhase⟩ := h.listed j hj
      exact ⟨t', (List.getElem?_set_ne hIdx).trans ht', hPhase⟩
  waiting t' ht' hPhase hNot := by
    rcases mem_set_cases ht' with rfl | hOld
    · exact (hWaiting hNot).2
    · exact h.waiting t' hOld hPhase fun hNow => hNot (hLoaded hNow)
  fresh hNot := (hWaiting hNot).1
  state := hState

theorem Busy.eq {i j : Nat} {t t' : ConfigTask J} {stage : SaveStage} {job : Job J} {old : Settings J}
    (h : Busy codec base s i t stage job old) (hTask : s.tasks[j]? = some t') (hSaving : t'.phase.isSaving) :
    j = i ∧ t' = t := by
  have hIdx := h.alone j t' hTask hSaving
  subst hIdx
  exact ⟨rfl, Option.some.inj (hTask.symm.trans h.task)⟩

theorem Busy.aside {i j : Nat} {t t' : ConfigTask J} {stage : SaveStage} {job : Job J} {old : Settings J}
    (h : Busy codec base s i t stage job old) (hTask : s.tasks[j]? = some t') (hNe : j ≠ i)
    {phase : Phase J} (hOld : t'.done = none) (hNew : ({ t' with phase } : ConfigTask J).done = none)
    (hPhase : ¬phase.isSaving) :
    Busy codec base (s.goOn j t' (phase, s.store)) i t stage job old where
  task := (List.getElem?_set_ne hNe).trans h.task
  phase := h.phase
  alone k t'' hk hSaving := by
    by_cases hIdx : j = k
    · subst hIdx
      replace hk : (s.tasks.set j _)[j]? = some t'' := hk
      rw [List.getElem?_set_self (List.getElem?_eq_some_iff.mp hTask).1] at hk
      obtain rfl := Option.some.inj hk
      exact absurd hSaving hPhase
    · exact h.alone k t'' ((List.getElem?_set_ne hIdx).symm.trans hk) hSaving
  last := h.last
  loaded := h.loaded
  held := by
    rw [← h.held]
    unfold ConfigSystem.held
    rw [okCalls_goOn hTask hOld hNew]
  cache := h.cache
  edited := h.edited
  same := h.same
  reached := h.reached

theorem Quiet.aside (h : Quiet codec base s) {i : Nat} {t : ConfigTask J} {next : Phase J × ConfigStore J}
    (hTask : s.tasks[i]? = some t) (hOld : t.done = none)
    (hNew : ({ t with phase := next.1 } : ConfigTask J).done = none) (hPhase : ¬next.1.isSaving)
    (hDisk : next.2.disk = s.store.disk)
    (hCache : next.2.loaded → s.store.disk.persisted codec = some next.2.cache) :
    Quiet codec base (s.goOn i t next) where
  still t' ht' := by
    rcases mem_set_cases ht' with rfl | hMem
    · exact hPhase
    · exact h.still t' hMem
  held := by
    show next.2.disk.persisted codec = _
    rw [hDisk, h.held]
    unfold ConfigSystem.held
    rw [okCalls_goOn hTask hOld hNew]
  cache hLoaded := by
    show next.2.disk.persisted codec = _
    rw [hDisk]
    exact hCache hLoaded

theorem Kept.ensureLoaded (h : Kept codec base s) :
    (∃ store, s.store.ensureLoaded codec = (.ok (), store) ∧ store.disk = s.store.disk ∧ store.loaded ∧
      (s.store.loaded → store = s.store) ∧
      (¬s.store.loaded → s.store.disk.persisted codec = some store.cache)) ∨
    ∃ e, s.store.ensureLoaded codec = (.error e, s.store.next) ∧ ¬s.store.loaded := by
  unfold ConfigStore.ensureLoaded
  split
  · rename_i hLoaded
    exact .inl ⟨s.store, rfl, rfl, hLoaded, fun _ => rfl, fun hNot => absurd hLoaded hNot⟩
  · rename_i hNot
    split
    · rename_i hFile
      refine .inl ⟨_, rfl, rfl, rfl, fun hLoaded => absurd hLoaded hNot, fun _ => ?_⟩
      unfold ConfigDisk.persisted
      rw [hFile]
      exact congrArg some (h.fresh hNot).symm
    · rename_i i hFile
      split
      · exact .inr ⟨.io, rfl, hNot⟩
      · split
        · exact .inr ⟨.json, rfl, hNot⟩
        · rename_i m hContents
          refine .inl ⟨_, rfl, rfl, rfl, fun hLoaded => absurd hLoaded hNot, fun _ => ?_⟩
          unfold ConfigDisk.persisted
          rw [hFile]
          exact hContents

theorem Kept.load (h : Kept codec base s) {i : Nat} {t : ConfigTask J} (hTask : s.tasks[i]? = some t)
    (hStart : t.phase = .start) :
    (∀ store, s.store.ensureLoaded codec = (.ok (), store) → Kept codec base (s.goOn i t (.ready, store))) ∧
      ∀ e store, s.store.ensureLoaded codec = (.error e, store) →
        Kept codec base (s.goOn i t (.returned (.error e), store)) := by
  have hOld : t.done = none := by rw [ConfigTask.done, hStart]
  have hNot : i ∉ s.sections := by
    intro hMem
    obtain ⟨t', ht', hPhase⟩ := h.listed i hMem
    obtain rfl := Option.some.inj (hTask.symm.trans ht')
    rw [hStart] at hPhase
    cases hPhase
  constructor
  · intro store hOk
    rcases h.ensureLoaded with ⟨store', hOk', hDisk, hLoaded, hSame, hNew⟩ | ⟨e, hErr, -⟩
    · obtain rfl : store' = store := congrArg Prod.snd (hOk'.symm.trans hOk)
      refine h.goOn hTask (hDisk ▸ h.tidy) (fun hMem => absurd hMem hNot) (fun _ => hLoaded)
        (fun hNow => absurd hLoaded hNow) ?_
      rcases h.state with hQuiet | ⟨j, t', stage, job, old, hBusy⟩
      · refine .inl (hQuiet.aside hTask hOld rfl (by simp [Phase.isSaving]) hDisk fun _ => ?_)
        by_cases hWas : s.store.loaded
        · rw [hSame hWas]
          exact hQuiet.cache hWas
        · exact hNew hWas
      · have hNe : i ≠ j := by
          rintro rfl
          obtain rfl := Option.some.inj (hTask.symm.trans hBusy.task)
          cases hStart.symm.trans hBusy.phase
        rw [hSame hBusy.loaded]
        exact .inr ⟨j, t', stage, job, old,
          hBusy.aside hTask hNe hOld rfl (by simp [Phase.isSaving])⟩
    · rw [hErr] at hOk
      cases hOk
  · intro e store hErr
    rcases h.ensureLoaded with ⟨store', hOk', -⟩ | ⟨e', hErr', hWas⟩
    · rw [hOk'] at hErr
      cases hErr
    · obtain rfl : s.store.next = store := congrArg Prod.snd (hErr'.symm.trans hErr)
      refine h.goOn hTask h.tidy (fun hMem => absurd hMem hNot) (fun hNow => hNow)
        (fun hNow => ⟨h.fresh hNow, e, rfl⟩) ?_
      rcases h.state with hQuiet | ⟨j, t', stage, job, old, hBusy⟩
      · exact .inl (hQuiet.aside hTask hOld rfl (by simp [Phase.isSaving]) rfl fun hNow => absurd hNow hWas)
      · exact absurd hBusy.loaded hWas

def edited (s : ConfigSystem J) (i : Nat) (t : ConfigTask J) (next : Phase J × ConfigStore J) :
    ConfigSystem J :=
  { s.goOn i t next with sections := s.sections ++ [i] }

theorem okCalls_edited {i : Nat} {t : ConfigTask J} {next : Phase J × ConfigStore J}
    (hTask : s.tasks[i]? = some t) (hNot : i ∉ s.sections) :
    (s.edited i t next).okCalls =
      s.okCalls ++ ({ t with phase := next.1 } : ConfigTask J).done.toList := by
  have hBefore : s.sections.filterMap (doneAt (s.tasks.set i { t with phase := next.1 })) =
      s.sections.filterMap (doneAt s.tasks) :=
    filterMap_doneAt_congr fun j hj => doneAt_set_ne fun hEq => hNot (hEq ▸ hj)
  show (s.sections ++ [i]).filterMap (doneAt (s.tasks.set i _)) = s.sections.filterMap (doneAt s.tasks) ++ _
  rw [List.filterMap_append, hBefore]
  congr 1
  have hThen := doneAt_set_self (t := { t with phase := next.1 }) hTask
  cases hDone : ({ t with phase := next.1 } : ConfigTask J).done with
  | none => simp [hThen, hDone]
  | some c => simp [hThen, hDone]

theorem Quiet.begin (h : Quiet codec base s) {i : Nat} {t : ConfigTask J} {job : Job J}
    (hTask : s.tasks[i]? = some t) (hNot : i ∉ s.sections) (hLoaded : s.store.loaded)
    (hEdit : job.snapshot = t.call.edit s.store.cache)
    (hSame : ¬job.changed → job.snapshot = s.store.cache) :
    Busy codec base (s.edited i t (.saving .mkdir job, { s.store with cache := job.snapshot })) i
      { t with phase := .saving .mkdir job } .mkdir job s.store.cache where
  task := List.getElem?_set_self (List.getElem?_eq_some_iff.mp hTask).1
  phase := rfl
  alone j t' hj hSaving := by
    by_contra hNe
    have hOld : s.tasks[j]? = some t' := (List.getElem?_set_ne (Ne.symm hNe)).symm.trans hj
    exact h.still t' (mem_getElem? hOld) hSaving
  last := ⟨s.sections, rfl⟩
  loaded := hLoaded
  held := by
    rw [ConfigSystem.held, okCalls_edited hTask hNot]
    show base.map (fun m => (s.okCalls ++ []).foldl (fun m c => ConfigCall.edit c m) m) = some s.store.cache
    rw [List.append_nil]
    exact h.held.symm.trans (h.cache hLoaded)
  cache := rfl
  edited := hEdit
  same := hSame
  reached := h.cache hLoaded

theorem erase_absent {m : Settings J} {key : String} (h : m.lookup key = none) : m.erase key = m := by
  refine Finmap.ext_lookup fun k => ?_
  by_cases hKey : k = key
  · rw [hKey, Finmap.lookup_erase, h]
  · rw [Finmap.lookup_erase_ne hKey]

theorem Kept.update [DecidableEq J] (h : Kept codec base s) {i : Nat} {t : ConfigTask J}
    (hTask : s.tasks[i]? = some t) (hReady : t.phase = .ready) (hAlone : ∀ t' ∈ s.tasks, ¬t'.phase.isSaving) :
    Kept codec base (s.edited i t (s.store.updateCache t.call t.order)) := by
  have hNot : i ∉ s.sections := by
    intro hMem
    obtain ⟨t', ht', hPhase⟩ := h.listed i hMem
    obtain rfl := Option.some.inj (hTask.symm.trans ht')
    rw [hReady] at hPhase
    cases hPhase
  have hLoaded : s.store.loaded := by
    by_contra hNo
    have hPhase : t.phase ≠ .start := by
      rw [hReady]
      exact fun hEq => (by cases hEq)
    obtain ⟨e, hErr⟩ := h.waiting t (mem_getElem? hTask) hPhase hNo
    cases hReady.symm.trans hErr
  have hQuiet : Quiet codec base s := by
    rcases h.state with hQuiet | ⟨j, t', stage, job, old, hBusy⟩
    · exact hQuiet
    · exact absurd (by rw [hBusy.phase]; rfl) (hAlone t' (mem_getElem? hBusy.task))
  -- What does not depend on the call.
  have hKept {next : Phase J × ConfigStore J} (hDisk : next.2.disk = s.store.disk)
      (hStill : next.2.loaded = s.store.loaded) (hPhase : next.1.isWaiting = false)
      (hState : Quiet codec base (s.edited i t next) ∨
        ∃ i' t' stage job old, Busy codec base (s.edited i t next) i' t' stage job old) :
      Kept codec base (s.edited i t next) := by
    refine ⟨?_, ?_, fun j hj => ?_, fun t' ht' hStart hNo => ?_, fun hNo => ?_, hState⟩
    · show next.2.disk.Tidy
      rw [hDisk]
      exact h.tidy
    · show (s.sections ++ [i]).Nodup
      rw [← List.concat_eq_append, List.nodup_concat]
      exact ⟨hNot, h.nodup⟩
    · by_cases hIdx : i = j
      · subst hIdx
        exact ⟨_, List.getElem?_set_self (List.getElem?_eq_some_iff.mp hTask).1, hPhase⟩
      · have hOld : j ∈ s.sections := by
          rcases List.mem_append.mp hj with hMem | hMem
          · exact hMem
          · exact absurd (List.mem_singleton.mp hMem).symm hIdx
        obtain ⟨t', ht', hBoth⟩ := h.listed j hOld
        exact ⟨t', (List.getElem?_set_ne hIdx).trans ht', hBoth⟩
    · exact absurd hLoaded (hStill ▸ hNo)
    · exact absurd hLoaded (hStill ▸ hNo)
  cases hCall : t.call with
  | set key value =>
    refine hKept rfl rfl rfl (.inr ⟨i, _, _, _, _,
      hQuiet.begin hTask hNot hLoaded ?_ fun hSame => ?_⟩)
    · rw [hCall]
      rfl
    · have hThere : s.store.cache.lookup key = some value := by
        by_contra hNe
        exact hSame (decide_eq_true hNe)
      exact Table.insert_eq_self.mpr hThere
  | delete key =>
    unfold ConfigStore.updateCache
    simp only
    split
    · refine hKept rfl rfl rfl (.inr ⟨i, _, _, _, _,
        hQuiet.begin hTask hNot hLoaded ?_ fun hSame => absurd rfl hSame⟩)
      rw [hCall]
      rfl
    · rename_i hAbsent
      have hNone : s.store.cache.lookup key = none := by simpa using hAbsent
      refine hKept rfl rfl rfl (.inl ⟨fun t' ht' => ?_, ?_, fun _ => ?_⟩)
      · rcases mem_set_cases ht' with rfl | hMem
        · simp [Phase.isSaving]
        · exact hQuiet.still t' hMem
      · -- The call has deleted nothing.
        show s.store.disk.persisted codec = _
        rw [ConfigSystem.held, okCalls_edited hTask hNot]
        have hHeld : s.held base = some s.store.cache := hQuiet.held.symm.trans (hQuiet.cache hLoaded)
        obtain ⟨m, hm, hFold⟩ := Option.map_eq_some_iff.mp hHeld
        rw [hQuiet.cache hLoaded, hm]
        show some s.store.cache =
          some ((s.okCalls ++ [t.call]).foldl (fun m c => ConfigCall.edit c m) m)
        rw [List.foldl_append, hFold, hCall]
        exact congrArg some (erase_absent hNone).symm
      · exact hQuiet.cache hLoaded

section Saving

variable {i : Nat} {t : ConfigTask J} {stage stage' : SaveStage} {job : Job J} {old : Settings J}
  {store : ConfigStore J}

theorem Busy.done (h : Busy codec base s i t stage job old) : t.done = none := by
  rw [ConfigTask.done, h.phase]

theorem Busy.forward (h : Busy codec base s i t stage job old) (hLoaded : store.loaded = s.store.loaded)
    (hCache : store.cache = s.store.cache) (hReached : stage'.Reached codec store.disk job old) :
    Busy codec base (s.goOn i t (.saving stage' job, store)) i { t with phase := .saving stage' job } stage'
      job old where
  task := List.getElem?_set_self (List.getElem?_eq_some_iff.mp h.task).1
  phase := rfl
  alone j t' hj hSaving := by
    by_contra hNe
    exact hNe (h.alone j t' ((List.getElem?_set_ne (Ne.symm hNe)).symm.trans hj) hSaving)
  last := h.last
  loaded := hLoaded.trans h.loaded
  held := by
    rw [ConfigSystem.held, okCalls_goOn h.task h.done rfl]
    exact h.held
  cache := hCache.trans h.cache
  edited := h.edited
  same := h.same
  reached := hReached

theorem Busy.still (h : Busy codec base s i t stage job old) (r : Except ConfigError ConfigAnswer) :
    ∀ t' ∈ (s.goOn i t (.returned r, store)).tasks, ¬t'.phase.isSaving := by
  intro t' ht' hSaving
  obtain ⟨j, hj⟩ := List.mem_iff_getElem?.mp ht'
  by_cases hIdx : i = j
  · subst hIdx
    replace hj : (s.tasks.set i { t with phase := .returned r })[i]? = some t' := hj
    rw [List.getElem?_set_self (List.getElem?_eq_some_iff.mp h.task).1] at hj
    obtain rfl := Option.some.inj hj
    cases hSaving
  · exact hIdx (h.alone j t' ((List.getElem?_set_ne hIdx).symm.trans hj) hSaving).symm

theorem Busy.failed (h : Busy codec base s i t stage job old) (hSame : ¬job.changed)
    (hCache : store.cache = s.store.cache) (hDisk : store.disk.persisted codec = some old)
    (e : ConfigError) : Quiet codec base (s.goOn i t (.returned (.error e), store)) where
  still := h.still _
  held := by
    rw [ConfigSystem.held, okCalls_goOn h.task h.done rfl]
    exact hDisk.trans h.held.symm
  cache _ := by
    show store.disk.persisted codec = some store.cache
    rw [hDisk, hCache, h.cache, h.same hSame]

theorem Busy.returned (h : Busy codec base s i t .notify job old) (hNodup : s.sections.Nodup)
    (hCache : store.cache = s.store.cache) (hDisk : store.disk = s.store.disk) :
    Quiet codec base (s.goOn i t (.returned (.ok job.answer), store)) where
  still := h.still _
  held := by
    obtain ⟨before, hLast⟩ := h.last
    show store.disk.persisted codec = _
    rw [ConfigSystem.held, okCalls_returned h.task h.done rfl hNodup hLast, hDisk]
    obtain ⟨m, hm, hFold⟩ := Option.map_eq_some_iff.mp h.held
    have hReached : s.store.disk.persisted codec = some job.snapshot := h.reached
    rw [hReached, hm, Option.map_some, List.foldl_append, hFold, h.edited]
    rfl
  cache _ := by
    show store.disk.persisted codec = some store.cache
    rw [hDisk, hCache, h.cache]
    exact h.reached

theorem Kept.save (h : Kept codec base s) (hTask : s.tasks[i]? = some t)
    (hPhase : t.phase = .saving stage job)
    (hFault : job.changed → stage ≠ .notify → s.store.fault = none) :
    Kept codec base (s.goOn i t (s.store.save codec stage job)) := by
  have hSaving : t.phase.isSaving := by
    rw [hPhase]
    rfl
  obtain ⟨old, hBusy⟩ : ∃ old, Busy codec base s i t stage job old := by
    rcases h.state with hQuiet | ⟨j, t', stage', job', old, hBusy⟩
    · exact absurd hSaving (hQuiet.still t (mem_getElem? hTask))
    · obtain ⟨rfl, rfl⟩ := hBusy.eq hTask hSaving
      obtain ⟨rfl, rfl⟩ := Phase.saving.inj (hPhase.symm.trans hBusy.phase)
      exact ⟨old, hBusy⟩
  have hSame (hStage : stage ≠ .notify) (hFails : s.store.fault.isSome) : ¬job.changed := by
    intro hChanged
    rw [hFault hChanged hStage] at hFails
    cases hFails
  have hGo {next : Phase J × ConfigStore J} (hTidy : next.2.disk.Tidy)
      (hLoaded : next.2.loaded = s.store.loaded) (hNext : next.1.isWaiting = false)
      (hState : Quiet codec base (s.goOn i t next) ∨
        ∃ i' t' stage job old, Busy codec base (s.goOn i t next) i' t' stage job old) :
      Kept codec base (s.goOn i t next) :=
    h.goOn hTask hTidy (fun _ => hNext) (fun hNow => hLoaded.trans hNow)
      (fun hNot => absurd (hLoaded.trans hBusy.loaded) hNot) hState
  have hReached := hBusy.reached
  cases stage with
  | mkdir =>
    unfold ConfigStore.save
    simp only
    split
    · rename_i hFails
      have hSame := hSame (fun hEq => by cases hEq) hFails
      refine hGo h.tidy rfl rfl (.inl (hBusy.failed hSame (by rfl) ?_ .io))
      exact hReached
    · exact hGo h.tidy rfl rfl (.inr ⟨i, _, _, _, _, hBusy.forward (by rfl) (by rfl) hReached⟩)
  | create =>
    unfold ConfigStore.save
    simp only
    split
    · rename_i hFails
      have hSame := hSame (fun hEq => by cases hEq) hFails
      refine hGo h.tidy rfl rfl (.inl (hBusy.failed hSame (by rfl) ?_ .io))
      exact hReached
    · obtain ⟨hTidy, hTmp, hEmpty, hPersisted⟩ := ConfigDisk.create_spec h.tidy
      refine hGo hTidy rfl rfl (.inr ⟨i, _, _, _, _, hBusy.forward (by rfl) (by rfl) ?_⟩)
      exact ⟨(hPersisted codec).trans hReached, hTmp, hEmpty⟩
  | write handle =>
    obtain ⟨hOld, hTmp, hEmpty⟩ := hReached
    unfold ConfigStore.save
    simp only
    split
    · rename_i n hFails
      have hSame := hSame (fun hEq => by cases hEq) (by rw [hFails]; rfl)
      refine hGo (h.tidy.write handle _) rfl rfl (.inl (hBusy.failed hSame (by rfl) ?_ .io))
      exact (ConfigDisk.persisted_write h.tidy hTmp _).trans hOld
    · refine hGo (h.tidy.write handle _) rfl rfl (.inr ⟨i, _, _, _, _, hBusy.forward (by rfl) (by rfl) ?_⟩)
      refine ⟨(ConfigDisk.persisted_write h.tidy hTmp _).trans hOld, handle, hTmp, ?_⟩
      simp [ConfigDisk.write, hEmpty]
  | sync =>
    unfold ConfigStore.save
    simp only
    split
    · rename_i hFails
      have hSame := hSame (fun hEq => by cases hEq) hFails
      refine hGo h.tidy rfl rfl (.inl (hBusy.failed hSame (by rfl) ?_ .io))
      exact hReached.1
    · exact hGo h.tidy rfl rfl (.inr ⟨i, _, _, _, _, hBusy.forward (by rfl) (by rfl) hReached⟩)
  | rename =>
    obtain ⟨hOld, handle, hTmp, hText⟩ := hReached
    unfold ConfigStore.save
    simp only
    split
    · rename_i hFails
      have hSame := hSame (fun hEq => by cases hEq) hFails
      refine hGo h.tidy rfl rfl (.inl (hBusy.failed hSame (by rfl) ?_ .io))
      exact hOld
    · rw [hTmp]
      refine hGo ⟨fun j hj => ?_, fun j hj => by cases hj⟩ rfl rfl
        (.inr ⟨i, _, _, _, _, hBusy.forward (by rfl) (by rfl) ?_⟩)
      · obtain rfl : handle = j := Option.some.inj hj
        exact (h.tidy.tmp handle hTmp).1
      · show ConfigDisk.persisted codec _ = some job.snapshot
        unfold ConfigDisk.persisted
        show codec.contents (s.store.disk.inodes.getD handle []) = _
        rw [List.getD_eq_getElem?_getD, hText]
        exact codec.contents_render job.order job.snapshot
  | notify =>
    unfold ConfigStore.save
    simp only
    split
    · exact hGo h.tidy rfl rfl (.inl (hBusy.returned h.nodup (by rfl) (by rfl)))
    · exact hGo h.tidy rfl rfl (.inl (hBusy.returned h.nodup (by rfl) (by rfl)))

end Saving

theorem Kept.call (h : Kept codec base s) (t : ConfigTask J) (hStart : t.phase = .start) :
    Kept codec base { s with tasks := s.tasks ++ [t] } := by
  have hBelow : ∀ i ∈ s.sections, i < s.tasks.length := by
    intro i hi
    obtain ⟨t', ht', -⟩ := h.listed i hi
    exact (List.getElem?_eq_some_iff.mp ht').1
  have hOk : ({ s with tasks := s.tasks ++ [t] } : ConfigSystem J).okCalls = s.okCalls :=
    filterMap_doneAt_congr fun i hi => doneAt_append (hBelow i hi)
  have hHeld : ({ s with tasks := s.tasks ++ [t] } : ConfigSystem J).held base = s.held base := by
    rw [held, hOk]
    rfl
  refine ⟨h.tidy, h.nodup, fun i hi => ?_, fun t' ht' hPhase hNot => ?_, h.fresh, ?_⟩
  · obtain ⟨t', ht', hPhase⟩ := h.listed i hi
    exact ⟨t', (List.getElem?_append_left (hBelow i hi)).trans ht', hPhase⟩
  · rcases List.mem_append.mp ht' with hOld | hNew
    · exact h.waiting t' hOld hPhase hNot
    · rw [List.mem_singleton.mp hNew] at hPhase
      exact absurd hStart hPhase
  · rcases h.state with hQuiet | ⟨i, t', stage, job, old, hBusy⟩
    · refine .inl ⟨fun t' ht' => ?_, hQuiet.held.trans hHeld.symm, hQuiet.cache⟩
      rcases List.mem_append.mp ht' with hOld | hNew
      · exact hQuiet.still t' hOld
      · rw [List.mem_singleton.mp hNew, hStart]
        exact fun hEq => (by cases hEq)
    · have hLt := (List.getElem?_eq_some_iff.mp hBusy.task).1
      refine .inr ⟨i, t', stage, job, old, ⟨(List.getElem?_append_left hLt).trans hBusy.task, hBusy.phase,
        fun j t'' hj hSaving => ?_, hBusy.last, hBusy.loaded, hHeld.trans hBusy.held, hBusy.cache,
        hBusy.edited, hBusy.same, hBusy.reached⟩⟩
      by_cases hOld : j < s.tasks.length
      · exact hBusy.alone j t'' ((List.getElem?_append_left hOld).symm.trans hj) hSaving
      · have hMem : t'' ∈ [t] := by
          refine List.mem_of_getElem? (i := j - s.tasks.length) ?_
          rw [← hj]
          exact (List.getElem?_append_right (by omega)).symm
        rw [List.mem_singleton.mp hMem, hStart] at hSaving
        cases hSaving

theorem Kept.step [DecidableEq J] (h : Kept codec base s) {e : ConfigStep J} (hFree : s.Unhindered e) :
    Kept codec base (s.step codec e) := by
  cases e with
  | call call order => exact h.call _ rfl
  | run i =>
    unfold ConfigSystem.step
    simp only
    split
    · exact h
    · rename_i t hTask
      obtain ⟨hAlone, hFault⟩ := hFree t hTask
      split
      · rename_i hStart
        obtain ⟨hOk, hErr⟩ := h.load hTask hStart
        split
        · rename_i store hLoad
          exact hOk store hLoad
        · rename_i e store hLoad
          exact hErr e store hLoad
      · rename_i hReady
        exact h.update hTask hReady (hAlone hReady)
      · rename_i stage job hSaving
        exact h.save hTask hSaving (hFault stage job hSaving)
      · exact h

/-- In every run in which no edit of the cache falls between the edit and the return of another call,
and no file operation of a call fails that has changed the cache: at rest the file has the cached
settings, and they are what the calls that returned `Ok` have made of the loaded ones. -/
theorem file_holds_cache [DecidableEq J] (codec : ConfigCodec J) (disk : ConfigDisk) (hTidy : disk.Tidy)
    (faults : List (Option Nat)) (steps : List (ConfigStep J))
    (hFree : History.Each (step codec) Unhindered (start disk faults) steps) :
    let s := History.play (step codec) (start disk faults) steps
    s.AtRest → (s.store.loaded → s.store.disk.persisted codec = some s.store.cache) ∧
      s.store.disk.persisted codec = s.held (disk.persisted codec) := by
  intro s hRest
  have hKept : Kept codec (disk.persisted codec) s :=
    History.preserves (I := Kept codec (disk.persisted codec)) (fun _ _ h hFree => h.step hFree) hFree
      (kept_start disk hTidy faults)
  rcases hKept.state with hQuiet | ⟨i, t, stage, job, old, hBusy⟩
  · exact ⟨hQuiet.cache, hQuiet.held⟩
  · obtain ⟨r, hPhase⟩ := hRest t (mem_getElem? hBusy.task)
    cases hPhase.symm.trans hBusy.phase

section Examples

theorem countable_settings : Countable (Settings Nat) := by
  have : Countable Char :=
    Function.Injective.countable (f := Char.toNat) fun a b h => Char.ext (UInt32.toNat_inj.mp h)
  have : Countable String :=
    Function.Injective.countable (f := String.toList) fun a b h => String.toList_inj.mp h
  exact Function.Injective.countable (f := fun m : Settings Nat => m.entries) fun _ _ => Finmap.ext

noncomputable instance : Encodable (Settings Nat) :=
  have := countable_settings
  Encodable.ofCountable _

def one : Settings Nat := Finmap.insert "k" 1 ∅

def two : Settings Nat := Finmap.insert "k" 2 ∅

def oneText : List Char := "\x7b\n  \"k\": 1\n\x7d".toList

def twoText : List Char := "\x7b\n  \"k\": 2\n\x7d".toList

noncomputable def sampleCodec : ConfigCodec Nat where
  render _ m :=
    if m = one then oneText else if m = two then twoText
    else 'x' :: List.replicate (Encodable.encode m) 'x'
  parse text :=
    if text = oneText then some one else if text = twoText then some two
    else Encodable.decode (text.length - 1)
  parse_render order m := by
    have hNot (n : Nat) : 'x' :: List.replicate n 'x' ≠ oneText ∧ 'x' :: List.replicate n 'x' ≠ twoText :=
      ⟨fun h => absurd (List.cons.inj h).1 (by decide), fun h => absurd (List.cons.inj h).1 (by decide)⟩
    by_cases hOne : m = one
    · simp [hOne]
    · by_cases hTwo : m = two
      · have hNe : twoText ≠ oneText := by decide
        rw [if_neg hOne, if_pos hTwo, if_neg hNe, if_pos rfl, hTwo]
      · rw [if_neg hOne, if_neg hTwo, if_neg (hNot _).1, if_neg (hNot _).2]
        simp
  render_visible order m := by
    split
    · decide
    · split
      · decide
      · intro h
        have := List.all_eq_true.mp h 'x' List.mem_cons_self
        exact absurd this (by decide)

def emptyDisk : ConfigDisk := ⟨[], none, none⟩

theorem emptyDisk_tidy : emptyDisk.Tidy := ⟨fun _ h => (by cases h), fun _ h => (by cases h)⟩

theorem unhindered_pair {s : ConfigSystem Nat} {a b : ConfigTask Nat} {i : Nat} (hTasks : s.tasks = [a, b])
    (hFaults : s.store.faults = [])
    (hFree : [a, b].all (!·.phase.isSaving) = true ∨ [a, b][i]?.all (·.phase.isSaving) = true) :
    s.Unhindered (.run i) := by
  intro t ht
  rw [hTasks] at ht
  refine ⟨fun hReady t' ht' => ?_, fun _ _ _ _ _ => ?_⟩
  · rw [hTasks] at ht'
    rcases hFree with hNone | hBusy
    · simpa using List.all_eq_true.mp hNone t' ht'
    · -- the call is not at its edit
      rw [ht, Option.all_some, hReady] at hBusy
      cases hBusy
  · rw [ConfigStore.fault, hFaults]
    rfl

/-- Both calls have loaded the cache before the first edits it, and the second waits for the first. -/
def setTwice : List (ConfigStep Nat) :=
  [.call (.set "k" 1) 0, .call (.set "k" 2) 0, .run 0, .run 1] ++ List.replicate 7 (.run 0) ++
    List.replicate 7 (.run 1)

/-- Two concurrent calls, the second of which waits for the lock. -/
theorem setTwice_saved :
    let s := History.play (step sampleCodec) (start emptyDisk []) setTwice
    s.AtRest → (s.store.loaded → s.store.disk.persisted sampleCodec = some s.store.cache) ∧
      s.store.disk.persisted sampleCodec = s.held (emptyDisk.persisted sampleCodec) := by
  have hQuiet {s : ConfigSystem Nat} {a b : ConfigTask Nat} {i : Nat} (hTasks : s.tasks = [a, b])
      (hFaults : s.store.faults = []) (hNone : [a, b].all (!·.phase.isSaving) = true) :
      s.Unhindered (.run i) := unhindered_pair hTasks hFaults (.inl hNone)
  have hBusy {s : ConfigSystem Nat} {a b : ConfigTask Nat} {i : Nat} (hTasks : s.tasks = [a, b])
      (hFaults : s.store.faults = []) (hSaving : [a, b][i]?.all (·.phase.isSaving) = true) :
      s.Unhindered (.run i) := unhindered_pair hTasks hFaults (.inr hSaving)
  exact file_holds_cache sampleCodec emptyDisk emptyDisk_tidy [] setTwice
    ⟨trivial, trivial, hQuiet rfl rfl rfl, hQuiet rfl rfl rfl, hQuiet rfl rfl rfl, hBusy rfl rfl rfl,
      hBusy rfl rfl rfl, hBusy rfl rfl rfl, hBusy rfl rfl rfl, hBusy rfl rfl rfl, hBusy rfl rfl rfl,
      hQuiet rfl rfl rfl, hBusy rfl rfl rfl, hBusy rfl rfl rfl, hBusy rfl rfl rfl, hBusy rfl rfl rfl,
      hBusy rfl rfl rfl, hBusy rfl rfl rfl, trivial⟩

def overlapping : List (ConfigStep Nat) :=
  [.call (.set "k" 1) 0, .call (.set "k" 2) 0, .run 0, .run 0, .run 1, .run 1] ++
    List.replicate 6 (.run 1) ++ List.replicate 6 (.run 0)

/-- The file of the first call is renamed after that of the second. -/
theorem stale_snapshot_saved :
    let s := History.play (step sampleCodec) (start emptyDisk []) overlapping
    s.AtRest ∧ s.store.loaded ∧ s.store.disk.persisted sampleCodec ≠ some s.store.cache := by
  have hFile : (History.play (step sampleCodec) (start emptyDisk []) overlapping).store.disk.persisted
      sampleCodec = some one := sampleCodec.contents_render 0 one
  refine ⟨?_, rfl, ?_⟩
  · intro t ht
    have hTasks : t ∈ ([⟨.set "k" 1, 0, .returned (.ok .stored)⟩,
        ⟨.set "k" 2, 0, .returned (.ok .stored)⟩] : List (ConfigTask Nat)) := ht
    simp only [List.mem_cons, List.not_mem_nil, or_false] at hTasks
    rcases hTasks with rfl | rfl <;> exact ⟨_, rfl⟩
  · rw [hFile]
    intro hEq
    have hCache : one.lookup "k" = some 2 := by
      rw [Option.some.inj hEq]
      rfl
    exact absurd hCache (by decide)

/-- A set that fails leaves its value in the cache. -/
example :
    let s := History.play (step sampleCodec) (start emptyDisk [some 0]) [.call (.set "k" 1) 0, .run 0, .run 0, .run 0]
    s.tasks.map (·.phase) = [.returned (.error .io)] ∧ s.store.cache = one ∧
      s.store.disk.persisted sampleCodec = some ∅ :=
  ⟨rfl, rfl, rfl⟩

end Examples

end ConfigSystem

end Cronymax.Extensions
