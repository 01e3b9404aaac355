import Cronymax.Memory.Namespace

/-! When the memory of agents survives.  Ids that are single names keep namespaces apart, so that a
call shows in its own namespace only; there, what is read is allowed if and only if the call did not
leave a store without what was acknowledged. -/

namespace Cronymax.Memory

open Paths (Name)
open Atomic

variable (appData : FilePath)

/-- The namespace is one directory below that of the memory, and no other one's. -/
def Direct (ids : List NamespaceId) (ns : NamespaceId) : Prop :=
  (∃ name : Name Char, (memoryDir appData).join (Paths.Path.parse ns) =
      (memoryDir appData).push (.normal name)) ∧
    ∀ ns' ∈ ids, (memoryDir appData).join (Paths.Path.parse ns') =
      (memoryDir appData).join (Paths.Path.parse ns) → ns' = ns

/-- A file that could not be read holds nothing. -/
def Founded (t : Session) (ns : NamespaceId) (key : Option String) (loaded : LoadEnd) : Prop :=
  t.world.cache ns = none → loaded = .fails → ∀ k, some k ≠ key → none ∈ t.ledger ns k

/-- Nothing of the namespace has to be there. -/
def Forgettable (t : Session) (ns : NamespaceId) : Prop := ∀ k, none ∈ t.ledger ns k

/-- No file is taken for empty that is not. -/
def Op.Harmless (t : Session) : Op → Prop
  | .read ns _ loaded => Founded t ns none loaded
  | .write ns key value _ loaded fate =>
    match fate with
    | .completes => Founded t ns key loaded
    | .diesAfter => Founded t ns key loaded
    | .failsAt s => some value ∈ t.ledger ns key ∧ Founded t ns key loaded ∧
        (s = .writeText → Forgettable t ns)
    | .diesAt s => s = .writeText → Forgettable t ns
  | .restart => True

theorem memoryDir_steps : (memoryDir appData).steps ≠ [] := by
  unfold memoryDir Paths.Path.join
  split
  · exact List.cons_ne_nil _ _
  · exact List.append_ne_nil_of_right_ne_nil _ (List.cons_ne_nil _ _)

theorem join_memoryDir_ne (ns : NamespaceId) :
    (memoryDir appData).join (Paths.Path.parse ns) ≠ Paths.Path.empty := by
  intro hEmpty
  unfold Paths.Path.join at hEmpty
  split at hEmpty
  · rename_i h
    rcases h with h | h
    · rw [hEmpty] at h
      cases h
    · exact memoryDir_steps appData (congrArg Paths.Path.steps h)
  · exact memoryDir_steps appData (List.append_eq_nil_iff.mp (congrArg Paths.Path.steps hEmpty)).1

theorem entriesPath_eq (ns : NamespaceId) : entriesPath appData ns =
    ((memoryDir appData).join (Paths.Path.parse ns)).push (.normal entriesName) := by
  have hNot : ¬((⟨.bare, [.normal entriesName]⟩ : FilePath).isAbsolute = true ∨
      (memoryDir appData).join (Paths.Path.parse ns) = Paths.Path.empty) := by
    rintro (h | h)
    · cases h
    · exact join_memoryDir_ne appData ns h
  exact if_neg hNot

theorem push_inj {p q : FilePath} {n m : Name Char}
    (h : p.push (.normal n) = q.push (.normal m)) : p = q ∧ n = m := by
  obtain ⟨a, s⟩ := p
  obtain ⟨b, s'⟩ := q
  simp only [Paths.Path.push, Paths.Path.mk.injEq] at h
  obtain ⟨rfl, h⟩ := h
  obtain ⟨rfl, hLast⟩ := List.append_inj' h rfl
  cases hLast
  exact ⟨rfl, rfl⟩

theorem push_components (p : FilePath) (n : Name Char) :
    (p.push (.normal n)).components = p.components ++ [.normal n] := by
  simp [Paths.Path.push, Paths.Path.components, Paths.Step.component]

theorem push_normalize (p : FilePath) (n : Name Char) :
    (p.push (.normal n)).normalize = p.normalize.push (.normal n) := by
  rw [Paths.Path.normalize, push_components, List.foldl_append]
  rfl

theorem own_iff (ids : List NamespaceId) (ns : NamespaceId) :
    Own appData ids ns ↔ Direct appData ids ns := by
  unfold Own Direct
  refine and_congr (exists_congr fun name => ?_) (forall₂_congr fun ns' _ => ?_)
  · rw [show (memoryDir appData).components ++ [.normal name, .normal entriesName] =
      (((memoryDir appData).push (.normal name)).push (.normal entriesName)).components by
        rw [push_components, push_components, List.append_assoc]
        rfl, entriesPath_eq]
    constructor
    · intro h
      exact (push_inj (Paths.Path.components_injective h)).1
    · intro h
      rw [h]
  · rw [entriesPath_eq, entriesPath_eq]
    refine imp_congr_left ⟨fun h => (push_inj h).1, fun h => by rw [h]⟩

variable {appData} {ids : List NamespaceId}

theorem location_inj (hOwn : ∀ ns ∈ ids, Own appData ids ns) {ns ns' : NamespaceId} (h : ns ∈ ids)
    (h' : ns' ∈ ids) (hSame : location appData ns = location appData ns') : ns = ns' := by
  obtain ⟨⟨name, hName⟩, -⟩ := (own_iff appData ids ns).mp (hOwn ns h)
  obtain ⟨⟨name', hName'⟩, hOnly⟩ := (own_iff appData ids ns').mp (hOwn ns' h')
  refine hOnly ns h ?_
  rw [location, location, entriesPath_eq, entriesPath_eq, push_normalize, push_normalize, hName,
    hName', push_normalize, push_normalize] at hSame
  rw [hName, hName', (push_inj (push_inj hSame).1).2]

theorem kept_eq (w : World) (ns : NamespaceId) (key : String) :
    kept appData w ns key = (load appData w.disk ns .answers key).map MemoryEntry.value := rfl

theorem load_update_self (disk : Disk) (ns : NamespaceId) (entries : Entries) :
    load appData (Function.update disk (location appData ns) (some (.holds entries))) ns .answers =
      entries := by
  rw [load, Function.update_self]

theorem load_update_malformed (disk : Disk) (ns : NamespaceId) :
    load appData (Function.update disk (location appData ns) (some .malformed)) ns .answers =
      fun _ => none := by
  rw [load, Function.update_self]

theorem load_update_of_ne {disk : Disk} {ns : NamespaceId} {loc : FilePath} (text : Option FileText)
    (h : location appData ns ≠ loc) :
    load appData (Function.update disk loc text) ns .answers = load appData disk ns .answers := by
  rw [load, Function.update_of_ne h, load]

theorem flush_other {disk : Disk} {ns : NamespaceId} {loc : FilePath} (entries : Entries)
    (fate : Fate) (h : location appData ns ≠ loc) :
    load appData (flush disk loc entries fate).1 ns .answers = load appData disk ns .answers := by
  cases fate with
  | completes => exact load_update_of_ne _ h
  | failsAt s => cases s <;> first | rfl | exact load_update_of_ne _ h
  | diesAt s => cases s <;> first | rfl | exact load_update_of_ne _ h
  | diesAfter => exact load_update_of_ne _ h

theorem getOrLoad_congr {w w' : World} {ns : NamespaceId} (hCache : w'.cache ns = w.cache ns)
    (hDisk : load appData w'.disk ns .answers = load appData w.disk ns .answers) :
    getOrLoad appData w' ns .answers = getOrLoad appData w ns .answers := by
  rw [getOrLoad, getOrLoad, hCache, hDisk]

/-- The entries after a write. -/
def written (appData : FilePath) (w : World) (ns : NamespaceId) (key value : String) (nowMs : Int)
    (loaded : LoadEnd) : Entries :=
  Function.update (getOrLoad appData w ns loaded) key (some ⟨key, value, nowMs⟩)

section Write

variable (w : World) (ns : NamespaceId) (key value : String) (nowMs : Int) (loaded : LoadEnd)
  (fate : Fate)

theorem write_disk : (MemoryManager.write appData w ns key value nowMs loaded fate).1.disk =
    (flush w.disk (location appData ns) (written appData w ns key value nowMs loaded) fate).1 := by
  unfold MemoryManager.write
  simp only
  split
  · rfl
  · rfl

theorem write_cache : (MemoryManager.write appData w ns key value nowMs loaded fate).1.cache =
    if (MemoryManager.write appData w ns key value nowMs loaded fate).2 = .died then fun _ => none
    else Function.update w.cache ns (some (written appData w ns key value nowMs loaded)) := by
  unfold MemoryManager.write
  simp only
  split
  · rfl
  · rfl

end Write

theorem frames {op : Op} (hOwn : ∀ ns ∈ ids, Own appData ids ns)
    (hUsed : ∀ ns, op.namespace? = some ns → ns ∈ ids) (w : World) : Frames appData ids w op := by
  intro ns hNs hOther key
  cases op with
  | read ns' key' loaded =>
    have hNe : ns ≠ ns' := fun h => hOther (congrArg some h.symm)
    have hSame : getOrLoad appData (Op.next appData w (.read ns' key' loaded)) ns .answers =
        getOrLoad appData w ns .answers := getOrLoad_congr (Function.update_of_ne hNe _ _) rfl
    exact ⟨rfl, fun _ => by rw [live, live, hSame]⟩
  | write ns' key' value nowMs loaded fate =>
    have hNe : ns ≠ ns' := fun h => hOther (congrArg some h.symm)
    have hLoc : location appData ns ≠ location appData ns' := fun h =>
      hNe (location_inj hOwn hNs (hUsed ns' rfl) h)
    have hDisk : load appData (Op.next appData w (.write ns' key' value nowMs loaded fate)).disk ns
        .answers = load appData w.disk ns .answers := by
      rw [Op.next, write_disk]
      exact flush_other _ fate hLoc
    refine ⟨by rw [kept_eq, kept_eq, hDisk], fun hAlive => ?_⟩
    have hCache : (Op.next appData w (.write ns' key' value nowMs loaded fate)).cache ns =
        w.cache ns := by
      rw [Op.next, write_cache, if_neg (by simpa [Op.dies] using hAlive), Function.update_of_ne hNe]
    rw [live, live, getOrLoad_congr hCache hDisk]
  | restart => exact ⟨rfl, fun h => by cases h⟩

/-- What may be read is read, in one namespace. -/
def SoundAt (appData : FilePath) (t : Session) (ns : NamespaceId) : Prop :=
  ∀ key, live appData t.world ns key ∈ t.ledger ns key ∧ kept appData t.world ns key ∈ t.ledger ns key

theorem live_of_fresh {w : World} (h : w.cache = fun _ => none) (ns : NamespaceId) (key : String) :
    live appData w ns key = kept appData w ns key := by
  have hSame : w = w.restart := by
    cases w
    rw [World.restart, ← h]
  rw [kept, ← hSame]

theorem ledger_other {op : Op} {ns : NamespaceId} (h : op.namespace? ≠ some ns) (t : Session) :
    (t.next appData op).ledger ns = t.ledger ns := by
  cases op with
  | read ns' key loaded => rfl
  | write ns' key value nowMs loaded fate =>
    have hNe : ns ≠ ns' := fun hSame => h (congrArg some hSame.symm)
    simp only [Session.next, Op.enter]
    cases (MemoryManager.write appData t.world ns' key value nowMs loaded fate).2 with
    | ok => exact Function.update_of_ne hNe _ _
    | err => rfl
    | died => exact Function.update_of_ne hNe _ _
  | restart => rfl

theorem cache_of_dies {op : Op} {w : World} (h : op.dies appData w = true) :
    (op.next appData w).cache = fun _ => none := by
  cases op with
  | read ns key loaded => cases h
  | write ns key value nowMs loaded fate =>
    rw [Op.next, write_cache, if_pos (by simpa [Op.dies] using h)]
  | restart => rfl

theorem sound_next_iff {t : Session} {op : Op} (hSound : Sound appData ids t)
    (hOwn : ∀ ns ∈ ids, Own appData ids ns) (hUsed : ∀ ns, op.namespace? = some ns → ns ∈ ids) :
    Sound appData ids (t.next appData op) ↔
      ∀ ns, op.namespace? = some ns → SoundAt appData (t.next appData op) ns := by
  constructor
  · exact fun h ns hNs => h ns (hUsed ns hNs)
  · intro h ns hNs
    by_cases hAt : op.namespace? = some ns
    · exact h ns hAt
    · intro key
      obtain ⟨hKept, hLive⟩ := frames hOwn hUsed t.world ns hNs hAt key
      have hOld := hSound ns hNs key
      have hKeptNext : kept appData (t.next appData op).world ns key ∈ t.ledger ns key := by
        rw [show (t.next appData op).world = op.next appData t.world from rfl, hKept]
        exact hOld.2
      rw [ledger_other hAt]
      refine ⟨?_, hKeptNext⟩
      cases hDies : op.dies appData t.world with
      | false =>
        rw [show (t.next appData op).world = op.next appData t.world from rfl, hLive hDies]
        exact hOld.1
      | true =>
        rw [live_of_fresh (show (t.next appData op).world.cache = _ from cache_of_dies hDies)]
        exact hKeptNext

theorem getOrLoad_cached {w : World} {ns : NamespaceId} {entries : Entries} {loaded : LoadEnd}
    (h : w.cache ns = some entries) : getOrLoad appData w ns loaded = entries := by
  rw [getOrLoad, h]

theorem live_cached {w : World} {ns : NamespaceId} {entries : Entries}
    (h : w.cache ns = some entries) (key : String) :
    live appData w ns key = (entries key).map MemoryEntry.value := by
  rw [live, getOrLoad_cached h]

theorem live_keep (w : World) (ns : NamespaceId) (entries : Entries) (key : String) :
    live appData (w.keep ns entries) ns key = (entries key).map MemoryEntry.value :=
  live_cached (Function.update_self ns (some entries) w.cache) key

theorem founded_iff {t : Session} {ns : NamespaceId} (h : SoundAt appData t ns) (key : Option String)
    (loaded : LoadEnd) : (∀ k, some k ≠ key →
      (getOrLoad appData t.world ns loaded k).map MemoryEntry.value ∈ t.ledger ns k) ↔
        Founded t ns key loaded := by
  unfold Founded
  cases hCache : t.world.cache ns with
  | some entries =>
    refine iff_of_true (fun k _ => ?_) fun hNone => by cases hNone
    have hLive := (h k).1
    rw [live, getOrLoad, hCache] at hLive
    rw [getOrLoad, hCache]
    exact hLive
  | none =>
    cases loaded with
    | answers =>
      refine iff_of_true (fun k _ => ?_) fun _ hFails => by cases hFails
      have hKept := (h k).2
      rw [kept_eq] at hKept
      rw [getOrLoad, hCache]
      exact hKept
    | fails =>
      have hLoad : getOrLoad appData t.world ns .fails = fun _ => none := by
        rw [getOrLoad, hCache]
        rfl
      rw [hLoad]
      exact ⟨fun hAll _ _ => hAll, fun hAll => hAll rfl rfl⟩

theorem soundAt_read {t : Session} {ns : NamespaceId} (h : SoundAt appData t ns) (key : String)
    (loaded : LoadEnd) :
    SoundAt appData (t.next appData (.read ns key loaded)) ns ↔ Founded t ns none loaded := by
  rw [← founded_iff h none loaded]
  constructor
  · intro hNext k _
    have hLive := (hNext k).1
    rwa [show (t.next appData (.read ns key loaded)).world =
      t.world.keep ns (getOrLoad appData t.world ns loaded) from rfl, live_keep] at hLive
  · intro hAll k
    refine ⟨?_, (h k).2⟩
    rw [show (t.next appData (.read ns key loaded)).world =
      t.world.keep ns (getOrLoad appData t.world ns loaded) from rfl, live_keep]
    exact hAll k (by simp)

section Write

variable {t : Session} {ns : NamespaceId} {key value : String} {nowMs : Int} {loaded : LoadEnd}

theorem written_self : (written appData t.world ns key value nowMs loaded key).map MemoryEntry.value =
    some value := by
  rw [written, Function.update_self]
  rfl

theorem written_other {k : String} (h : k ≠ key) : written appData t.world ns key value nowMs loaded k =
    getOrLoad appData t.world ns loaded k :=
  Function.update_of_ne h _ _

theorem written_right {allowed : String → Set (Option String)} (h : SoundAt appData t ns)
    (hOther : ∀ k, k ≠ key → allowed k = t.ledger ns k) : (∀ k,
      (written appData t.world ns key value nowMs loaded k).map MemoryEntry.value ∈ allowed k) ↔
        some value ∈ allowed key ∧ Founded t ns key loaded := by
  rw [← founded_iff h (some key) loaded]
  constructor
  · intro hAll
    refine ⟨by simpa only [written_self] using hAll key, fun k hk => ?_⟩
    have hNe : k ≠ key := fun h => hk (congrArg some h)
    rw [← hOther k hNe, ← written_other hNe]
    exact hAll k
  · rintro ⟨hKey, hAll⟩ k
    by_cases hNe : k = key
    · subst hNe
      rw [written_self]
      exact hKey
    · rw [hOther k hNe, written_other hNe]
      exact hAll k fun h => hNe (Option.some.inj h)

theorem soundAt_of {u : Session} {entries : Entries} (hLive : u.world.cache ns = some entries) :
    SoundAt appData u ns ↔ (∀ k, (entries k).map MemoryEntry.value ∈ u.ledger ns k) ∧
      ∀ k, kept appData u.world ns k ∈ u.ledger ns k := by
  simp only [SoundAt, live_cached hLive]
  exact forall_and

theorem soundAt_fresh {u : Session} (hFresh : u.world.cache = fun _ => none) :
    SoundAt appData u ns ↔ ∀ k, kept appData u.world ns k ∈ u.ledger ns k := by
  simp only [SoundAt, live_of_fresh hFresh, and_self]

theorem kept_written (disk : Disk) (entries : Entries) (cache : NamespaceId → Option Entries)
    (k : String) : kept appData ⟨Function.update disk (location appData ns) (some (.holds entries)), cache⟩
      ns k = (entries k).map MemoryEntry.value := by
  rw [kept_eq, load_update_self]

theorem kept_torn (disk : Disk) (cache : NamespaceId → Option Entries) (k : String) :
    kept appData ⟨Function.update disk (location appData ns) (some .malformed), cache⟩ ns k = none := by
  rw [kept_eq, load_update_malformed]
  rfl

theorem forgettable_either (allowed : String → Set (Option String)) (k : String) :
    none ∈ Function.update allowed key (insert (some value) (allowed key)) k ↔ none ∈ allowed k := by
  by_cases hKey : k = key
  · subst hKey
    simp
  · rw [Function.update_of_ne hKey]

theorem soundAt_completes (h : SoundAt appData t ns) :
    SoundAt appData (t.next appData (.write ns key value nowMs loaded .completes)) ns ↔
      Founded t ns key loaded := by
  have hNext : t.next appData (.write ns key value nowMs loaded .completes) =
      ⟨⟨Function.update t.world.disk (location appData ns)
          (some (.holds (written appData t.world ns key value nowMs loaded))),
        Function.update t.world.cache ns (some (written appData t.world ns key value nowMs loaded))⟩,
        Function.update t.ledger ns (Function.update (t.ledger ns) key {some value})⟩ := rfl
  rw [hNext, soundAt_of (Function.update_self _ _ _)]
  simp only [kept_written, Function.update_self, and_self]
  rw [written_right h fun k hNe => Function.update_of_ne hNe _ _, Function.update_self]
  exact and_iff_right rfl

theorem soundAt_diesAfter (h : SoundAt appData t ns) :
    SoundAt appData (t.next appData (.write ns key value nowMs loaded .diesAfter)) ns ↔
      Founded t ns key loaded := by
  have hNext : t.next appData (.write ns key value nowMs loaded .diesAfter) =
      ⟨⟨Function.update t.world.disk (location appData ns)
          (some (.holds (written appData t.world ns key value nowMs loaded))), fun _ => none⟩,
        Function.update t.ledger ns (Function.update (t.ledger ns) key
          (insert (some value) (t.ledger ns key)))⟩ := rfl
  rw [hNext, soundAt_fresh rfl]
  simp only [kept_written, Function.update_self]
  rw [written_right h fun k hNe => Function.update_of_ne hNe _ _, Function.update_self]
  exact and_iff_right (Set.mem_insert _ _)

theorem soundAt_failsAt (h : SoundAt appData t ns) (s : FlushStep) :
    SoundAt appData (t.next appData (.write ns key value nowMs loaded (.failsAt s))) ns ↔
      some value ∈ t.ledger ns key ∧ Founded t ns key loaded ∧
        (s = .writeText → Forgettable t ns) := by
  have hWorld : (t.next appData (.write ns key value nowMs loaded (.failsAt s))).world.cache ns =
      some (written appData t.world ns key value nowMs loaded) := by
    cases s <;> exact Function.update_self _ _ _
  have hLedger : (t.next appData (.write ns key value nowMs loaded (.failsAt s))).ledger = t.ledger := by
    cases s <;> rfl
  rw [soundAt_of hWorld, hLedger, written_right h fun k _ => rfl, and_assoc]
  refine and_congr_right fun _ => and_congr_right fun _ => ?_
  by_cases hText : s = .writeText
  · subst hText
    have hKept : ∀ k, kept appData
        (t.next appData (.write ns key value nowMs loaded (.failsAt .writeText))).world ns k = none :=
      kept_torn _ _
    simp only [hKept]
    exact ⟨fun hAll _ => hAll, fun hAll => hAll trivial⟩
  · have hKept : ∀ k, kept appData
        (t.next appData (.write ns key value nowMs loaded (.failsAt s))).world ns k =
          kept appData t.world ns k := by
      cases s with
      | createDir => exact fun k => rfl
      | openFile => exact fun k => rfl
      | writeText => exact absurd rfl hText
    simp only [hKept]
    exact iff_of_true (fun k => (h k).2) fun hAt => absurd hAt hText

theorem soundAt_diesAt (h : SoundAt appData t ns) (s : FlushStep) :
    SoundAt appData (t.next appData (.write ns key value nowMs loaded (.diesAt s))) ns ↔
      (s = .writeText → Forgettable t ns) := by
  have hFresh : (t.next appData (.write ns key value nowMs loaded (.diesAt s))).world.cache =
      fun _ => none := by
    cases s <;> rfl
  have hLedger : (t.next appData (.write ns key value nowMs loaded (.diesAt s))).ledger ns =
      Function.update (t.ledger ns) key (insert (some value) (t.ledger ns key)) := by
    cases s <;> exact Function.update_self _ _ _
  rw [soundAt_fresh hFresh, hLedger]
  by_cases hText : s = .writeText
  · subst hText
    have hKept : ∀ k, kept appData
        (t.next appData (.write ns key value nowMs loaded (.diesAt .writeText))).world ns k = none :=
      kept_torn _ _
    simp only [hKept, forgettable_either]
    exact ⟨fun hAll _ => hAll, fun hAll => hAll trivial⟩
  · have hKept : ∀ k, kept appData
        (t.next appData (.write ns key value nowMs loaded (.diesAt s))).world ns k =
          kept appData t.world ns k := by
      cases s with
      | createDir => exact fun k => rfl
      | openFile => exact fun k => rfl
      | writeText => exact absurd rfl hText
    refine iff_of_true (fun k => ?_) fun hAt => absurd hAt hText
    rw [hKept]
    by_cases hKey : k = key
    · subst hKey
      rw [Function.update_self]
      exact Set.mem_insert_of_mem _ (h k).2
    · rw [Function.update_of_ne hKey]
      exact (h k).2

theorem soundAt_write (h : SoundAt appData t ns) (fate : Fate) :
    SoundAt appData (t.next appData (.write ns key value nowMs loaded fate)) ns ↔
      Op.Harmless t (.write ns key value nowMs loaded fate) := by
  cases fate with
  | completes => exact soundAt_completes h
  | failsAt s => exact soundAt_failsAt h s
  | diesAt s => exact soundAt_diesAt h s
  | diesAfter => exact soundAt_diesAfter h

end Write

/-- What a run without harm is. -/
def Harmless (appData : FilePath) (disk : Disk) (ops : List Op) : Prop :=
  History.Each (Session.next appData) Op.Harmless (Session.start appData disk) ops

theorem call_right_iff {t : Session} {op : Op} (hOwn : ∀ ns ∈ ids, Own appData ids ns)
    (hUsed : ∀ ns, op.namespace? = some ns → ns ∈ ids) (hSound : Sound appData ids t) :
    Sound appData ids (t.next appData op) ∧ Frames appData ids t.world op ↔ op.Harmless t := by
  rw [and_iff_left (frames hOwn hUsed t.world), sound_next_iff hSound hOwn hUsed]
  cases op with
  | read ns key loaded =>
    have hRead := soundAt_read (hSound ns (hUsed ns rfl)) key loaded
    simpa [Op.namespace?, Op.Harmless] using hRead
  | write ns key value nowMs loaded fate =>
    have hWrite : SoundAt appData (t.next appData (.write ns key value nowMs loaded fate)) ns ↔
        Op.Harmless t (.write ns key value nowMs loaded fate) :=
      soundAt_write (hSound ns (hUsed ns rfl)) fate
    simpa [Op.namespace?] using hWrite
  | restart => simp [Op.namespace?, Op.Harmless]

theorem calls_right_iff (hOwn : ∀ ns ∈ ids, Own appData ids ns) {ops : List Op}
    (hUsed : ∀ ns ∈ used ops, ns ∈ ids) {t : Session} (hSound : Sound appData ids t) :
    History.Each (Session.next appData) (fun t op => Sound appData ids (t.next appData op) ∧
      Frames appData ids t.world op) t ops ↔
        History.Each (Session.next appData) Op.Harmless t ops := by
  induction ops generalizing t with
  | nil => exact Iff.rfl
  | cons op ops ih =>
    have hFirst : ∀ ns, op.namespace? = some ns → ns ∈ ids := fun ns hNs =>
      hUsed ns (List.mem_filterMap.mpr ⟨op, List.mem_cons_self, hNs⟩)
    have hRest : ∀ ns ∈ used ops, ns ∈ ids := fun ns hNs => by
      obtain ⟨op', hMem, hNs⟩ := List.mem_filterMap.mp hNs
      exact hUsed ns (List.mem_filterMap.mpr ⟨op', List.mem_cons_of_mem _ hMem, hNs⟩)
    have hCall := call_right_iff hOwn hFirst hSound
    constructor
    · rintro ⟨hRight, hEach⟩
      exact ⟨hCall.mp hRight, (ih hRest hRight.1).mp hEach⟩
    · rintro ⟨hHarmless, hEach⟩
      have hRight := hCall.mpr hHarmless
      exact ⟨hRight, (ih hRest hRight.1).mpr hEach⟩

/-- The memory survives a run if and only if every namespace is a name of its own in the memory
directory and every call is harmless. -/
theorem memory_survives_iff (appData : FilePath) (disk : Disk) (ops : List Op) :
    Survives appData disk ops ↔
      (∀ ns ∈ used ops, Direct appData (used ops) ns) ∧ Harmless appData disk ops := by
  have hEach : (∀ ns ∈ used ops, Own appData (used ops) ns) ↔
      ∀ ns ∈ used ops, Direct appData (used ops) ns :=
    forall₂_congr fun ns _ => own_iff appData (used ops) ns
  unfold Survives
  rw [← hEach]
  refine and_congr_right fun hOwn => calls_right_iff hOwn (fun _ h => h) fun ns _ key => ?_
  exact ⟨rfl, rfl⟩

section Examples

def appDir : FilePath := Paths.Path.parse "/data".toList

def tornWrite : List Op :=
  [.write "notes".toList "a" "1" 0 .answers .completes,
    .write "notes".toList "b" "2" 0 .answers (.diesAt .writeText)]

/-- The process dies in the second write, and the entry of the first one is gone. -/
theorem acknowledged_lost : ¬Survives appDir (fun _ => none) tornWrite := by
  rintro ⟨-, -, ⟨hSound, -⟩, -⟩
  have hUsed : "notes".toList ∈ used tornWrite := by decide
  have hKept : (none : Option String) ∈ ({some "1"} : Set (Option String)) :=
    (hSound "notes".toList hUsed "a").2
  cases hKept

end Examples

end Cronymax.Memory
