import Cronymax.Atomic.History
import Cronymax.Atomic.Triple
import Cronymax.Authority.State

/-! The migration of the legacy configuration of the provider to the registry of providers.  It writes
three stores one after the other, and takes the first of them for all of them. -/

namespace Cronymax.Llm

open Atomic
open Authority (Value)

inductive LlmProviderKind where
  | openaiCompat
  | githubCopilot
  | anthropic
  | none
deriving DecidableEq

/-- `LlmProviderEntry`. -/
structure LlmProviderEntry where
  id : String
  kind : LlmProviderKind
  baseUrl : String
  modelOverride : Option String
deriving DecidableEq

/-- What `providers.json` says. -/
structure ProviderFile where
  defaultProvider : Option String
  providers : List LlmProviderEntry
deriving DecidableEq

namespace ProviderFile

variable (file : ProviderFile)

def get (id : String) : Option LlmProviderEntry := file.providers.find? (·.id = id)

def putEntry (entry : LlmProviderEntry) : List LlmProviderEntry → List LlmProviderEntry
  | [] => [entry]
  | p :: rest => if p.id = entry.id then entry :: rest else p :: putEntry entry rest

/-- `upsert`. -/
def upsert (entry : LlmProviderEntry) (setAsDefault : Bool) : ProviderFile where
  defaultProvider := if setAsDefault then some entry.id else file.defaultProvider
  providers := putEntry entry file.providers

theorem get_upsert (entry : LlmProviderEntry) (setAsDefault : Bool) :
    (file.upsert entry setAsDefault).get entry.id = some entry := by
  unfold get upsert
  dsimp only
  induction file.providers with
  | nil => simp [putEntry]
  | cons p rest ih =>
    rw [putEntry]
    split
    · simp
    · rename_i hOther
      rw [List.find?_cons_of_neg (by simpa using hOther)]
      exact ih

end ProviderFile

/-- A JSON file, by what it reads as. -/
inductive JsonFile (α : Type) where
  | malformed
  | holds (a : α)

/-- The two files and the keychain. -/
structure Stores where
  providers : Option (JsonFile ProviderFile)
  tokens : Table String String
  legacy : Option (JsonFile Value)

def Stores.registry (s : Stores) : Option ProviderFile :=
  match s.providers with
  | none => some ⟨none, []⟩
  | some (.holds file) => some file
  | some .malformed => none

/-- The stores with the faults that are still to come. -/
structure Machine where
  stores : Stores
  faults : List Bool

def Machine.fault (m : Machine) : Bool := m.faults.headD false

namespace Migration

inductive Act where
  | look
  | read
  | mkdir
  | writeTmp
  | renameProviders (file : ProviderFile)
  | storeToken (account token : String)
  | renameLegacy (v : Value)

/-- What an access does where it succeeds. -/
def Act.effect : Act → Stores → Stores
  | .renameProviders file, s => { s with providers := some (.holds file) }
  | .storeToken account token, s => { s with tokens := s.tokens.insert account token }
  | .renameLegacy v, s => { s with legacy := some (.holds v) }
  | _, s => s

instance : Acts Act Machine where
  apply
    | .look, m => m
    | x, m => ⟨if m.fault then m.stores else x.effect m.stores, m.faults.tail⟩

inductive Error where
  | io
  | json
  | keychain
deriving DecidableEq

inductive MigrationOutcome where
  | migrated
  | alreadyMigrated
  | noLegacyConfig
deriving DecidableEq

abbrev Op := Prog Act Machine Error

def step (x : Act) (e : Error) : Op Unit := do
  let m ← Prog.perform x
  if m.fault then .fail e

/-- `load_from`: a file that is absent is an empty registry. -/
def loadFrom : Op ProviderFile := do
  let m ← Prog.perform .look
  match m.stores.providers with
  | none => pure ⟨none, []⟩
  | some content => do
    step .read .io
    match content with
    | .holds file => pure file
    | .malformed => .fail .json

/-- `persist`: by way of a temporary file. -/
def persist (file : ProviderFile) : Op Unit := do
  step .mkdir .io
  step .writeTmp .io
  step (.renameProviders file) .io

def keychainAccount (providerId : String) : String := "cronymax-provider-" ++ providerId

/-- `store_token`. -/
def storeToken (providerId token : String) : Op Unit :=
  step (.storeToken (keychainAccount providerId) token) .keychain

/-- The legacy file is written back without its key. -/
def writeLegacy (v : Value) : Op Unit := do
  step .writeTmp .io
  step (.renameLegacy v) .io

def textField (v : Value) (key : String) : Option String := ((v.get key).bind (·.asStr)).filter (· ≠ "")

/-- `Map::remove`. -/
def remove (key : String) : Value → Value
  | .object fields => .object (fields.filter (·.1 ≠ key))
  | v => v

/-- The entry that the legacy file becomes. -/
def entryOf (legacy : Value) : LlmProviderEntry where
  id := "default"
  kind := .openaiCompat
  baseUrl := (textField legacy "base_url").getD "https://api.openai.com/v1"
  modelOverride := none

/-- The key goes to the keychain. -/
def moveKey (legacy : Value) : Op Unit :=
  match textField legacy "api_key" with
  | some key => do
    storeToken "default" key
    writeLegacy (remove "api_key" legacy)
  | none => pure ()

/-- `run_migration`. -/
def runMigration : Op MigrationOutcome := do
  let file ← loadFrom
  if (file.get "default").isSome then pure .alreadyMigrated
  else do
    let m ← Prog.perform .look
    match m.stores.legacy with
    | none => pure .noLegacyConfig
    | some content => do
      step .read .io
      match content with
      | .malformed => .fail .json
      | .holds legacy => do
        persist (file.upsert (entryOf legacy) true)
        moveKey legacy
        pure .migrated

/-- One attempt: its faults, and when the process dies. -/
structure Attempt where
  faults : List Bool
  dies : Option Nat

namespace Attempt

variable (a : Attempt) (s : Stores)

/-- The accesses of an attempt. -/
def steps : List (Act × Machine) :=
  match a.dies with
  | some n => (runMigration.trace ⟨s, a.faults⟩).take n
  | none => runMigration.trace ⟨s, a.faults⟩

def afterSteps (pre : List (Act × Machine)) : Stores := (Prog.after ⟨s, a.faults⟩ pre).stores

/-- The stores after an attempt. -/
@[grind =] def next : Stores := a.afterSteps s (a.steps s)

def result : Option (Except Error MigrationOutcome) :=
  match a.dies with
  | some _ => none
  | none => some (runMigration.run ⟨s, a.faults⟩).1

/-- The attempt returns and does not fail. -/
def Returns : Prop := ∃ outcome, a.result s = some (.ok outcome)

end Attempt

def Act.writes : Act → Bool
  | .renameProviders _ | .storeToken _ _ | .renameLegacy _ => true
  | _ => false

/-- The accesses that have changed something. -/
def written (tr : List (Act × Machine)) : List Act :=
  (tr.filter fun e => e.1.writes && !e.2.fault).map (·.1)

def applyAll (s : Stores) (xs : List Act) : Stores := xs.foldl (fun s x => x.effect s) s

@[simp] theorem written_nil : written [] = [] := rfl

theorem written_cons (x : Act) (m : Machine) (tr : List (Act × Machine)) :
    written ((x, m) :: tr) = (if x.writes && !m.fault then [x] else []) ++ written tr := by
  unfold written
  rw [List.filter_cons]
  cases x.writes && !m.fault <;> rfl

theorem written_append (tr tr' : List (Act × Machine)) :
    written (tr ++ tr') = written tr ++ written tr' := by
  rw [written, written, written, List.filter_append, List.map_append]

theorem written_mono {pre tr : List (Act × Machine)} (h : pre <+: tr) : written pre <+: written tr := by
  obtain ⟨rest, rfl⟩ := h
  rw [written, written, List.filter_append, List.map_append]
  exact List.prefix_append _ _

theorem after_stores {m : Machine} {tr : List (Act × Machine)} (h : Prog.Chained m tr) :
    (Prog.after m tr).stores = applyAll m.stores (written tr) := by
  induction tr generalizing m with
  | nil => rfl
  | cons e tr ih =>
    obtain ⟨x, t⟩ := e
    obtain ⟨rfl, hRest⟩ := h
    rw [Prog.after_cons, ih hRest, written_cons, applyAll, applyAll, List.foldl_append]
    congr 1
    cases hFault : t.fault with
    | true => cases x <;> simp [Acts.apply, hFault]
    | false => cases x <;> simp [Acts.apply, hFault, Act.writes, Act.effect]

section Steps

variable {α : Type} {m : Machine} {R : List (Act × Machine) → Except Error α → Machine → Prop}

theorem step_goes {x : Act} {e : Error} {f : Unit → Op α}
    (hFails : m.fault = true → R [(x, m)] (.error e) (Acts.apply x m))
    (hWorks : m.fault = false → Prog.Goes (f ()) (Acts.apply x m) fun tr => R ((x, m) :: tr)) :
    Prog.Goes (step x e >>= f) m R := by
  have hStep : (step x e >>= f) = Prog.perform x >>= fun m =>
      (if m.fault then .fail e else pure ()) >>= f := rfl
  rw [hStep]
  refine .perform ?_
  cases hFault : m.fault with
  | true => exact hFails hFault
  | false => exact hWorks hFault

theorem loadFrom_goes {f : ProviderFile → Op α}
    (hFails : ∀ tr t e, written tr = [] → R tr (.error e) t)
    (hWorks : ∀ tr t file, written tr = [] → t.stores = m.stores → m.stores.registry = some file →
      Prog.Goes (f file) t fun tr' => R (tr ++ tr')) :
    Prog.Goes (loadFrom >>= f) m R := by
  unfold loadFrom
  rw [bind_assoc]
  refine .perform ?_
  cases hProviders : m.stores.providers with
  | none => exact hWorks [(.look, m)] m ⟨none, []⟩ rfl rfl (by rw [Stores.registry, hProviders])
  | some content =>
    dsimp only
    rw [bind_assoc]
    refine step_goes (fun _ => hFails _ _ _ rfl) fun hFault => ?_
    cases content with
    | malformed => exact hFails [(.look, m), (.read, m)] _ _ rfl
    | holds file =>
      refine hWorks [(.look, m), (.read, m)] _ file rfl ?_ (by rw [Stores.registry, hProviders])
      show (if m.fault then m.stores else m.stores) = m.stores
      exact ite_self _

/-- What a migration writes, in order. -/
def plan (file : ProviderFile) (legacy : Value) : List Act :=
  .renameProviders (file.upsert (entryOf legacy) true) ::
    match textField legacy "api_key" with
    | some key =>
      [.storeToken (keychainAccount "default") key, .renameLegacy (remove "api_key" legacy)]
    | none => []

/-- A migration writes its plan, or a part of it where it fails. -/
def Follows (xs ys : List Act) : Except Error MigrationOutcome → Prop
  | .ok outcome => outcome = .migrated ∧ ys = xs
  | .error _ => ys <+: xs

theorem moveKey_goes {legacy : Value} (file : ProviderFile) (m : Machine) :
    Prog.Goes (moveKey legacy >>= fun _ => (pure .migrated : Op MigrationOutcome)) m
      fun tr r _ => Follows (plan file legacy)
        (.renameProviders (file.upsert (entryOf legacy) true) :: written tr) r := by
  unfold moveKey plan
  cases textField legacy "api_key" with
  | none => exact ⟨rfl, rfl⟩
  | some key =>
    dsimp only
    rw [bind_assoc]
    refine step_goes (fun hFault => ?_) fun hStored => ?_
    · show _ :: written _ <+: _
      simp [written_cons, hFault]
    unfold writeLegacy
    rw [bind_assoc]
    refine step_goes (fun hFault => ?_) fun hTmp => step_goes (fun hFault => ?_) fun hRenamed => ?_
    · show _ :: written _ <+: _
      simp [written_cons, hStored, Act.writes]
    · show _ :: written _ <+: _
      simp [written_cons, hStored, hFault, Act.writes]
    · refine ⟨rfl, ?_⟩
      show _ :: written (_ :: _ :: _ :: []) = _
      simp [written_cons, hStored, hRenamed, Act.writes]

theorem runMigration_follows {s : Stores} (faults : List Bool) {file : ProviderFile} {legacy : Value}
    (hFile : s.registry = some file) (hNew : file.get "default" = none)
    (hLegacy : s.legacy = some (.holds legacy)) :
    Prog.Goes runMigration ⟨s, faults⟩ fun tr r _ => Follows (plan file legacy) (written tr) r := by
  refine loadFrom_goes (fun tr t e hTr => ?_) fun tr t file' hTr hStores hFile' => ?_
  · show written tr <+: _
    rw [hTr]
    exact List.nil_prefix
  obtain rfl : file' = file := Option.some.inj (hFile'.symm.trans hFile)
  rw [hNew]
  refine .perform ?_
  rw [hStores, hLegacy]
  dsimp only
  refine step_goes (fun hFault => ?_) fun hRead => ?_
  · show written (tr ++ _) <+: _
    simp [written_append, hTr, written_cons, Act.writes]
  unfold persist
  rw [bind_assoc]
  refine step_goes (fun hFault => ?_) fun hMade => ?_
  · show written (tr ++ _) <+: _
    simp [written_append, hTr, written_cons, Act.writes]
  rw [bind_assoc]
  refine step_goes (fun hFault => ?_) fun hTmp => step_goes (fun hFault => ?_) fun hRenamed => ?_
  · show written (tr ++ _) <+: _
    simp [written_append, hTr, written_cons, Act.writes]
  · show written (tr ++ _) <+: _
    simp [written_append, hTr, written_cons, hFault, Act.writes]
  · refine (moveKey_goes file' _).mono fun tr' r t' h => ?_
    show Follows _ (written (tr ++ _)) r
    simpa [written_append, hTr, written_cons, hRenamed, Act.writes] using h

theorem runMigration_quiet {s : Stores} {faults : List Bool}
    (hQuiet : ∀ file, s.registry = some file → file.get "default" = none →
      ∀ legacy, s.legacy ≠ some (.holds legacy)) :
    Prog.Goes runMigration ⟨s, faults⟩ fun tr r _ =>
      written tr = [] ∧ ∀ outcome, r = .ok outcome → outcome ≠ .migrated ∧
        ∃ file, s.registry = some file ∧ (file.get "default" = none → s.legacy = none) := by
  refine loadFrom_goes (fun tr t e hTr => ⟨hTr, fun _ h => by cases h⟩) fun tr t file hTr hStores hFile => ?_
  replace hFile : s.registry = some file := hFile
  cases hGet : file.get "default" with
  | some entry =>
    refine ⟨(written_append tr []).trans (by rw [hTr]; rfl), fun outcome h => ?_⟩
    cases h
    exact ⟨by decide, file, hFile, fun h => by cases hGet.symm.trans h⟩
  | none =>
    refine .perform ?_
    rw [hStores]
    cases hLegacy : s.legacy with
    | none =>
      refine ⟨by rw [written_append, hTr]; rfl, fun outcome h => ?_⟩
      cases h
      exact ⟨by decide, file, hFile, fun _ => rfl⟩
    | some content =>
      cases content with
      | holds legacy => exact absurd hLegacy (hQuiet file hFile hGet legacy)
      | malformed =>
        dsimp only
        refine step_goes (fun _ => ⟨?_, fun _ h => by cases h⟩) fun _ => ⟨?_, fun _ h => by cases h⟩
        · rw [written_append, hTr]
          rfl
        · show written (tr ++ _) = []
          rw [written_append, hTr]
          rfl

end Steps

theorem moveKey_clean (legacy : Value) (s : Stores) :
    ((moveKey legacy >>= fun _ => (pure .migrated : Op MigrationOutcome)).run ⟨s, []⟩).1 =
      .ok .migrated := by
  unfold moveKey
  cases textField legacy "api_key" with
  | none => rfl
  | some key => rfl

theorem runMigration_clean {s : Stores} {file : ProviderFile} (hFile : s.registry = some file)
    (hReady : file.get "default" = none → ∃ legacy, s.legacy = some (.holds legacy)) :
    ∃ outcome, (runMigration.run ⟨s, []⟩).1 = .ok outcome := by
  have hLoad (f : ProviderFile → Op MigrationOutcome) :
      (loadFrom >>= f).run ⟨s, []⟩ = (f file).run ⟨s, []⟩ := by
    obtain ⟨providers, tokens, legacy⟩ := s
    cases providers with
    | none =>
      cases hFile
      rfl
    | some content =>
      cases content with
      | malformed => cases hFile
      | holds file' =>
        cases hFile
        rfl
  unfold runMigration
  rw [hLoad]
  cases hGet : file.get "default" with
  | some entry => exact ⟨.alreadyMigrated, rfl⟩
  | none =>
    obtain ⟨legacy, hLegacy⟩ := hReady hGet
    obtain ⟨providers, tokens, content⟩ := s
    cases hLegacy
    exact ⟨.migrated, moveKey_clean legacy _⟩

def keyOf : JsonFile Value → Option String
  | .holds legacy => textField legacy "api_key"
  | .malformed => none

/-- The default provider is there, the key is in the keychain, and no `api_key` is left. -/
structure Done (key : Option String) (s : Stores) : Prop where
  provider : ∃ file entry, s.registry = some file ∧ file.get "default" = some entry
  stored : ∀ k, key = some k → s.tokens.lookup (keychainAccount "default") = some k
  scrubbed : ∀ legacy, s.legacy = some (.holds legacy) → legacy.get "api_key" = none

/-- The key is in the keychain or in the configuration. -/
def Kept (key : Option String) (s : Stores) : Prop :=
  ∀ k, key = some k → s.tokens.lookup (keychainAccount "default") = some k ∨
    ∃ legacy, s.legacy = some (.holds legacy) ∧ textField legacy "api_key" = some k

/-- The registry can be read and has no default provider. -/
def Fresh (s : Stores) : Prop := ∃ file, s.registry = some file ∧ file.get "default" = none

/-- No run returns: the registry cannot be read, or the configuration that is to be migrated. -/
def Blocked (s : Stores) : Prop := s.registry = none ∨ Fresh s ∧ s.legacy = some .malformed

/-- The key is kept at every moment, a run that returns has done everything, also the next one after a
run that did not; and after a migration nothing changes. -/
structure Attempt.Right (key : Option String) (s : Stores) (a : Attempt) : Prop where
  kept : ∀ pre, pre <+: a.steps s → Kept key (a.afterSteps s pre)
  ends : a.Returns s → Done key (a.next s)
  recovers : ∀ later : Attempt, later.Returns (a.next s) → Done key (later.next (a.next s))
  settled : a.result s = some (.ok .migrated) → ∀ later : Attempt, ∀ pre,
    pre <+: later.steps (a.next s) → later.afterSteps (a.next s) pre = a.next s

/-- An attempt from fresh stores finds no key that is no text, and where it registers the provider of a
key it also takes the key out of the old file. -/
def Attempt.Proper (key : Option String) (s : Stores) (a : Attempt) : Prop :=
  Blocked s ∨ Done key s ∨ Fresh s ∧
    (key = none → ∀ legacy, s.legacy = some (.holds legacy) → legacy.get "api_key" = none) ∧
    (key ≠ none → (∃ file, .renameProviders file ∈ written (a.steps s)) →
      ∃ legacy, .renameLegacy legacy ∈ written (a.steps s))

/-- The configuration is there, its key is kept, and without a default provider it still has it. -/
structure Sound (key : Option String) (s : Stores) : Prop where
  legacy : s.legacy ≠ none
  kept : Kept key s
  whole : Fresh s → ∀ c, s.legacy = some c → keyOf c = key

namespace Attempt

variable (a : Attempt) (s : Stores)

theorem steps_prefix : a.steps s <+: runMigration.trace ⟨s, a.faults⟩ := by
  unfold steps
  split
  · exact List.take_prefix _ _
  · exact List.prefix_refl _

theorem moment {pre : List (Act × Machine)} (h : pre <+: a.steps s) :
    a.afterSteps s pre = applyAll s (written pre) := by
  obtain ⟨rest, hRest⟩ := h.trans (a.steps_prefix s)
  have hChained := runMigration.trace_chained ⟨s, a.faults⟩
  rw [← hRest] at hChained
  exact after_stores (Prog.chained_append.mp hChained).1

theorem result_of_returns {a : Attempt} {s : Stores} {outcome : MigrationOutcome}
    (h : a.result s = some (.ok outcome)) :
    (runMigration.run ⟨s, a.faults⟩).1 = .ok outcome ∧ a.steps s = runMigration.trace ⟨s, a.faults⟩ := by
  unfold result at h
  unfold steps
  split at h
  · cases h
  · exact ⟨Option.some.inj h, rfl⟩

def calm : Attempt := ⟨[], none⟩

theorem calm_returns {s : Stores} {file : ProviderFile} (hFile : s.registry = some file)
    (hReady : file.get "default" = none → ∃ legacy, s.legacy = some (.holds legacy)) :
    calm.Returns s := by
  obtain ⟨outcome, h⟩ := runMigration_clean hFile hReady
  exact ⟨outcome, congrArg some h⟩

end Attempt

/-- There is a default provider, or nothing that could be migrated. -/
def Quiet (s : Stores) : Prop :=
  ∀ file, s.registry = some file → file.get "default" = none → ∀ legacy, s.legacy ≠ some (.holds legacy)

namespace Quiet

variable {s : Stores} {a : Attempt}

theorem moment (h : Quiet s) {pre : List (Act × Machine)} (hPre : pre <+: a.steps s) :
    a.afterSteps s pre = s := by
  have hNone : written pre = [] := by
    have hPrefix := written_mono (hPre.trans (a.steps_prefix s))
    rw [(runMigration_quiet h).1] at hPrefix
    exact List.prefix_nil.mp hPrefix
  rw [a.moment s hPre, hNone]
  rfl

theorem next (h : Quiet s) (a : Attempt) : a.next s = s := h.moment (List.prefix_refl _)

theorem returns (h : Quiet s) {outcome : MigrationOutcome} (hResult : a.result s = some (.ok outcome)) :
    outcome ≠ .migrated ∧ ∃ file, s.registry = some file ∧ (file.get "default" = none → s.legacy = none) :=
  (runMigration_quiet h).2 outcome (Attempt.result_of_returns hResult).1

end Quiet

variable {key : Option String} {s : Stores} {a : Attempt}

theorem right_of_blocked (h : Sound key s) (hBlocked : Blocked s) : a.Right key s := by
  have hQuiet : Quiet s := by
    intro file hFile hNew legacy hLegacy
    rcases hBlocked with hNone | ⟨-, hMalformed⟩
    · cases hNone.symm.trans hFile
    · cases hMalformed.symm.trans hLegacy
  have hNever (a : Attempt) : ¬a.Returns s := by
    rintro ⟨outcome, hResult⟩
    obtain ⟨-, file, hFile, hNone⟩ := hQuiet.returns hResult
    rcases hBlocked with hUnread | ⟨⟨file', hFile', hNew⟩, -⟩
    · cases hUnread.symm.trans hFile
    · obtain rfl : file = file' := Option.some.inj (hFile.symm.trans hFile')
      exact h.legacy (hNone hNew)
  refine ⟨fun pre hPre => ?_, fun hReturns => absurd hReturns (hNever a), fun later hReturns => ?_,
    fun hResult => absurd ⟨_, hResult⟩ (hNever a)⟩
  · rw [hQuiet.moment hPre]
    exact h.kept
  · rw [hQuiet.next] at hReturns
    exact absurd hReturns (hNever later)

theorem right_iff_done (h : Sound key s) {file : ProviderFile} {entry : LlmProviderEntry}
    (hFile : s.registry = some file) (hEntry : file.get "default" = some entry) :
    a.Right key s ↔ Done key s := by
  have hQuiet : Quiet s := by
    intro file' hFile' hNew
    obtain rfl : file' = file := Option.some.inj (hFile'.symm.trans hFile)
    cases hNew.symm.trans hEntry
  constructor
  · intro hRight
    have hDone := hRight.recovers .calm
    rw [hQuiet.next, hQuiet.next] at hDone
    refine hDone (Attempt.calm_returns hFile fun hNew => ?_)
    cases hNew.symm.trans hEntry
  · intro hDone
    refine ⟨fun pre hPre => ?_, fun _ => ?_, fun later _ => ?_, fun hResult => ?_⟩
    · rw [hQuiet.moment hPre]
      exact h.kept
    · rw [hQuiet.next]
      exact hDone
    · rw [hQuiet.next, hQuiet.next]
      exact hDone
    · exact absurd rfl (hQuiet.returns hResult).1

theorem get_remove (field : String) (v : Value) : (remove field v).get field = none := by
  cases v with
  | object fields =>
    show (fields.filter (·.1 ≠ field)).lookup field = none
    rw [List.lookup_eq_none_iff]
    intro e he
    have hOther : e.1 ≠ field := of_decide_eq_true (List.mem_filter.mp he).2
    exact bne_iff_ne.mpr hOther.symm
  | null | bool _ | number _ | string _ | array _ => rfl

theorem get_ne_none {v : Value} {field k : String} (h : textField v field = some k) :
    v.get field ≠ none := by
  intro hNone
  rw [textField, hNone] at h
  cases h

section Plan

variable {file : ProviderFile} {legacy : Value}

theorem registered_entry (file : ProviderFile) (legacy : Value) :
    (file.upsert (entryOf legacy) true).get "default" = some (entryOf legacy) :=
  file.get_upsert (entryOf legacy) true

theorem done_of_plan (hLegacy : s.legacy = some (.holds legacy))
    (hField : textField legacy "api_key" = none → legacy.get "api_key" = none) :
    Done (textField legacy "api_key") (applyAll s (plan file legacy)) := by
  unfold plan
  cases hKey : textField legacy "api_key" with
  | none =>
    refine ⟨⟨_, _, rfl, registered_entry file legacy⟩, fun k h => (by cases h), fun legacy' h => ?_⟩
    replace h : s.legacy = some (.holds legacy') := h
    cases hLegacy.symm.trans h
    exact hField hKey
  | some key =>
    refine ⟨⟨_, _, rfl, registered_entry file legacy⟩, fun k h => ?_, fun legacy' h => ?_⟩
    · cases h
      exact Finmap.lookup_insert _
    · cases h
      exact get_remove "api_key" legacy

theorem kept_along_plan (hLegacy : s.legacy = some (.holds legacy)) {xs : List Act}
    (h : xs <+: plan file legacy) : Kept (textField legacy "api_key") (applyAll s xs) := by
  intro k hKey
  unfold plan at h
  rw [hKey] at h
  obtain ⟨n, rfl⟩ : ∃ n, xs = List.take n _ := ⟨xs.length, (List.prefix_iff_eq_take.mp h)⟩
  match n with
  | 0 => exact .inr ⟨legacy, hLegacy, hKey⟩
  | 1 => exact .inr ⟨legacy, hLegacy, hKey⟩
  | 2 => exact .inl (Finmap.lookup_insert _)
  | n + 3 => exact .inl (by simp [applyAll, Act.effect])

theorem entry_of_written {xs : List Act} (h : xs <+: plan file legacy) (hSome : xs ≠ []) (s : Stores) :
    (applyAll s xs).registry = some (file.upsert (entryOf legacy) true) := by
  obtain ⟨n, rfl⟩ : ∃ n, xs = List.take n _ := ⟨xs.length, (List.prefix_iff_eq_take.mp h)⟩
  unfold plan at *
  cases textField legacy "api_key" with
  | none =>
    match n with
    | 0 => exact absurd rfl hSome
    | n + 1 => simp [applyAll, Act.effect, Stores.registry]
  | some key =>
    match n with
    | 0 => exact absurd rfl hSome
    | 1 => rfl
    | 2 => rfl
    | n + 3 => simp [applyAll, Act.effect, Stores.registry]

theorem legacy_of_unwritten {xs : List Act} (h : ∀ v, Act.renameLegacy v ∉ xs) (s : Stores) :
    (applyAll s xs).legacy = s.legacy := by
  induction xs generalizing s with
  | nil => rfl
  | cons x xs ih =>
    refine (ih (fun v hv => h v (List.mem_cons_of_mem _ hv)) (x.effect s)).trans ?_
    cases x with
    | renameLegacy v => exact absurd List.mem_cons_self (h v)
    | look | read | mkdir | writeTmp | renameProviders _ | storeToken _ _ => rfl

theorem eq_plan_iff {xs : List Act} (h : xs <+: plan file legacy) :
    xs = [] ∨ xs = plan file legacy ↔ (textField legacy "api_key" ≠ none →
      (∃ file, .renameProviders file ∈ xs) → ∃ v, .renameLegacy v ∈ xs) := by
  obtain ⟨n, rfl⟩ : ∃ n, xs = List.take n _ := ⟨xs.length, (List.prefix_iff_eq_take.mp h)⟩
  unfold plan
  cases textField legacy "api_key" with
  | none =>
    match n with
    | 0 => simp
    | n + 1 => simp
  | some key =>
    match n with
    | 0 => simp
    | 1 => simp
    | 2 => simp
    | n + 3 => simp

end Plan

section Migrating

variable {file : ProviderFile} {legacy : Value}

theorem written_follows (hFile : s.registry = some file) (hNew : file.get "default" = none)
    (hLegacy : s.legacy = some (.holds legacy)) {pre : List (Act × Machine)} (hPre : pre <+: a.steps s) :
    written pre <+: plan file legacy := by
  refine (written_mono (hPre.trans (a.steps_prefix s))).trans ?_
  have hFollows := runMigration_follows a.faults hFile hNew hLegacy
  unfold Prog.Goes at hFollows
  cases hRun : (runMigration.run ⟨s, a.faults⟩).1 with
  | ok outcome =>
    rw [hRun] at hFollows
    rw [hFollows.2]
  | error e =>
    rw [hRun] at hFollows
    exact hFollows

theorem written_of_returns (hFile : s.registry = some file) (hNew : file.get "default" = none)
    (hLegacy : s.legacy = some (.holds legacy)) (hReturns : a.Returns s) :
    written (a.steps s) = plan file legacy := by
  obtain ⟨outcome, hResult⟩ := hReturns
  obtain ⟨hRun, hSteps⟩ := Attempt.result_of_returns hResult
  have hFollows := runMigration_follows a.faults hFile hNew hLegacy
  unfold Prog.Goes at hFollows
  rw [hRun] at hFollows
  rw [hSteps]
  exact hFollows.2

theorem quiet_of_entry {file' : ProviderFile} {entry : LlmProviderEntry}
    (hFile : s.registry = some file') (hEntry : file'.get "default" = some entry) : Quiet s := by
  intro file'' hFile'' hNew
  obtain rfl : file'' = file' := Option.some.inj (hFile''.symm.trans hFile)
  cases hNew.symm.trans hEntry

theorem right_iff_complete (hFile : s.registry = some file) (hNew : file.get "default" = none)
    (hLegacy : s.legacy = some (.holds legacy)) :
    a.Right (textField legacy "api_key") s ↔
      (textField legacy "api_key" = none → legacy.get "api_key" = none) ∧
      (textField legacy "api_key" ≠ none → (∃ file, .renameProviders file ∈ written (a.steps s)) →
        ∃ v, .renameLegacy v ∈ written (a.steps s)) := by
  have hNext : a.next s = applyAll s (written (a.steps s)) := a.moment s (List.prefix_refl _)
  have hPart : written (a.steps s) <+: plan file legacy :=
    written_follows hFile hNew hLegacy (List.prefix_refl _)
  have hEntry : written (a.steps s) ≠ [] →
      (a.next s).registry = some (file.upsert (entryOf legacy) true) := by
    rw [hNext]
    exact fun hSome => entry_of_written hPart hSome s
  have hQuiet (hSome : written (a.steps s) ≠ []) : Quiet (a.next s) :=
    quiet_of_entry (hEntry hSome) (registered_entry file legacy)
  rw [← eq_plan_iff hPart]
  constructor
  · intro hRight
    -- a later attempt without failures returns, and so must have done everything
    have hStill (hUnscrubbed : ∀ v, .renameLegacy v ∉ written (a.steps s)) :
        (a.next s).legacy = some (.holds legacy) := by
      rw [hNext, legacy_of_unwritten hUnscrubbed, hLegacy]
    have hScrubbed (hSome : written (a.steps s) ≠ []) (hUnscrubbed : ∀ v, .renameLegacy v ∉ written (a.steps s)) :
        legacy.get "api_key" = none := by
      have hDone := hRight.recovers .calm
      rw [(hQuiet hSome).next] at hDone
      refine (hDone (Attempt.calm_returns (hEntry hSome) fun hNone => ?_)).scrubbed legacy (hStill hUnscrubbed)
      cases hNone.symm.trans (registered_entry file legacy)
    refine ⟨fun hNoKey => ?_, ?_⟩
    · have hPlan (v : Value) : Act.renameLegacy v ∉ plan file legacy := by
        rw [plan, hNoKey]
        simp
      by_cases hSome : written (a.steps s) = []
      · have hSame : a.next s = s := by
          rw [hNext, hSome]
          rfl
        have hReturns : Attempt.calm.Returns s := Attempt.calm_returns hFile fun _ => ⟨legacy, hLegacy⟩
        have hDone := hRight.recovers .calm
        rw [hSame] at hDone
        refine (hDone hReturns).scrubbed legacy ?_
        rw [Attempt.next, Attempt.calm.moment s (List.prefix_refl _),
          written_of_returns hFile hNew hLegacy hReturns, legacy_of_unwritten hPlan, hLegacy]
      · exact hScrubbed hSome fun v hv => hPlan v (hPart.subset hv)
    · by_contra hNot
      rw [eq_plan_iff hPart] at hNot
      push Not at hNot
      obtain ⟨hKey, ⟨file', hRegistered⟩, hUnscrubbed⟩ := hNot
      obtain ⟨k, hKey⟩ := Option.ne_none_iff_exists'.mp hKey
      exact get_ne_none hKey (hScrubbed (List.ne_nil_of_mem hRegistered) hUnscrubbed)
  · rintro ⟨hField, hAll⟩
    have hPlan : plan file legacy ≠ [] := List.cons_ne_nil _ _
    have hDone : Done (textField legacy "api_key") (applyAll s (plan file legacy)) :=
      done_of_plan hLegacy hField
    refine ⟨fun pre hPre => ?_, fun hReturns => ?_, fun later hReturns => ?_, fun hResult => ?_⟩
    · rw [a.moment s hPre]
      exact kept_along_plan hLegacy (written_follows hFile hNew hLegacy hPre)
    · rw [hNext, written_of_returns hFile hNew hLegacy hReturns]
      exact hDone
    · rcases hAll with hNone | hWhole
      · have hSame : a.next s = s := by
          rw [hNext, hNone]
          rfl
        rw [hSame] at hReturns ⊢
        rw [Attempt.next, later.moment s (List.prefix_refl _),
          written_of_returns hFile hNew hLegacy hReturns]
        exact hDone
      · have hSome : written (a.steps s) ≠ [] := hWhole ▸ hPlan
        rw [(hQuiet hSome).next, hNext, hWhole]
        exact hDone
    · have hWhole := written_of_returns hFile hNew hLegacy ⟨_, hResult⟩
      exact fun later pre hPre => (hQuiet (hWhole ▸ hPlan)).moment hPre

end Migrating

theorem cases_of_sound (h : Sound key s) : Quiet s ∨ ∃ file legacy, s.registry = some file ∧
    file.get "default" = none ∧ s.legacy = some (.holds legacy) ∧ textField legacy "api_key" = key := by
  by_cases hQuiet : Quiet s
  · exact .inl hQuiet
  · unfold Quiet at hQuiet
    push Not at hQuiet
    obtain ⟨file, hFile, hNew, legacy, hLegacy⟩ := hQuiet
    exact .inr ⟨file, legacy, hFile, hNew, hLegacy, h.whole ⟨file, hFile, hNew⟩ _ hLegacy⟩

theorem Sound.next (h : Sound key s) (a : Attempt) : Sound key (a.next s) := by
  rcases cases_of_sound h with hQuiet | ⟨file, legacy, hFile, hNew, hLegacy, rfl⟩
  · rw [hQuiet.next]
    exact h
  · have hPart : written (a.steps s) <+: plan file legacy :=
      written_follows hFile hNew hLegacy (List.prefix_refl _)
    rw [Attempt.next, a.moment s (List.prefix_refl _)]
    by_cases hNone : written (a.steps s) = []
    · rw [hNone]
      exact h
    · refine ⟨?_, kept_along_plan hLegacy hPart, fun ⟨file', hFile', hNew'⟩ => ?_⟩
      · by_cases hRenamed : ∃ v, Act.renameLegacy v ∈ written (a.steps s)
        · obtain ⟨v, hv⟩ := hRenamed
          have hWhole : written (a.steps s) = plan file legacy := by
            refine ((eq_plan_iff hPart).mpr fun _ _ => ⟨v, hv⟩).resolve_left hNone
          rw [hWhole]
          unfold plan
          cases textField legacy "api_key" with
          | none => exact h.legacy
          | some k => exact Option.some_ne_none _
        · push Not at hRenamed
          rw [legacy_of_unwritten hRenamed]
          exact h.legacy
      · rw [entry_of_written hPart hNone] at hFile'
        cases hFile'
        cases hNew'.symm.trans (registered_entry file legacy)

theorem right_iff (h : Sound key s) (a : Attempt) : a.Right key s ↔ a.Proper key s := by
  cases hFile : s.registry with
  | none => exact iff_of_true (right_of_blocked h (.inl hFile)) (.inl (.inl hFile))
  | some file =>
    cases hGet : file.get "default" with
    | some entry =>
      have hNotFresh : ¬Fresh s := by
        rintro ⟨file', hFile', hNew⟩
        obtain rfl : file' = file := Option.some.inj (hFile'.symm.trans hFile)
        cases hNew.symm.trans hGet
      rw [right_iff_done h hFile hGet]
      refine ⟨fun hDone => .inr (.inl hDone), ?_⟩
      rintro (hBlocked | hDone | hFresh)
      · rcases hBlocked with hNone | hMalformed
        · cases hNone.symm.trans hFile
        · exact absurd hMalformed.1 hNotFresh
      · exact hDone
      · exact absurd hFresh.1 hNotFresh
    | none =>
      have hFresh : Fresh s := ⟨file, hFile, hGet⟩
      obtain ⟨content, hContent⟩ := Option.ne_none_iff_exists'.mp h.legacy
      cases content with
      | malformed =>
        have hBlocked : Blocked s := .inr ⟨hFresh, hContent⟩
        exact iff_of_true (right_of_blocked h hBlocked) (.inl hBlocked)
      | holds legacy =>
        obtain rfl : textField legacy "api_key" = key := h.whole hFresh _ hContent
        rw [right_iff_complete hFile hGet hContent]
        constructor
        · rintro ⟨hField, hWhole⟩
          refine .inr (.inr ⟨hFresh, fun hNoKey legacy' hLegacy => ?_, hWhole⟩)
          cases hContent.symm.trans hLegacy
          exact hField hNoKey
        · rintro (hBlocked | hDone | ⟨-, hField, hWhole⟩)
          · rcases hBlocked with hNone | ⟨-, hMalformed⟩
            · cases hNone.symm.trans hFile
            · cases hMalformed.symm.trans hContent
          · obtain ⟨file', entry, hFile', hEntry⟩ := hDone.provider
            obtain rfl : file' = file := Option.some.inj (hFile'.symm.trans hFile)
            cases hGet.symm.trans hEntry
          · exact ⟨fun hNoKey => hField hNoKey legacy hContent, hWhole⟩

/-- Every attempt leaves the migration done, or to be done. -/
def Recovers (key : Option String) : Stores → List Attempt → Prop :=
  History.Each (fun s (a : Attempt) => a.next s) fun s a => a.Right key s

/-- Every attempt is a proper one. -/
def Undisturbed (key : Option String) : Stores → List Attempt → Prop :=
  History.Each (fun s (a : Attempt) => a.next s) fun s a => a.Proper key s

/-- However often the migration is attempted, every attempt is right if and only if every attempt meets
the condition. -/
theorem migration_recovers_iff (s : Stores) (c : JsonFile Value) (hLegacy : s.legacy = some c)
    (attempts : List Attempt) :
    Recovers (keyOf c) s attempts ↔ Undisturbed (keyOf c) s attempts := by
  have hSound : Sound (keyOf c) s := by
    refine ⟨by simp [hLegacy], fun k hKey => .inr ?_, fun _ c' hc' => ?_⟩
    · cases c with
      | malformed => cases hKey
      | holds legacy => exact ⟨legacy, hLegacy, hKey⟩
    · cases hLegacy.symm.trans hc'
      rfl
  exact History.each_congr hSound (fun t a h _ => h.next a) (fun t a h => right_iff h a) attempts

section Examples

def openAiConfig : Value :=
  .object [("base_url", .string "https://api.openai.com/v1"), ("api_key", .string "sk-test")]

def oldStores : Stores := ⟨none, ∅, some (.holds openAiConfig)⟩

/-- The first attempt cannot write the registry, and the second dies before it does. -/
theorem migrated_at_last :
    Recovers (keyOf (.holds openAiConfig)) oldStores [⟨[false, false, true], none⟩, ⟨[], some 3⟩, .calm] := by
  have hFresh : Fresh oldStores := ⟨⟨none, []⟩, rfl, rfl⟩
  have hEarly (a : Attempt) (hNone : written (a.steps oldStores) = []) :
      a.Proper (keyOf (.holds openAiConfig)) oldStores := by
    refine .inr (.inr ⟨hFresh, fun hNoKey => (by cases hNoKey), fun _ h => ?_⟩)
    obtain ⟨file, hWritten⟩ := h
    rw [hNone] at hWritten
    cases hWritten
  refine (migration_recovers_iff oldStores (.holds openAiConfig) rfl _).mpr
    ⟨hEarly _ rfl, hEarly _ rfl, .inr (.inr ⟨hFresh, fun hNoKey => ?_, fun _ _ => ?_⟩), trivial⟩
  · cases hNoKey
  · refine ⟨remove "api_key" openAiConfig, ?_⟩
    exact List.mem_cons_of_mem _ (List.mem_cons_of_mem _ List.mem_cons_self)

/-- Where the keychain cannot be written, the next attempt takes the migration for done. -/
theorem key_left_behind :
    ¬Recovers (keyOf (.holds openAiConfig)) oldStores
      [⟨[false, false, false, false, true], none⟩, .calm] := by
  rintro ⟨hRight, -⟩
  have hScrubbed := (hRight.recovers .calm ⟨.alreadyMigrated, rfl⟩).scrubbed openAiConfig rfl
  cases hScrubbed

end Examples

end Migration

end Cronymax.Llm
