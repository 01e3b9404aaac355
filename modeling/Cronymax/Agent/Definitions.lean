import Cronymax.Capability.Shell
import Cronymax.Extensions.Redaction

/-! The two readers of an agent's definition: the registry, from which the editor shows the agents, and the
loader, from which they run.  What a file says under each key is read by one library for both; what a reader
requires, and what it makes of the values, is its own. -/

namespace Cronymax.Agent.Definitions

open Capability (trim)
open Extensions (lower)

/-- What is found under a key, for a given type. -/
inductive Field (α : Type) where
  | absent
  | read (a : α)
  | malformed
deriving DecidableEq

namespace Field

variable {α : Type}

def ok : Field α → Bool
  | malformed => false
  | _ => true

/-- `#[serde(default)]`. -/
def orDefault (default : α) : Field α → α
  | read a => a
  | _ => default

end Field

inductive Value where
  | string (s : List Char)
  | mapping (entries : List (List Char × Option (List Char)))
  | other
deriving DecidableEq

/-- `get`, `as_str` and `unwrap_or("")`. -/
def strAt (entries : List (List Char × Option (List Char))) (key : List Char) : List Char :=
  ((entries.find? fun e => e.1 = key).bind (·.2)).getD []

/-- `critic:`. -/
structure RawCriticConfig where
  model : List Char
  artifactKinds : List (List Char)
  maxRevisions : Nat
  promptTemplate : Option (List Char)
deriving DecidableEq

/-- A YAML document of an agent, by the fields that the two readers know. -/
structure Document where
  name : Field (List Char)
  kind : Field (List Char)
  llm : Field Value
  agentProvider : Field Value
  description : Field (List Char)
  systemPrompt : Field (List Char)
  memoryNamespace : Field (List Char)
  tools : Field (List (List Char))
  reasoningEffort : Field (List Char)
  injectWorkspace : Field Bool
  critic : Field (Option RawCriticConfig)

structure AgentProviderRef where
  id : List Char
  model : Option (List Char)
deriving DecidableEq

def efforts : List (List Char) := ["minimal", "low", "medium", "high", "xhigh"].map String.toList

/-- The agent that needs no file. -/
def builtin : List Char := "builtin".toList

namespace Registry

structure AgentDef where
  name : List Char
  kind : List Char
  llm : List Char
  agentProvider : Option AgentProviderRef
  llmProvider : List Char
  llmModel : List Char
  description : List Char
  systemPrompt : List Char
  memoryNamespace : List Char
  tools : List (List Char)
  reasoningEffort : List Char

structure RawAgentYaml where
  name : List Char
  kind : List Char
  llm : Value
  agentProvider : Value
  description : List Char
  systemPrompt : List Char
  memoryNamespace : List Char
  tools : List (List Char)
  reasoningEffort : List Char

/-- `serde_yml::from_str`: the name is required. -/
@[grind =] def RawAgentYaml.fromStr (doc : Document) : Option RawAgentYaml :=
  match doc.name with
  | .read name =>
    if doc.kind.ok && doc.llm.ok && doc.agentProvider.ok && doc.description.ok && doc.systemPrompt.ok &&
        doc.memoryNamespace.ok && doc.tools.ok && doc.reasoningEffort.ok then
      some
        { name
          kind := doc.kind.orDefault "worker".toList
          llm := doc.llm.orDefault .other
          agentProvider := doc.agentProvider.orDefault .other
          description := doc.description.orDefault []
          systemPrompt := doc.systemPrompt.orDefault []
          memoryNamespace := doc.memoryNamespace.orDefault []
          tools := doc.tools.orDefault []
          reasoningEffort := doc.reasoningEffort.orDefault [] }
    else none
  | _ => none

def readLlm : Value → List Char × List Char × List Char × List Char
  | .mapping m =>
    (strAt m "model".toList, strAt m "provider".toList, strAt m "model".toList, strAt m "reasoning_effort".toList)
  | .string s => (s, [], s, [])
  | .other => ([], [], [], [])

def readAgentProvider : Value → Option AgentProviderRef
  | .mapping m =>
    let id := strAt m "id".toList
    if id = [] ∨ id = builtin then none
    else
      let model := (m.find? fun e => e.1 = "model".toList).bind (·.2)
      some { id, model := model.filter (· ≠ []) }
  | .string s => if s ≠ [] ∧ s ≠ builtin then some { id := s, model := none } else none
  | .other => none

/-- `into_agent_def` of the registry. -/
def intoAgentDef (raw : RawAgentYaml) : AgentDef :=
  let llm := readLlm raw.llm
  let effort := if raw.reasoningEffort ≠ [] then lower (trim raw.reasoningEffort) else lower (trim llm.2.2.2)
  { name := raw.name
    kind := if raw.kind = "reviewer".toList then "reviewer".toList else "worker".toList
    llm := llm.1
    agentProvider := readAgentProvider raw.agentProvider
    llmProvider := llm.2.1
    llmModel := llm.2.2.1
    description := raw.description
    systemPrompt := raw.systemPrompt
    memoryNamespace := if raw.memoryNamespace = [] then raw.name else raw.memoryNamespace
    tools := raw.tools
    reasoningEffort := if effort ∈ efforts then effort else [] }

/-- `parse_agent_yaml`: the reader behind the list of agents. -/
def parseAgentYaml (yaml : Option Document) : Option AgentDef :=
  (yaml.bind RawAgentYaml.fromStr).bind fun raw => if raw.name = [] then none else some (intoAgentDef raw)

end Registry

namespace Loader

inductive AgentKind where
  | worker
  | reviewer
  | supervisor
deriving DecidableEq

def AgentKind.asStr : AgentKind → List Char
  | worker => "worker".toList
  | reviewer => "reviewer".toList
  | supervisor => "supervisor".toList

structure AgentDef where
  name : List Char
  kind : AgentKind
  llmProvider : List Char
  llmModel : List Char
  systemPrompt : List Char
  promptSource : List Char
  memoryNamespace : List Char
  tools : List (List Char)
  reasoningEffort : List Char
  injectWorkspace : Bool
  agentProvider : Option AgentProviderRef
  critic : Option RawCriticConfig

structure RawAgentDef where
  name : List Char
  kind : List Char
  llm : Option Value
  systemPrompt : List Char
  memoryNamespace : List Char
  tools : List (List Char)
  reasoningEffort : List Char
  injectWorkspace : Bool
  agentProvider : Option Value
  critic : Option RawCriticConfig

@[grind =] def RawAgentDef.fromStr (doc : Document) : Option RawAgentDef :=
  if doc.name.ok && doc.kind.ok && doc.llm.ok && doc.systemPrompt.ok && doc.memoryNamespace.ok && doc.tools.ok &&
      doc.reasoningEffort.ok && doc.injectWorkspace.ok && doc.agentProvider.ok && doc.critic.ok then
    some
      { name := doc.name.orDefault []
        kind := doc.kind.orDefault []
        llm := some (doc.llm.orDefault .other)
        systemPrompt := doc.systemPrompt.orDefault []
        memoryNamespace := doc.memoryNamespace.orDefault []
        tools := doc.tools.orDefault []
        reasoningEffort := doc.reasoningEffort.orDefault []
        injectWorkspace := doc.injectWorkspace.orDefault true
        agentProvider := some (doc.agentProvider.orDefault .other)
        critic := doc.critic.orDefault none }
  else none

/-- `normalize_effort`: an unknown effort is none. -/
def normalizeEffort (s : List Char) : List Char := if lower (trim s) ∈ efforts then lower (trim s) else []

def parseAgentProvider (value : Option Value) : Option AgentProviderRef :=
  let resolve (id : List Char) (model : Option (List Char)) : Option AgentProviderRef :=
    if id = [] ∨ lower id = builtin then none else some { id, model }
  match value with
  | some (.string s) => resolve (trim s) none
  | some (.mapping m) =>
    let model := (m.find? fun e => e.1 = "model".toList).bind (·.2)
    resolve (trim (strAt m "id".toList)) ((model.map trim).filter (· ≠ []))
  | _ => none

def readLlm : Option Value → List Char × List Char × List Char
  | some (.string s) => ([], s, [])
  | some (.mapping m) => (strAt m "provider".toList, strAt m "model".toList, strAt m "reasoning_effort".toList)
  | _ => ([], [], [])

/-- `into_agent_def` of the loader. -/
def intoAgentDef (raw : RawAgentDef) (fallbackName sourcePath : List Char) : AgentDef :=
  let llm := readLlm raw.llm
  { name := if raw.name = [] then fallbackName else raw.name
    kind :=
      if raw.kind = "reviewer".toList then .reviewer
      else if raw.kind = "supervisor".toList then .supervisor
      else .worker
    llmProvider := llm.1
    llmModel := llm.2.1
    systemPrompt := raw.systemPrompt
    promptSource := sourcePath
    memoryNamespace := raw.memoryNamespace
    tools := raw.tools
    reasoningEffort :=
      if raw.reasoningEffort ≠ [] then normalizeEffort raw.reasoningEffort else normalizeEffort llm.2.2
    injectWorkspace := raw.injectWorkspace
    agentProvider := parseAgentProvider raw.agentProvider
    critic := raw.critic }

/-- The reader behind an invocation: a document that fails is passed over. -/
def load (yaml : Option Document) (agentId sourcePath : List Char) : Option AgentDef :=
  (yaml.bind RawAgentDef.fromStr).map fun raw => intoAgentDef raw agentId sourcePath

end Loader

/-- The two read the same agent. -/
structure SameAgent (shown : Registry.AgentDef) (run : Loader.AgentDef) : Prop where
  name : shown.name = run.name
  kind : shown.kind = run.kind.asStr
  llmProvider : shown.llmProvider = run.llmProvider
  llmModel : shown.llmModel = run.llmModel
  systemPrompt : shown.systemPrompt = run.systemPrompt
  memoryNamespace : shown.memoryNamespace = run.memoryNamespace
  tools : shown.tools = run.tools
  reasoningEffort : shown.reasoningEffort = run.reasoningEffort
  engine : (shown.agentProvider.map (·.id)) = run.agentProvider.map (·.id)

/-- Both readers refuse, or show the same agent. -/
def Agree : Option Registry.AgentDef → Option Loader.AgentDef → Prop
  | none, none => True
  | some shown, some run => SameAgent shown run
  | _, _ => False

/-- The provider that a value names. -/
def providerId : Value → List Char
  | .string s => s
  | .mapping m => strAt m "id".toList
  | .other => []

/-- The fields that both readers know are well formed. -/
def Document.sharedOk (doc : Document) : Bool :=
  doc.name.ok && doc.kind.ok && doc.llm.ok && doc.agentProvider.ok && doc.systemPrompt.ok && doc.memoryNamespace.ok &&
    doc.tools.ok && doc.reasoningEffort.ok

/-- A file that says the same to both: it has a name and a memory namespace, the kind is none that only the loader
knows, and the provider is written as the registry takes it, without blanks around it and, if it is the builtin
one, in small letters. -/
structure Document.Plain (doc : Document) : Prop where
  named : doc.name.orDefault [] ≠ []
  description : doc.description.ok = true
  workspace : doc.injectWorkspace.ok = true
  critic : doc.critic.ok = true
  kind : doc.kind ≠ .read "supervisor".toList
  memory : doc.memoryNamespace.orDefault [] ≠ []
  trimmed : trim (providerId (doc.agentProvider.orDefault .other)) = providerId (doc.agentProvider.orDefault .other)
  builtin : lower (providerId (doc.agentProvider.orDefault .other)) = builtin →
    providerId (doc.agentProvider.orDefault .other) = builtin

/-- The document is one that both readers give up. -/
def Document.Useless (doc : Document) : Prop :=
  (doc.name.orDefault [] = [] ∨ doc.description.ok = false) ∧ (doc.injectWorkspace.ok = false ∨ doc.critic.ok = false)

/-- When the two readers agree, by the fields of the document. -/
def ReadAlike : Option Document → Prop
  | none => True
  | some doc => doc.sharedOk = true → doc.Plain ∨ doc.Useless

theorem shown_engine (v : Value) : ((Registry.readAgentProvider v).map (·.id)) =
    if providerId v = [] ∨ providerId v = builtin then none else some (providerId v) := by
  cases v with
  | string s =>
    rw [Registry.readAgentProvider, providerId]
    by_cases h : s = [] ∨ s = builtin
    · rw [if_pos h, if_neg fun hNot => h.elim hNot.1 hNot.2]
      rfl
    · rw [if_neg h, if_pos (not_or.mp h)]
      rfl
  | mapping m =>
    rw [Registry.readAgentProvider, providerId]
    simp only
    split_ifs <;> rfl
  | other => rfl

theorem run_engine (v : Value) : ((Loader.parseAgentProvider (some v)).map (·.id)) =
    if trim (providerId v) = [] ∨ lower (trim (providerId v)) = builtin then none else some (trim (providerId v)) := by
  cases v with
  | string s =>
    rw [Loader.parseAgentProvider, providerId]
    simp only
    split_ifs <;> rfl
  | mapping m =>
    rw [Loader.parseAgentProvider, providerId]
    simp only
    split_ifs <;> rfl
  | other => rfl

theorem engine_iff (id : List Char) :
    ((if id = [] ∨ id = builtin then none else some id) =
      if trim id = [] ∨ lower (trim id) = builtin then none else some (trim id)) ↔
    trim id = id ∧ (lower id = builtin → id = builtin) := by
  have hTrimmed : trim builtin = builtin := by decide
  have hLower : lower builtin = builtin := by decide
  constructor
  · intro hSame
    by_cases hNone : id = [] ∨ id = builtin
    · rcases hNone with rfl | rfl
      · exact ⟨rfl, fun hBuiltin => absurd hBuiltin (by decide)⟩
      · exact ⟨hTrimmed, fun _ => rfl⟩
    · rw [if_neg hNone] at hSame
      split_ifs at hSame with hRun
      · have hTrim : trim id = id := (Option.some.inj hSame).symm
        rw [hTrim] at hRun
        exact ⟨hTrim, fun hBuiltin => absurd (.inr hBuiltin) hRun⟩
  · rintro ⟨hTrim, hBuiltin⟩
    have hIff : (id = [] ∨ id = builtin) ↔ id = [] ∨ lower id = builtin :=
      or_congr_right ⟨fun hSame => hSame ▸ hLower, hBuiltin⟩
    rw [hTrim]
    simp only [hIff]

theorem readLlm_same (v : Value) : ((Registry.readLlm v).2 : List Char × List Char × List Char) =
    Loader.readLlm (some v) := by
  cases v <;> rfl

section Readers

variable {doc : Document}

theorem Document.sharedOk_iff : doc.sharedOk = true ↔
    doc.name.ok = true ∧ doc.kind.ok = true ∧ doc.llm.ok = true ∧ doc.agentProvider.ok = true ∧
      doc.systemPrompt.ok = true ∧ doc.memoryNamespace.ok = true ∧ doc.tools.ok = true ∧
      doc.reasoningEffort.ok = true := by
  simp only [Document.sharedOk, Bool.and_eq_true, and_assoc]

def rawShown (doc : Document) : Registry.RawAgentYaml where
  name := doc.name.orDefault []
  kind := doc.kind.orDefault "worker".toList
  llm := doc.llm.orDefault .other
  agentProvider := doc.agentProvider.orDefault .other
  description := doc.description.orDefault []
  systemPrompt := doc.systemPrompt.orDefault []
  memoryNamespace := doc.memoryNamespace.orDefault []
  tools := doc.tools.orDefault []
  reasoningEffort := doc.reasoningEffort.orDefault []

theorem shown_eq (h : doc.sharedOk = true) : Registry.parseAgentYaml (some doc) =
    if doc.name.orDefault [] ≠ [] ∧ doc.description.ok = true then some (Registry.intoAgentDef (rawShown doc))
    else none := by
  obtain ⟨-, hKind, hLlm, hProvider, hPrompt, hMemory, hTools, hEffort⟩ := Document.sharedOk_iff.mp h
  rw [Registry.parseAgentYaml, Option.bind_some, Registry.RawAgentYaml.fromStr, rawShown]
  cases hFound : doc.name with
  | absent => rfl
  | malformed => rfl
  | read name =>
    have hName : (Field.read name).orDefault [] = name := rfl
    simp only [hKind, hLlm, hProvider, hPrompt, hMemory, hTools, hEffort, Bool.true_and, Bool.and_true, hName]
    by_cases hSome : name = []
    · have hNot : ¬(name ≠ [] ∧ doc.description.ok = true) := fun hBoth => hBoth.1 hSome
      rw [if_neg hNot]
      split_ifs
      · rw [Option.bind_some, if_pos hSome]
      · rfl
    · by_cases hDescription : doc.description.ok = true
      · have hBoth : name ≠ [] ∧ doc.description.ok = true := ⟨hSome, hDescription⟩
        rw [if_pos hDescription, if_pos hBoth, Option.bind_some, if_neg hSome]
      · have hNot : ¬(name ≠ [] ∧ doc.description.ok = true) := fun hBoth => hDescription hBoth.2
        rw [if_neg hDescription, if_neg hNot]
        rfl

def rawRun (doc : Document) : Loader.RawAgentDef where
  name := doc.name.orDefault []
  kind := doc.kind.orDefault []
  llm := some (doc.llm.orDefault .other)
  systemPrompt := doc.systemPrompt.orDefault []
  memoryNamespace := doc.memoryNamespace.orDefault []
  tools := doc.tools.orDefault []
  reasoningEffort := doc.reasoningEffort.orDefault []
  injectWorkspace := doc.injectWorkspace.orDefault true
  agentProvider := some (doc.agentProvider.orDefault .other)
  critic := doc.critic.orDefault none

theorem run_eq (h : doc.sharedOk = true) (agentId sourcePath : List Char) :
    Loader.load (some doc) agentId sourcePath =
      if doc.injectWorkspace.ok = true ∧ doc.critic.ok = true then
        some (Loader.intoAgentDef (rawRun doc) agentId sourcePath)
      else none := by
  obtain ⟨hName, hKind, hLlm, hProvider, hPrompt, hMemory, hTools, hEffort⟩ := Document.sharedOk_iff.mp h
  rw [Loader.load, Option.bind_some, Loader.RawAgentDef.fromStr]
  simp only [hName, hKind, hLlm, hProvider, hPrompt, hMemory, hTools, hEffort, Bool.true_and, Bool.and_true,
    Bool.and_eq_true]
  split_ifs <;> rfl

theorem unshared (h : doc.sharedOk = false) (agentId sourcePath : List Char) :
    Registry.parseAgentYaml (some doc) = none ∧ Loader.load (some doc) agentId sourcePath = none := by
  have hNot : ¬(doc.name.ok = true ∧ doc.kind.ok = true ∧ doc.llm.ok = true ∧ doc.agentProvider.ok = true ∧
      doc.systemPrompt.ok = true ∧ doc.memoryNamespace.ok = true ∧ doc.tools.ok = true ∧
      doc.reasoningEffort.ok = true) := fun hAll => by
    rw [Document.sharedOk_iff.mpr hAll] at h
    cases h
  constructor
  · rw [Registry.parseAgentYaml, Option.bind_some, Registry.RawAgentYaml.fromStr]
    cases hFound : doc.name with
    | absent => rfl
    | malformed => rfl
    | read name =>
      rw [hFound] at hNot
      simp only
      rw [if_neg]
      · rfl
      · simp only [Bool.and_eq_true]
        tauto
  · rw [Loader.load, Option.bind_some, Loader.RawAgentDef.fromStr, if_neg]
    · rfl
    · simp only [Bool.and_eq_true]
      tauto

theorem kind_iff (kind : Field (List Char)) (h : kind.ok = true) :
    ((if kind.orDefault "worker".toList = "reviewer".toList then "reviewer".toList else "worker".toList) =
      (if kind.orDefault [] = "reviewer".toList then Loader.AgentKind.reviewer
        else if kind.orDefault [] = "supervisor".toList then .supervisor else .worker).asStr) ↔
      kind ≠ .read "supervisor".toList := by
  cases kind with
  | absent => decide
  | malformed => cases h
  | read k =>
    have hSame (default : List Char) : (Field.read k).orDefault default = k := rfl
    rw [hSame, hSame, ne_eq, Field.read.injEq]
    by_cases hReviewer : k = "reviewer".toList
    · rw [hReviewer]
      decide
    · rw [if_neg hReviewer, if_neg hReviewer]
      by_cases hSupervisor : k = "supervisor".toList
      · rw [hSupervisor]
        decide
      · rw [if_neg hSupervisor]
        exact ⟨fun _ => hSupervisor, fun _ => rfl⟩

theorem same_iff (h : doc.sharedOk = true) (hName : doc.name.orDefault [] ≠ []) (agentId sourcePath : List Char) :
    SameAgent (Registry.intoAgentDef (rawShown doc)) (Loader.intoAgentDef (rawRun doc) agentId sourcePath) ↔
      doc.kind ≠ .read "supervisor".toList ∧ doc.memoryNamespace.orDefault [] ≠ [] ∧
        trim (providerId (doc.agentProvider.orDefault .other)) = providerId (doc.agentProvider.orDefault .other) ∧
        (lower (providerId (doc.agentProvider.orDefault .other)) = builtin →
          providerId (doc.agentProvider.orDefault .other) = builtin) := by
  obtain ⟨-, hKind, -⟩ := Document.sharedOk_iff.mp h
  have hEngine := engine_iff (providerId (doc.agentProvider.orDefault .other))
  rw [← shown_engine, ← run_engine] at hEngine
  have hKinds := kind_iff doc.kind hKind
  have hLlm := readLlm_same (doc.llm.orDefault .other)
  have hMemory : ((if doc.memoryNamespace.orDefault [] = [] then doc.name.orDefault []
      else doc.memoryNamespace.orDefault []) = doc.memoryNamespace.orDefault []) ↔
      doc.memoryNamespace.orDefault [] ≠ [] := by
    by_cases hNone : doc.memoryNamespace.orDefault [] = []
    · rw [if_pos hNone]
      exact ⟨fun hSame => absurd (hSame.trans hNone) hName, fun hSome => absurd hNone hSome⟩
    · rw [if_neg hNone]
      exact ⟨fun _ => hNone, fun _ => rfl⟩
  constructor
  · intro hSame
    exact ⟨hKinds.mp hSame.kind, hMemory.mp hSame.memoryNamespace, hEngine.mp hSame.engine⟩
  · rintro ⟨hOther, hSome, hEngines⟩
    refine ⟨(if_neg hName).symm, hKinds.mpr hOther, congrArg (·.1) hLlm, congrArg (·.2.1) hLlm, rfl, hMemory.mpr hSome,
      rfl, ?_, hEngine.mpr hEngines⟩
    have hNested : ((Registry.readLlm (doc.llm.orDefault .other)).2.2.2 : List Char) =
        (Loader.readLlm (some (doc.llm.orDefault .other))).2.2 := congrArg (·.2.2) hLlm
    simp only [Registry.intoAgentDef, Loader.intoAgentDef, rawShown, rawRun, Loader.normalizeEffort, hNested]
    by_cases hTop : doc.reasoningEffort.orDefault [] ≠ []
    · simp only [if_pos hTop]
      exact (if_pos hTop).symm
    · simp only [if_neg hTop]
      exact (if_neg hTop).symm

end Readers

/-- The two readers agree on a file just if it is malformed for both, says the same to both, or is of no use to
both. -/
theorem readers_agree_iff (yaml : Option Document) (agentId sourcePath : List Char) :
    Agree (Registry.parseAgentYaml yaml) (Loader.load yaml agentId sourcePath) ↔ ReadAlike yaml := by
  cases yaml with
  | none => exact ⟨fun _ => trivial, fun _ => trivial⟩
  | some doc =>
    rw [ReadAlike]
    cases hShared : doc.sharedOk with
    | false =>
      obtain ⟨hShown, hRun⟩ := unshared hShared agentId sourcePath
      rw [hShown, hRun]
      exact ⟨fun _ hTrue => absurd hTrue Bool.false_ne_true, fun _ => trivial⟩
    | true =>
      have hSame := fun hName : doc.name.orDefault [] ≠ [] => same_iff hShared hName agentId sourcePath
      rw [shown_eq hShared, run_eq hShared]
      by_cases hShown : doc.name.orDefault [] ≠ [] ∧ doc.description.ok = true
      · have hUseful : ¬doc.Useless := fun h => h.1.elim hShown.1 fun hNot => Bool.false_ne_true (hNot.symm.trans hShown.2)
        rw [if_pos hShown]
        by_cases hRun : doc.injectWorkspace.ok = true ∧ doc.critic.ok = true
        · rw [if_pos hRun]
          refine (hSame hShown.1).trans ⟨fun h _ => .inl ?_, fun h => ?_⟩
          · exact ⟨hShown.1, hShown.2, hRun.1, hRun.2, h.1, h.2.1, h.2.2.1, h.2.2.2⟩
          · have hPlain := (h rfl).resolve_right hUseful
            exact ⟨hPlain.kind, hPlain.memory, hPlain.trimmed, hPlain.builtin⟩
        · rw [if_neg hRun]
          refine ⟨False.elim, fun h => hRun ?_⟩
          have hPlain := (h rfl).resolve_right hUseful
          exact ⟨hPlain.workspace, hPlain.critic⟩
      · rw [if_neg hShown]
        by_cases hRun : doc.injectWorkspace.ok = true ∧ doc.critic.ok = true
        · rw [if_pos hRun]
          refine ⟨False.elim, fun h => ?_⟩
          rcases h rfl with hPlain | hUseless
          · exact hShown ⟨hPlain.named, hPlain.description⟩
          · exact hUseless.2.elim (fun hNot => Bool.false_ne_true (hNot.symm.trans hRun.1)) fun hNot =>
              Bool.false_ne_true (hNot.symm.trans hRun.2)
        · rw [if_neg hRun]
          refine ⟨fun _ _ => .inr ⟨?_, ?_⟩, fun _ => trivial⟩
          · rwa [not_and_or, not_not, Bool.not_eq_true] at hShown
          · rwa [not_and_or, Bool.not_eq_true, Bool.not_eq_true] at hRun

def supervisor : Document where
  name := .read "Lead".toList
  kind := .read "supervisor".toList
  llm := .absent
  agentProvider := .read (.string "Builtin".toList)
  description := .absent
  systemPrompt := .absent
  memoryNamespace := .absent
  tools := .absent
  reasoningEffort := .absent
  injectWorkspace := .absent
  critic := .absent

/-- The two readers have different kinds for a supervisor. -/
theorem supervisor_differs :
    ¬Agree (Registry.parseAgentYaml (some supervisor)) (Loader.load (some supervisor) "lead".toList []) := by
  intro h
  have hKind := SameAgent.kind h
  revert hKind
  decide

end Cronymax.Agent.Definitions
