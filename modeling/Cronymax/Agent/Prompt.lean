import Cronymax.Text.Templates
import Mathlib.Data.Bool.AllAny
import Mathlib.Data.List.TakeWhile

/-! The rendering of prompts.  Each variable is replaced in the whole text, one after the other, and so in the
values that are there already; a value is left alone where nothing in it reads as a variable that is still
to come. -/

namespace Cronymax.Agent.Prompt

open Text (Piece replaceAll)

/-- What the cache of the memory manager answers. -/
structure Memory where
  getSummary : List Char → List Char
  read : List Char → List Char → Option (List Char)

/-- `VarContext`: where the values of the variables come from. -/
structure VarContext where
  workspaceRoot : Option (List Char)
  workspaceName : Option (List Char)
  gitBranch : Option (List Char)
  agentName : Option (List Char)
  tools : List (List Char)
  agents : List (List Char)
  readNamespace : Option (List Char)
  memoryManager : Option Memory
  userVars : List (List Char × List Char)
  distinct : (userVars.map (·.1)).Nodup

/-- What the renderer asks the system for. -/
structure Surroundings where
  gitBranchOf : List Char → Option (List Char)
  today : List Char

/-- `${name}`. -/
def placeholder (name : List Char) : List Char := ['$', '\x7b'] ++ name ++ ['\x7d']

/-- `${memory/`. -/
def memoryOpening : List Char := ['$', '\x7b'] ++ "memory/".toList

def summaryName : List Char := "memory/summary".toList

/-- `join("\n")`. -/
def joinLines (lines : List (List Char)) : List Char := ['\n'].intercalate lines

section Render

variable (o : Surroundings) (ctx : VarContext)

/-- The variables of the workspace, without its branch. -/
def workspaceVars : List (List Char × List Char) :=
  (ctx.workspaceRoot.map fun root => ("workspace/dir".toList, root)).toList ++
    (ctx.workspaceName.map fun name => ("workspace/name".toList, name)).toList

/-- The variable that asks git. -/
def branchVar : List Char × List Char :=
  ("workspace/git/branch".toList,
    match ctx.gitBranch, ctx.workspaceRoot with
    | some branch, _ => branch
    | none, some root => (o.gitBranchOf root).getD "unknown".toList
    | none, none => "unknown".toList)

/-- The variables of the agent. -/
def agentVars : List (List Char × List Char) :=
  (ctx.agentName.map fun name => ("agent/name".toList, name)).toList ++
    [("date".toList, o.today), ("tools".toList, joinLines ctx.tools), ("agents".toList, joinLines ctx.agents)]

/-- The variables that a template knows. -/
def builtins : List (List Char × List Char) := workspaceVars ctx ++ branchVar o ctx :: agentVars o ctx

/-- The variables of `render_builtins_only`: all but the branch. -/
def builtinsOnly : List (List Char × List Char) := workspaceVars ctx ++ agentVars o ctx

/-- The placeholders give way one variable after the other. -/
def replaceVars (vars : List (List Char × List Char)) (text : List Char) : List Char :=
  vars.foldl (fun text var => replaceAll (placeholder var.1) var.2 text) text

/-- `render_builtins_only`. -/
def renderBuiltinsOnly (template : List Char) : List Char := replaceVars (builtinsOnly o ctx) template

/-- The value of `memory/summary`. -/
def summary : List Char :=
  match ctx.memoryManager, ctx.readNamespace with
  | some mgr, some ns => mgr.getSummary ns
  | _, _ => []

/-- The value of `${memory/rest}`. -/
def memoryValue (rest : List Char) : List Char :=
  if '/' ∈ rest then
    match ctx.memoryManager with
    | some mgr => (mgr.read (rest.takeWhile (· ≠ '/')) ((rest.dropWhile (· ≠ '/')).drop 1)).getD []
    | none => []
  else
    match ctx.memoryManager, ctx.readNamespace with
    | some mgr, some ns => (mgr.read ns rest).getD []
    | _, _ => []

/-- The loop of `resolve_memory_vars` over the placeholders of entries. -/
@[grind =] def scanMemory : List Char → List Char
  | [] => []
  | c :: rest =>
    if memoryOpening <+: c :: rest then
      let after := rest.drop 1
      if '\x7d' ∈ after then
        let key := (after.takeWhile (· ≠ '\x7d')).drop 7
        (if key = "summary".toList then placeholder summaryName else memoryValue ctx key) ++
          scanMemory ((after.dropWhile (· ≠ '\x7d')).drop 1)
      else (c :: rest).take 2 ++ scanMemory after
    else c :: scanMemory rest
termination_by text => text.length
decreasing_by
  · simp only [List.length_drop, List.length_cons]
    have hDrop := (List.dropWhile_sublist (l := rest.drop 1) (· ≠ '\x7d')).length_le
    rw [List.length_drop] at hDrop
    omega
  · simp only [List.length_drop, List.length_cons]
    omega
  · exact Nat.lt_succ_self _

/-- `resolve_memory_vars`. -/
def resolveMemoryVars (template : List Char) : List Char :=
  scanMemory ctx <|
    if placeholder summaryName <:+: template then
      replaceAll (placeholder summaryName) (summary ctx) template
    else template

end Render

def tripleNewline : List Char := ['\n', '\n', '\n']

/-- Runs of three line feeds become two, until there is none. -/
def collapse (text : List Char) : List Char :=
  if tripleNewline <:+: text then collapse (replaceAll tripleNewline ['\n', '\n'] text) else text
termination_by text.length
decreasing_by
  rename_i h
  exact Text.length_replaceAll_lt (by decide) h

/-- `render`, with the user's variables in some order of the map. -/
def render (o : Surroundings) (template : List Char) (ctx : VarContext) (order : List (List Char × List Char)) :
    List Char :=
  let result := replaceVars (builtins o ctx) template
  let result := if memoryOpening <:+: result then resolveMemoryVars ctx result else result
  let result := order.foldl (fun text var => replaceAll (placeholder var.1) (renderBuiltinsOnly o ctx var.2) text)
    result
  collapse result

/-- A template by its placeholders and the texts between them. -/
def parse : List Char → List (Piece Char (List Char))
  | [] => []
  | c :: rest =>
    let name := (rest.drop 1).takeWhile (· ≠ '\x7d')
    if ['$', '\x7b'] <+: c :: rest ∧ '\x7d' ∈ rest.drop 1 ∧ ¬['$', '\x7b'] <:+: name then
      .hole name :: parse (((rest.drop 1).dropWhile (· ≠ '\x7d')).drop 1)
    else .plain [c] :: parse rest
termination_by text => text.length
decreasing_by
  · simp only [List.length_drop, List.length_cons]
    have hDrop := (List.dropWhile_sublist (l := rest.drop 1) (· ≠ '\x7d')).length_le
    rw [List.length_drop] at hDrop
    omega
  · exact Nat.lt_succ_self _

section Meaning

variable (o : Surroundings) (ctx : VarContext)

/-- The value of a user variable, with the builtins in it expanded. -/
def expanded (value : List Char) : List Char :=
  Text.flat placeholder (Text.fill (Text.assigned (builtins o ctx)) (parse value))

/-- The value of a variable of the memory. -/
def memoryVar (name : List Char) : Option (List Char) :=
  if name = summaryName then some (summary ctx)
  else if "memory/".toList <+: name then some (memoryValue ctx (name.drop 7))
  else none

def valueOf (name : List Char) : Option (List Char) :=
  (Text.assigned (builtins o ctx) name).or
    ((memoryVar ctx name).or ((Text.assigned ctx.userVars name).map (expanded o ctx)))

/-- Every placeholder of the template gives way to its value at once. -/
def substituted (template : List Char) : List Char :=
  Text.flat placeholder (Text.fill (valueOf o ctx) (parse template))

end Meaning

/-- `collapse` in one pass: at most two line feeds in a row. -/
def squeezeFrom : Nat → List Char → List Char
  | _, [] => []
  | n, c :: text =>
    if c = '\n' then if n < 2 then c :: squeezeFrom (n + 1) text else squeezeFrom n text
    else c :: squeezeFrom 0 text

theorem squeezeFrom_replace {n : Nat} (hn : n ≤ 2) (text : List Char) :
    squeezeFrom n (replaceAll tripleNewline ['\n', '\n'] text) = squeezeFrom n text := by
  induction hLength : text.length using Nat.strongRecOn generalizing text n with
  | _ length ih =>
    cases text with
    | nil => rfl
    | cons c rest =>
      rw [replaceAll, Text.replaceFrom]
      split
      · rename_i hHere
        obtain ⟨r, hRest⟩ := hHere
        obtain ⟨hFirst, hMore⟩ := List.cons.inj hRest
        have hMore : '\n' :: '\n' :: r = rest := hMore
        subst hFirst hMore
        have hShort : r.length < length := by
          rw [← hLength, List.length_cons, List.length_cons, List.length_cons]
          omega
        have hSkip : Text.replaceFrom tripleNewline ['\n', '\n'] (tripleNewline.length - 1) ('\n' :: '\n' :: r) =
            replaceAll tripleNewline ['\n', '\n'] r := rfl
        have ih := ih r.length hShort (Nat.le_refl 2) r rfl
        rw [hSkip]
        have hCases : n = 0 ∨ n = 1 ∨ n = 2 := by omega
        rcases hCases with rfl | rfl | rfl <;> simp [squeezeFrom, ih]
      · have hShort : rest.length < length := by rw [← hLength]; exact Nat.lt_succ_self _
        have hRest {m : Nat} (hm : m ≤ 2) : squeezeFrom m (Text.replaceFrom tripleNewline ['\n', '\n'] 0 rest) =
            squeezeFrom m rest := ih _ hShort hm rest rfl
        rw [squeezeFrom, squeezeFrom]
        split_ifs with hc hFew
        · rw [hRest (by omega)]
        · rw [hRest hn]
        · rw [hRest (Nat.zero_le 2)]

theorem squeezeFrom_of_few {n : Nat} {text : List Char}
    (h : ¬tripleNewline <:+: List.replicate n '\n' ++ text) : squeezeFrom n text = text := by
  induction text generalizing n with
  | nil => rfl
  | cons c text ih =>
    have hTail : ¬tripleNewline <:+: text := fun hIn =>
      h (hIn.trans ((List.suffix_cons c text).isInfix.trans (List.suffix_append _ _).isInfix))
    rw [squeezeFrom]
    by_cases hc : c = '\n'
    · have hSame : List.replicate n '\n' ++ c :: text = List.replicate (n + 1) '\n' ++ text := by
        rw [hc, List.replicate_succ', List.append_assoc, List.singleton_append]
      have hFew : n < 2 := by
        by_contra hMany
        obtain ⟨m, rfl⟩ := Nat.exists_eq_add_of_le (Nat.le_of_not_lt hMany)
        rw [hSame, Nat.add_right_comm, ← List.replicate_append_replicate] at h
        exact h ((List.prefix_append _ _).isInfix.trans (List.prefix_append _ _).isInfix)
      rw [if_pos hc, if_pos hFew, ih (hSame ▸ h)]
    · rw [if_neg hc, ih (n := 0) hTail]

theorem collapse_eq (text : List Char) : collapse text = squeezeFrom 0 text := by
  fun_induction collapse text with
  | case1 text h ih => rw [ih, squeezeFrom_replace (Nat.zero_le 2)]
  | case2 text h => exact (squeezeFrom_of_few (n := 0) h).symm

/-- The placeholders of entries are those of the template. -/
def OnlyMemory (pieces : List (Piece Char (List Char))) : Prop :=
  ∀ key, '\x7d' ∉ key → key ≠ "summary".toList → Text.Only placeholder ("memory/".toList ++ key) pieces

/-- The value of an entry of the memory. -/
def entryVar (ctx : VarContext) (name : List Char) : Option (List Char) :=
  if "memory/".toList <+: name ∧ name ≠ summaryName then some (memoryValue ctx (name.drop 7)) else none

theorem dropWhile_closing {text : List Char} (h : '\x7d' ∈ text) :
    ∃ after, text.dropWhile (· ≠ '\x7d') = '\x7d' :: after := by
  cases hDrop : text.dropWhile (· ≠ '\x7d') with
  | nil =>
    have hNone := List.dropWhile_eq_nil_iff.mp hDrop _ h
    simp at hNone
  | cons d after =>
    have hHead := List.head?_dropWhile_not (· ≠ '\x7d') text
    rw [hDrop] at hHead
    have hd : d = '\x7d' := by simpa using hHead
    exact ⟨after, by rw [hd]⟩

theorem split_closing {name : List Char} (h : '\x7d' ∉ name) (rest : List Char) :
    (name ++ '\x7d' :: rest).takeWhile (· ≠ '\x7d') = name ∧
      (name ++ '\x7d' :: rest).dropWhile (· ≠ '\x7d') = '\x7d' :: rest := by
  have hPlain : ∀ c ∈ name, decide (c ≠ '\x7d') = true := fun c hc =>
    decide_eq_true fun hSame => h (hSame ▸ hc)
  rw [List.takeWhile_append_of_pos hPlain, List.dropWhile_append_of_pos hPlain]
  simp

theorem scanMemory_keep (ctx : VarContext) {kept : List Char} (h : '$' ∉ kept) (text : List Char) :
    scanMemory ctx (kept ++ text) = kept ++ scanMemory ctx text := by
  induction kept with
  | nil => rfl
  | cons c kept ih =>
    have hNot : ¬memoryOpening <+: c :: (kept ++ text) := fun hHere => by
      have hFirst := (List.cons_prefix_cons.mp hHere).1
      exact h (hFirst ▸ List.mem_cons_self)
    rw [List.cons_append, scanMemory, if_neg hNot, ih fun hMem => h (List.mem_cons_of_mem c hMem)]
    rfl

theorem scanMemory_opening (ctx : VarContext) (text : List Char) :
    scanMemory ctx (memoryOpening ++ text) =
      if '\x7d' ∈ text then
        (if text.takeWhile (· ≠ '\x7d') = "summary".toList then placeholder summaryName
          else memoryValue ctx (text.takeWhile (· ≠ '\x7d'))) ++
        scanMemory ctx ((text.dropWhile (· ≠ '\x7d')).drop 1)
      else ['$', '\x7b'] ++ scanMemory ctx ("memory/".toList ++ text) := by
  have hFree : ∀ c ∈ "memory/".toList, decide (c ≠ '\x7d') = true := List.all_iff_forall_prop.mp (by decide)
  have hText : memoryOpening ++ text = '$' :: '\x7b' :: ("memory/".toList ++ text) := rfl
  have hHere : memoryOpening <+: '$' :: '\x7b' :: ("memory/".toList ++ text) := ⟨text, rfl⟩
  have hMem : '\x7d' ∈ "memory/".toList ++ text ↔ '\x7d' ∈ text := by simp
  rw [hText, scanMemory, if_pos hHere]
  simp only [List.drop_succ_cons, List.drop_zero, List.takeWhile_append_of_pos hFree,
    List.dropWhile_append_of_pos hFree, hMem]
  rfl

theorem scanMemory_other (ctx : VarContext) {c : Char} {rest : List Char}
    (h : ∀ key after, '\x7d' ∉ key → key ≠ "summary".toList → c :: rest ≠ memoryOpening ++ key ++ '\x7d' :: after) :
    scanMemory ctx (c :: rest) = c :: scanMemory ctx rest := by
  by_cases hHere : memoryOpening <+: c :: rest
  · obtain ⟨text, hText⟩ := hHere
    have hRest : rest = '\x7b' :: ("memory/".toList ++ text) := (List.cons.inj hText).2.symm
    have hFirst : c = '$' := (List.cons.inj hText).1.symm
    rw [← hText, scanMemory_opening]
    by_cases hClosed : '\x7d' ∈ text
    · obtain ⟨after, hAfter⟩ := dropWhile_closing hClosed
      have hSplit : text = text.takeWhile (· ≠ '\x7d') ++ '\x7d' :: after := by
        rw [← hAfter, List.takeWhile_append_dropWhile]
      have hKey : text.takeWhile (· ≠ '\x7d') = "summary".toList := by
        by_contra hOther
        refine h _ after (fun hMem => ?_) hOther ?_
        · simpa using List.mem_takeWhile_imp hMem
        · rw [List.append_assoc, ← hSplit, hText]
      have hTail : rest = "\x7bmemory/summary\x7d".toList ++ after := by
        rw [hRest, hSplit, hKey]
        rfl
      rw [if_pos hClosed, if_pos hKey, hAfter, hTail, scanMemory_keep ctx (by decide), hFirst]
      rfl
    · have hKeep := @scanMemory_keep ctx ['\x7b'] (by decide) ("memory/".toList ++ text)
      rw [if_neg hClosed, hFirst, hRest]
      exact congrArg ('$' :: ·) hKeep.symm
  · rw [scanMemory, if_neg hHere]

theorem scanMemory_entry (ctx : VarContext) {key : List Char} (hFree : '\x7d' ∉ key)
    (hKey : key ≠ "summary".toList) (after : List Char) :
    scanMemory ctx (memoryOpening ++ (key ++ '\x7d' :: after)) = memoryValue ctx key ++ scanMemory ctx after := by
  have hClosed : '\x7d' ∈ key ++ '\x7d' :: after := List.mem_append_right _ List.mem_cons_self
  obtain ⟨hTake, hDrop⟩ := split_closing hFree after
  rw [scanMemory_opening, if_pos hClosed, hTake, hDrop, if_neg hKey]
  rfl

theorem placeholder_ne_nil (name : List Char) : placeholder name ≠ [] := List.cons_ne_nil _ _

theorem placeholder_memory (key after : List Char) :
    placeholder ("memory/".toList ++ key) ++ after = memoryOpening ++ (key ++ '\x7d' :: after) := by
  simp [placeholder, memoryOpening]

theorem scanMemory_kept (ctx : VarContext) {kept text : List Char}
    (h : ∀ before after, kept = before ++ after → after ≠ [] → ∀ key, '\x7d' ∉ key → key ≠ "summary".toList →
      ¬placeholder ("memory/".toList ++ key) <+: after ++ text) :
    scanMemory ctx (kept ++ text) = kept ++ scanMemory ctx text := by
  induction kept with
  | nil => rfl
  | cons c kept ih =>
    rw [List.cons_append, scanMemory_other ctx fun key after hFree hKey hHere => ?_,
      ih fun before after hKept => h (c :: before) after (by rw [hKept]; rfl)]
    · rfl
    · refine h [] (c :: kept) rfl (List.cons_ne_nil _ _) key hFree hKey ⟨after, ?_⟩
      rw [placeholder_memory, List.cons_append, hHere, List.append_assoc]

theorem scanMemory_flat (ctx : VarContext) {pieces : List (Piece Char (List Char))} (h : OnlyMemory pieces)
    (hNames : ∀ name, .hole name ∈ pieces → '\x7d' ∉ name) :
    scanMemory ctx (Text.flat placeholder pieces) = Text.flat placeholder (Text.fill (entryVar ctx) pieces) := by
  induction pieces with
  | nil => rw [Text.flat_nil, scanMemory, Text.fill_nil, Text.flat_nil]
  | cons p pieces ih =>
    have ih := ih (fun key hFree hKey => (h key hFree hKey).tail (placeholder_ne_nil _))
      fun name hName => hNames name (List.mem_cons_of_mem p hName)
    have hKeep (hNot : ∀ key, key ≠ "summary".toList → p ≠ .hole ("memory/".toList ++ key)) :
        scanMemory ctx (p.flat placeholder ++ Text.flat placeholder pieces) =
          p.flat placeholder ++ scanMemory ctx (Text.flat placeholder pieces) :=
      scanMemory_kept ctx fun before after hPiece hAfter key hFree hKey =>
        (h key hFree hKey).not_inside (hNot key hKey) hPiece hAfter
    rw [Text.flat_cons, Text.fill_cons, Text.flat_cons, ← ih]
    cases p with
    | plain text => exact hKeep fun _ _ hSame => by cases hSame
    | hole name =>
      by_cases hEntry : "memory/".toList <+: name ∧ name ≠ summaryName
      · obtain ⟨⟨key, rfl⟩, hKey⟩ := hEntry
        have hFree : '\x7d' ∉ key := fun hMem =>
          hNames _ List.mem_cons_self (List.mem_append_right _ hMem)
        have hOther : key ≠ "summary".toList := by
          rintro rfl
          exact hKey rfl
        have hVar : entryVar ctx ("memory/".toList ++ key) = some (memoryValue ctx key) :=
          if_pos ⟨⟨key, rfl⟩, hKey⟩
        rw [Piece.flat, placeholder_memory, scanMemory_entry ctx hFree hOther, Piece.fill, hVar]
        rfl
      · have hVar : entryVar ctx name = none := if_neg hEntry
        have hFill : Piece.fill (entryVar ctx) (.hole name) = .hole name := by rw [Piece.fill, hVar]
        rw [hFill]
        refine hKeep fun key hKey hSame => hEntry ?_
        cases hSame
        exact ⟨⟨key, rfl⟩, fun hSummary => hKey (@List.append_cancel_left _ "memory/".toList _ _ hSummary)⟩

theorem scanMemory_absent (ctx : VarContext) {text : List Char} (h : ¬memoryOpening <:+: text) :
    scanMemory ctx text = text := by
  have hKept := @scanMemory_kept ctx text [] fun before after hText _ key _ _ hHere => by
    refine h ?_
    rw [hText]
    refine List.IsInfix.trans ?_ (List.suffix_append before after).isInfix
    rw [List.append_nil] at hHere
    refine List.IsInfix.trans ?_ hHere.isInfix
    have hOpens := placeholder_memory key []
    rw [List.append_nil] at hOpens
    rw [hOpens]
    exact (List.prefix_append _ _).isInfix
  rwa [List.append_nil, scanMemory, List.append_nil] at hKept

theorem flat_parse (template : List Char) : Text.flat placeholder (parse template) = template := by
  fun_induction parse template with
  | case1 => rfl
  | case2 c rest name h ih =>
    obtain ⟨⟨more, hOpens⟩, hClosed, -⟩ := h
    obtain ⟨hFirst, hRest⟩ := List.cons.inj hOpens
    have hMore : rest.drop 1 = more := by rw [← hRest]; rfl
    obtain ⟨after, hAfter⟩ := dropWhile_closing hClosed
    have hName : name ++ '\x7d' :: after = more := by
      rw [← hAfter, ← hMore, List.takeWhile_append_dropWhile]
    rw [Text.flat_cons, ih, hAfter, ← hOpens, ← hName, Piece.flat, placeholder]
    simp
  | case3 c rest name h ih =>
    rw [Text.flat_cons, ih]
    rfl

theorem parse_names {template name : List Char} (h : .hole name ∈ parse template) : '\x7d' ∉ name := by
  fun_induction parse template with
  | case1 => cases h
  | case2 c rest name' hOpens ih =>
    rcases List.mem_cons.mp h with hSame | hRest
    · obtain rfl := Piece.hole.inj hSame
      intro hMem
      simpa using List.mem_takeWhile_imp hMem
    · exact ih hRest
  | case3 c rest name' hNot ih =>
    rcases List.mem_cons.mp h with hSame | hRest
    · cases hSame
    · exact ih hRest

section Meaning

variable (o : Surroundings) (ctx : VarContext)

def afterBuiltins (template : List Char) : List (Piece Char (List Char)) :=
  Text.fill (Text.assigned (builtins o ctx)) (parse template)

def afterSummary (template : List Char) : List (Piece Char (List Char)) :=
  Text.fill (fun name => if name = summaryName then some (summary ctx) else none) (afterBuiltins o ctx template)

def afterMemory (template : List Char) : List (Piece Char (List Char)) :=
  Text.fill (entryVar ctx) (afterSummary o ctx template)

/-- What is looked for in a pass is found only in the placeholders of the template, and not in or across a
value that is there already, and no value of a variable in use names the branch, which the expansion of the
values leaves out. -/
structure Separate (template : List Char) : Prop where
  builtins : Text.Clean placeholder (builtins o ctx) (parse template)
  summary : Text.Only placeholder summaryName (afterBuiltins o ctx template)
  memory : OnlyMemory (afterSummary o ctx template)
  users : ∀ order : List (List Char × List Char), order.Perm ctx.userVars →
    Text.Clean placeholder (order.map fun var => (var.1, expanded o ctx var.2)) (afterMemory o ctx template)
  values : ∀ var ∈ ctx.userVars, .hole var.1 ∈ afterMemory o ctx template →
    Text.Clean placeholder (builtinsOnly o ctx) (parse var.2) ∧ .hole (branchVar o ctx).1 ∉ parse var.2

theorem assigned_builtins {name : List Char} (h : name ≠ (branchVar o ctx).1) :
    Text.assigned (builtinsOnly o ctx) name = Text.assigned (builtins o ctx) name := by
  rw [builtins, builtinsOnly, Text.assigned_append, Text.assigned_append, Text.assigned_cons, if_neg h,
    Option.none_or]

theorem replaceVars_parse {vars : List (List Char × List Char)} {template : List Char}
    (h : Text.Clean placeholder vars (parse template)) : replaceVars vars template =
      Text.flat placeholder (Text.fill (Text.assigned vars) (parse template)) := by
  have hPairs : (vars.map fun var => (var.1, var.2)) = vars := List.map_id _
  have hClean : Text.Clean placeholder (vars.map fun var => (var.1, var.2)) (parse template) := hPairs.symm ▸ h
  have hFold := Text.foldl_replaceAll (g := Prod.snd) placeholder_ne_nil hClean fun _ _ _ => rfl
  rwa [hPairs, flat_parse] at hFold

theorem resolveMemory_eq {template : List Char} (h : Separate o ctx template) {result : List Char}
    (hResult : result = Text.flat placeholder (afterBuiltins o ctx template)) :
    (if memoryOpening <:+: result then resolveMemoryVars ctx result else result) =
      Text.flat placeholder (afterMemory o ctx template) := by
  have hSummary : replaceAll (placeholder summaryName) (summary ctx) result =
      Text.flat placeholder (afterSummary o ctx template) := by
    rw [hResult]
    exact Text.replaceAll_flat (placeholder_ne_nil _) h.summary
  have hNames : ∀ name, .hole name ∈ afterSummary o ctx template → '\x7d' ∉ name := fun name hName =>
    parse_names (Text.mem_of_mem_fill (Text.mem_of_mem_fill hName))
  have hMemory := scanMemory_flat ctx h.memory hNames
  rw [afterMemory, ← hMemory, ← hSummary]
  by_cases hOpens : memoryOpening <:+: result
  · rw [if_pos hOpens, resolveMemoryVars]
    split
    · rfl
    · rename_i hAbsent
      rw [Text.replaceAll_of_absent hAbsent]
  · have hAbsent : ¬placeholder summaryName <:+: result := fun hIn =>
      hOpens (List.IsInfix.trans ⟨[], "summary\x7d".toList, rfl⟩ hIn)
    rw [if_neg hOpens, Text.replaceAll_of_absent hAbsent, scanMemory_absent ctx hOpens]

theorem assigned_order {order : List (List Char × List Char)} (h : order.Perm ctx.userVars) (name : List Char) :
    Text.assigned (order.map fun var => (var.1, expanded o ctx var.2)) name =
      (Text.assigned ctx.userVars name).map (expanded o ctx) := by
  have hSame : Text.assigned order name = Text.assigned ctx.userVars name := by
    refine Option.ext fun value => ?_
    rw [Text.assigned_eq_some ctx.distinct, Text.assigned_eq_some ((h.map _).nodup_iff.mpr ctx.distinct), h.mem_iff]
  rw [Text.assigned_map, hSame]

theorem memoryVar_eq (name : List Char) : memoryVar ctx name =
    (if name = summaryName then some (summary ctx) else none).or (entryVar ctx name) := by
  unfold memoryVar entryVar
  split_ifs <;> simp_all

theorem fill_meaning {order : List (List Char × List Char)} (h : order.Perm ctx.userVars) (template : List Char) :
    Text.fill (Text.assigned (order.map fun var => (var.1, expanded o ctx var.2)))
      (afterMemory o ctx template) = Text.fill (valueOf o ctx) (parse template) := by
  rw [afterMemory, afterSummary, afterBuiltins, Text.fill_fill, Text.fill_fill, Text.fill_fill]
  refine Text.fill_congr fun name _ => ?_
  rw [assigned_order o ctx h, valueOf, memoryVar_eq, Option.or_assoc]

/-- In whichever order the user's variables come, a prompt is its template with the values in the places of
their placeholders. -/
theorem render_eq {template : List Char} (h : Separate o ctx template) {order : List (List Char × List Char)}
    (hOrder : order.Perm ctx.userVars) :
    render o template ctx order = squeezeFrom 0 (substituted o ctx template) := by
  have hBuiltins := replaceVars_parse h.builtins
  have hValues : ∀ var ∈ order, .hole var.1 ∈ afterMemory o ctx template →
      renderBuiltinsOnly o ctx var.2 = expanded o ctx var.2 := fun var hVar hHole => by
    obtain ⟨hClean, hNone⟩ := h.values var (hOrder.mem_iff.mp hVar) hHole
    rw [renderBuiltinsOnly, replaceVars_parse hClean, expanded]
    refine congrArg _ (Text.fill_congr fun name hName => assigned_builtins o ctx fun hSame => hNone ?_)
    rwa [← hSame]
  have hUsers := Text.foldl_replaceAll (g := fun var => renderBuiltinsOnly o ctx var.2) placeholder_ne_nil
    (h.users order hOrder) hValues
  have hMeaning := fill_meaning o ctx hOrder template
  rw [render, resolveMemory_eq o ctx h hBuiltins, hUsers, collapse_eq, hMeaning]
  rfl

theorem render_noMemory {template : List Char} (h : ¬memoryOpening <:+: replaceVars (builtins o ctx) template)
    (order : List (List Char × List Char)) :
    render o template ctx order = squeezeFrom 0 (order.foldl
      (fun text var => replaceAll (placeholder var.1) (renderBuiltinsOnly o ctx var.2) text)
      (replaceVars (builtins o ctx) template)) := by
  rw [render, if_neg h, collapse_eq]

end Meaning

/-- Nothing in the piece reads as a placeholder or as the beginning of one, but for the hole itself. -/
def FreePiece : Piece Char (List Char) → Prop
  | .plain text => '$' ∉ text
  | .hole name => '$' ∉ name ∧ '\x7d' ∉ name

instance : DecidablePred FreePiece
  | .plain text => inferInstanceAs (Decidable ('$' ∉ text))
  | .hole name => inferInstanceAs (Decidable ('$' ∉ name ∧ '\x7d' ∉ name))

/-- The pieces read as they stand. -/
abbrev Free (pieces : List (Piece Char (List Char))) : Prop := ∀ p ∈ pieces, FreePiece p

theorem Free.fill {pieces : List (Piece Char (List Char))} (h : Free pieces)
    {value : List Char → Option (List Char)} (hValue : ∀ name text, value name = some text → '$' ∉ text) :
    Free (Text.fill value pieces) := by
  intro q hq
  obtain ⟨p, hp, rfl⟩ := List.mem_map.mp hq
  cases p with
  | plain text => exact h _ hp
  | hole name =>
    rw [Piece.fill]
    split
    · rename_i text hSome
      exact hValue name text hSome
    · exact h _ hp

theorem prefix_of_free {name key rest after : List Char} (hName : '\x7d' ∉ name) (hKey : '\x7d' ∉ key)
    (h : placeholder name ++ rest = placeholder key ++ after) : name = key := by
  have hInner : name ++ '\x7d' :: rest = key ++ '\x7d' :: after := by
    simpa [placeholder] using h
  rw [← (split_closing hName rest).1, hInner, (split_closing hKey after).1]

theorem only_of_free {pieces : List (Piece Char (List Char))} (h : Free pieces) {key : List Char}
    (hKey : '\x7d' ∉ key) : Text.Only placeholder key pieces := by
  induction pieces with
  | nil => exact Text.only_of_longer (Nat.succ_pos _)
  | cons p pieces ih =>
    obtain ⟨hPiece, hPieces⟩ := List.forall_mem_cons.mp h
    refine (ih hPieces).cons fun before after hFlat hShort => ?_
    -- the placeholder begins with a dollar sign, and the piece has none but at the start of a hole
    obtain ⟨c, inside, hSplit⟩ : ∃ c inside, p.flat placeholder = before ++ c :: inside := by
      obtain ⟨more, hMore⟩ := List.prefix_of_prefix_length_le ⟨_, hFlat.symm⟩ (List.prefix_append _ _) hShort.le
      cases more with
      | nil =>
        rw [List.append_nil] at hMore
        rw [hMore] at hShort
        exact absurd hShort (Nat.lt_irrefl _)
      | cons c inside => exact ⟨c, inside, hMore.symm⟩
    have hDollar : c = '$' := by
      rw [hSplit, List.append_assoc] at hFlat
      exact (List.cons.inj (List.append_cancel_left hFlat)).1
    subst hDollar
    cases p with
    | plain text =>
      have hText : text = before ++ '$' :: inside := hSplit
      have hNone : '$' ∉ text := hPiece
      rw [hText] at hNone
      exact absurd (List.mem_append_right _ List.mem_cons_self) hNone
    | hole name =>
      obtain ⟨hNoDollar, hNoBrace⟩ := hPiece
      cases before with
      | nil => exact ⟨rfl, congrArg _ (prefix_of_free hNoBrace hKey hFlat)⟩
      | cons d before =>
        have hInside : '\x7b' :: (name ++ ['\x7d']) = before ++ '$' :: inside := (List.cons.inj hSplit).2
        have hMem : '$' ∈ '\x7b' :: (name ++ ['\x7d']) := by
          rw [hInside]
          exact List.mem_append_right _ List.mem_cons_self
        simp [hNoDollar] at hMem

theorem clean_of_free {vars : List (List Char × List Char)} (hVars : ∀ var ∈ vars, '\x7d' ∉ var.1 ∧ '$' ∉ var.2)
    {pieces : List (Piece Char (List Char))} (h : Free pieces) : Text.Clean placeholder vars pieces := by
  induction vars generalizing pieces with
  | nil => trivial
  | cons var vars ih =>
    obtain ⟨hName, hValue⟩ := hVars var List.mem_cons_self
    refine ⟨only_of_free h hName, ih (fun v hv => hVars v (List.mem_cons_of_mem _ hv)) (h.fill fun name text hText => ?_)⟩
    split at hText
    · cases hText
      exact hValue
    · cases hText

/-- Where no value has a dollar sign in it, nothing is read again. -/
theorem separate_of_free {o : Surroundings} {ctx : VarContext} {template : List Char}
    (hTemplate : Free (parse template)) (hBuiltins : ∀ var ∈ builtins o ctx, '\x7d' ∉ var.1 ∧ '$' ∉ var.2)
    (hSummary : '$' ∉ summary ctx) (hMemory : ∀ rest, '$' ∉ memoryValue ctx rest)
    (hUsers : ∀ var ∈ ctx.userVars, '\x7d' ∉ var.1 ∧ '$' ∉ expanded o ctx var.2 ∧ Free (parse var.2) ∧
      .hole (branchVar o ctx).1 ∉ parse var.2) : Separate o ctx template := by
  have hAfter : Free (afterBuiltins o ctx template) := hTemplate.fill fun name text hText => by
    obtain ⟨var, hVar, rfl⟩ := Option.map_eq_some_iff.mp hText
    exact (hBuiltins var (List.mem_of_find?_eq_some hVar)).2
  have hSummed : Free (afterSummary o ctx template) := hAfter.fill fun name text hText => by
    split at hText
    · cases hText
      exact hSummary
    · cases hText
  have hRead : Free (afterMemory o ctx template) := hSummed.fill fun name text hText => by
    unfold entryVar at hText
    split at hText
    · cases hText
      exact hMemory _
    · cases hText
  refine ⟨clean_of_free hBuiltins hTemplate, only_of_free hAfter (by decide), fun key hKey _ =>
    only_of_free hSummed fun hMem => ?_, fun order hOrder => clean_of_free (fun var hVar => ?_) hRead,
    fun var hVar _ => ⟨clean_of_free (fun v hv => hBuiltins v ?_) (hUsers var hVar).2.2.1, (hUsers var hVar).2.2.2⟩⟩
  · rcases List.mem_append.mp hMem with h | h
    · exact absurd h (by decide)
    · exact hKey h
  · obtain ⟨v, hv, rfl⟩ := List.mem_map.mp hVar
    obtain ⟨hName, hValue, -⟩ := hUsers v (hOrder.mem_iff.mp hv)
    exact ⟨hName, hValue⟩
  · rw [builtins, List.mem_append, List.mem_cons]
    exact (List.mem_append.mp hv).imp id .inr

theorem parse_plain {text : List Char} (h : '$' ∉ text) (rest : List Char) :
    parse (text ++ rest) = text.map (fun c => .plain [c]) ++ parse rest := by
  induction text with
  | nil => rfl
  | cons c text ih =>
    have hNot : ¬['$', '\x7b'] <+: c :: (text ++ rest) := fun hHere =>
      h ((List.cons_prefix_cons.mp hHere).1 ▸ List.mem_cons_self)
    rw [List.cons_append, parse, if_neg fun hAll => hNot hAll.1, ih fun hMem => h (List.mem_cons_of_mem c hMem)]
    rfl

theorem parse_placeholder {name : List Char} (hDollar : '$' ∉ name) (hFree : '\x7d' ∉ name) (rest : List Char) :
    parse (placeholder name ++ rest) = .hole name :: parse rest := by
  have hText : placeholder name ++ rest = '$' :: ('\x7b' :: (name ++ '\x7d' :: rest)) := by simp [placeholder]
  obtain ⟨hTake, hDrop⟩ := split_closing hFree rest
  have hSimple : ¬['$', '\x7b'] <:+: name := fun hIn => hDollar (hIn.subset List.mem_cons_self)
  rw [hText, parse, List.drop_succ_cons, List.drop_zero, hTake, hDrop,
    if_pos ⟨⟨_, rfl⟩, List.mem_append_right _ List.mem_cons_self, hSimple⟩]
  rfl

theorem free_parse {pieces : List (Piece Char (List Char))} (h : Free pieces) :
    Free (parse (Text.flat placeholder pieces)) := by
  induction pieces with
  | nil =>
    rw [Text.flat_nil, parse]
    exact h
  | cons p pieces ih =>
    obtain ⟨hPiece, hPieces⟩ := List.forall_mem_cons.mp h
    rw [Text.flat_cons]
    cases p with
    | plain text =>
      have hText : '$' ∉ text := hPiece
      rw [Piece.flat, parse_plain hText]
      refine List.forall_mem_append.mpr ⟨fun q hq => ?_, ih hPieces⟩
      obtain ⟨c, hc, rfl⟩ := List.mem_map.mp hq
      exact fun hSame => hText (List.mem_singleton.mp hSame ▸ hc)
    | hole name =>
      rw [Piece.flat, parse_placeholder hPiece.1 hPiece.2]
      exact List.forall_mem_cons.mpr ⟨hPiece, ih hPieces⟩

def quiet : Surroundings where
  gitBranchOf _ := none
  today := "2024-01-01".toList

def notes : Memory where
  getSummary _ := "two files are done".toList
  read _ key := if key = "style".toList then some "keep it short".toList else none

def named : VarContext where
  workspaceRoot := some "/w".toList
  workspaceName := some "demo".toList
  gitBranch := some "main".toList
  agentName := some "coder".toList
  tools := ["read".toList, "write".toList]
  agents := []
  readNamespace := some "space".toList
  memoryManager := some notes
  userVars := [("x".toList, "since $\x7bdate\x7d".toList), ("y".toList, [])]
  distinct := by decide

def namedPieces : List (Piece Char (List Char)) :=
  [.hole "tools".toList, .plain "\n\n\n\non ".toList, .hole "workspace/git/branch".toList, .plain " / ".toList,
    .hole "memory/style".toList, .plain " / ".toList, .hole summaryName, .hole "x".toList, .hole "other".toList]

theorem named_separate : Separate quiet named (Text.flat placeholder namedPieces) := by
  have hPieces : Free namedPieces := by decide
  have hBuiltins : ∀ var ∈ builtins quiet named, '\x7d' ∉ var.1 ∧ '$' ∉ var.2 := by decide
  have hSummary : '$' ∉ summary named := by decide
  have hDate : parse "since $\x7bdate\x7d".toList =
      "since ".toList.map (fun c => .plain [c]) ++ [.hole "date".toList] := by
    have hText : "since $\x7bdate\x7d".toList = "since ".toList ++ (placeholder "date".toList ++ []) := by decide
    have hNone : parse [] = [] := by rw [parse]
    rw [hText, parse_plain (by decide), parse_placeholder (by decide) (by decide), hNone]
  have hRead (ns key : List Char) : '$' ∉ (notes.read ns key).getD [] := by
    by_cases hKey : key = "style".toList
    · rw [show notes.read ns key = some "keep it short".toList from if_pos hKey]
      decide
    · rw [show notes.read ns key = none from if_neg hKey]
      exact List.not_mem_nil
  have hMemory (rest : List Char) : '$' ∉ memoryValue named rest := by
    unfold memoryValue
    split
    · exact hRead _ _
    · exact hRead _ _
  have hUsers : named.userVars = [("x".toList, "since $\x7bdate\x7d".toList), ("y".toList, [])] := rfl
  refine separate_of_free (free_parse hPieces) hBuiltins hSummary hMemory ?_
  rw [hUsers]
  refine List.forall_mem_cons.mpr ⟨?_, List.forall_mem_singleton.mpr ?_⟩
  · have hOther : (branchVar quiet named).1 ≠ "date".toList := by decide
    rw [expanded, hDate]
    refine ⟨by decide, by decide, by decide, fun hMem => ?_⟩
    rcases List.mem_append.mp hMem with hPlain | hHole
    · obtain ⟨c, -, hc⟩ := List.mem_map.mp hPlain
      cases hc
    · exact hOther (Piece.hole.inj (List.mem_singleton.mp hHole))
  · rw [expanded, parse]
    exact ⟨by decide, by decide, by decide, by simp⟩

/-- A text with a variable of the user beside a builtin one. -/
theorem render_eq_named :
    render quiet (Text.flat placeholder namedPieces) named named.userVars.reverse =
      squeezeFrom 0 (substituted quiet named (Text.flat placeholder namedPieces)) :=
  render_eq quiet named named_separate (List.reverse_perm _)

def chained : VarContext where
  workspaceRoot := none
  workspaceName := none
  gitBranch := none
  agentName := none
  tools := ["$\x7bb\x7d".toList]
  agents := []
  readNamespace := none
  memoryManager := none
  userVars := [("a".toList, "$\x7bb\x7d".toList), ("b".toList, "1".toList)]
  distinct := by decide

/-- The line of the tool does not stay as it is, and the order of the variables is told from the prompt. -/
theorem chained_reread :
    render quiet (placeholder "tools".toList) chained chained.userVars ≠
        squeezeFrom 0 (substituted quiet chained (placeholder "tools".toList)) ∧
      chained.userVars.reverse.Perm chained.userVars ∧
      render quiet (placeholder "a".toList) chained chained.userVars.reverse ≠
        render quiet (placeholder "a".toList) chained chained.userVars := by
  refine ⟨?_, List.reverse_perm _, ?_⟩
  · rw [render_noMemory quiet chained (by decide), substituted,
      ← List.append_nil (placeholder "tools".toList),
      parse_placeholder (by decide) (by decide), parse]
    decide
  · rw [render_noMemory quiet chained (by decide), render_noMemory quiet chained (by decide)]
    decide

end Cronymax.Agent.Prompt
