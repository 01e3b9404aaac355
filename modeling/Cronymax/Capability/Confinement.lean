import Cronymax.Capability.Access

/-! The confinement of the tools to the workspace: what they resolve, touch and start in lies under its
root.  The terminal starts wherever it is told to; a write to the root and a replacement of it touch what
is around the root. -/

namespace Cronymax.Capability

open Atomic Sandbox
open Paths.Path (Inside)

theorem normalizePath_eq (path : PathBuf) : normalizePath path = path.normalize := by
  rw [normalizePath, Paths.Path.normalize]
  congr 1
  funext components c
  cases c <;> rfl

theorem normalizers_agree : Shell.normalizePath = normalizePath := rfl

theorem resolve_inside {root path : PathBuf} {rel : String}
    (h : WorkspaceScope.resolve ⟨root⟩ rel = .ok path) : Inside root path := by
  rw [WorkspaceScope.resolve] at h
  dsimp only at h
  split at h
  · rename_i hStarts
    cases h
    exact ⟨hStarts, normalizePath_eq _ ▸ Paths.Path.normalize_plain _⟩
  · cases h

def cwdArgument (readers : Readers) (args : String) : Tool → Option String
  | .runShell => (readers.shell args).toOption.bind (·.cwd)
  | .runTerminal => (readers.terminal args).toOption.bind (·.cwd)
  | _ => none

/-- A shell is started. -/
def HostAct.Starts : HostAct → Prop
  | .spawn _ _ _ _ | .startPty _ _ _ _ => True
  | _ => False

/-- The workspace confines an execution of a tool. -/
structure Confined (readers : Readers) (root : PathBuf) (args : String) (tr : HostTrace)
    (tool : Tool) : Prop where
  resolved : ∀ rel path, WorkspaceScope.resolve ⟨root⟩ rel = .ok path → Inside root path
  touched : ∀ e ∈ tr, ∀ path ∈ e.1.touched, Inside root path
  cwd : ∀ rel, cwdArgument readers args tool = some rel → (∃ e ∈ tr, e.1.Starts) →
    ∃ path, WorkspaceScope.resolve ⟨root⟩ rel = .ok path

/-- The tool makes no directory above the root, puts no temporary file beside it, and runs no terminal
outside. -/
def Contained (readers : Readers) (tier : SandboxTier) (root : PathBuf) (args : String)
    (tr : HostTrace) : Tool → Prop
  | .writeFile => ∀ req path,
      Reached readers.writeFile (·.path) ⟨root⟩ (tier.mayWrite ·) args req path →
        (req.createDirs = true → path = root → root.parent = none) ∧
          ∀ e ∈ tr, ∀ above, ¬Upward e root above
  | .strReplace => ∀ req path,
      Reached readers.strReplace (·.path) ⟨root⟩ (tier.mayWrite ·) args req path →
        path = root → root.withExtension LocalFilesystem.replaceExtension ≠ root →
          ∀ host content, (.readToString root, host) ∈ tr → host.text = .ok content →
            countMatches req.oldStr content ≠ 1
  | .runTerminal => ∀ req rel, readers.terminal args = .ok req → req.cwd = some rel →
      ∃ path, WorkspaceScope.resolve ⟨root⟩ rel = .ok path
  | _ => True

section

variable {readers : Readers} {tier : SandboxTier} {root path : PathBuf} {args : String}
  {tr : HostTrace}

theorem allAllowed_iff_touched {P : PathBuf → Prop} :
    AllAllowed P P tr ↔ ∀ e ∈ tr, ∀ path ∈ e.1.touched, P path := by
  refine forall₂_congr fun e _ => ?_
  cases e.1 <;> simp [HostAct.Allowed, HostAct.touched]

theorem writeClear_iff (hRoot : root.isAbsolute = true) {req : WriteFileRequest}
    (hInside : Inside root path) :
    WriteClear (Inside root) req path tr ↔
      (req.createDirs = true → path = root → root.parent = none) ∧
        ∀ e ∈ tr, ∀ above, ¬Upward e root above := by
  constructor
  · rintro ⟨hParent, hUpward⟩
    constructor
    · rintro hCreate rfl
      cases hAbove : path.parent with
      | none => rfl
      | some above =>
        have hNe := Paths.Path.parent_ne_empty hRoot hAbove
        exact absurd (hParent hCreate above hAbove hNe) (Paths.Path.parent_not_inside hAbove)
    · intro e he above hUp
      obtain ⟨_, -, -, hAbove, -⟩ := id hUp
      exact Paths.Path.parent_not_inside hAbove (hUpward e he root above hInside.base hUp)
  · rintro ⟨hParent, hUpward⟩
    constructor
    · intro hCreate above hAbove _
      refine hInside.parent (fun hSame => ?_) hAbove
      rw [hSame, hParent hCreate hSame] at hAbove
      cases hAbove
    · intro e he below above hBelow hUp
      obtain ⟨_, -, -, hAbove, -⟩ := id hUp
      refine hBelow.parent (fun hSame => ?_) hAbove
      exact hUpward e he above (hSame ▸ hUp)

theorem replaceClear_iff {req : StrReplaceRequest} (hInside : Inside root path) :
    ReplaceClear (Inside root) (Inside root) req path tr ↔
      (path = root → root.withExtension LocalFilesystem.replaceExtension ≠ root →
        ∀ host content, (.readToString root, host) ∈ tr → host.text = .ok content →
          countMatches req.oldStr content ≠ 1) := by
  constructor
  · rintro ⟨-, hSibling⟩ rfl hNe host content hRead hText hOnce
    exact Paths.Path.withExtension_not_inside hNe (hSibling host content hRead hText hOnce)
  · intro hRoot
    refine ⟨hInside, fun host content hRead hText hOnce => ?_⟩
    by_cases hSame : path = root
    · subst hSame
      by_cases hNe : path.withExtension LocalFilesystem.replaceExtension = path
      · rwa [hNe]
      · exact absurd hOnce (hRoot rfl hNe host content hRead hText)
    · exact hInside.withExtension hSame

theorem touched_iff (hRoot : root.isAbsolute = true) {tool : Tool} {r : Except String Agent.ToolOutcome}
    (h : Prog.Yields (tool.handle readers tier root args) tr r) (hTool : tool ≠ .runTerminal) :
    (∀ e ∈ tr, ∀ path ∈ e.1.touched, Inside root path) ↔ Contained readers tier root args tr tool := by
  rw [← allAllowed_iff_touched, handle_allowed (fun rel path hResolved _ => resolve_inside hResolved) h]
  cases tool with
  | readFile | listDir =>
    exact iff_of_true (fun _ _ hReached => resolve_inside hReached.resolved) trivial
  | writeFile =>
    exact forall₃_congr fun req path hReached => writeClear_iff hRoot (resolve_inside hReached.resolved)
  | strReplace =>
    exact forall₃_congr fun req path hReached => replaceClear_iff (resolve_inside hReached.resolved)
  | runTerminal => exact absurd rfl hTool
  | runShell | notify | requestApproval => exact Iff.rfl

theorem localShell_stays {sh : LocalShell} {req : ShellRequest} {e : String}
    (h : sh.cwd req = .error e) : (sh.run req).Only fun x => ¬x.Starts := by
  refine Prog.Only.perform id fun _ => ?_
  rw [h]
  exact Prog.only_fail _

theorem shell_stays {req : ShellRequest} {e : String} (h : (LocalShell.new root).cwd req = .error e) :
    ((tier.shell root).run req).Only fun x => ¬x.Starts := by
  cases tier with
  | trusted => exact localShell_stays h
  | sandboxed policy =>
    rw [SandboxTier.shell, policyShell_run]
    exact localShell_stays h

theorem localShell_cwd {sh : LocalShell} {req : ShellRequest} {rel : String}
    (hRoot : sh.workspaceRoot = root) (hCwd : req.cwd = some rel) (h : sh.cwd req = .ok path) :
    WorkspaceScope.resolve ⟨root⟩ rel = .ok path := by
  subst hRoot
  rw [LocalShell.cwd, hCwd, normalizers_agree] at h
  rw [WorkspaceScope.resolve]
  dsimp only at h ⊢
  split at h
  · rename_i hStarts
    cases h
    exact if_pos hStarts
  · cases h

theorem runShell_cwd {r : Except String Agent.ToolOutcome} {rel : String}
    (h : Prog.Yields (Tool.runShell.handle readers tier root args) tr r)
    (hCwd : cwdArgument readers args .runShell = some rel) (hStarts : ∃ e ∈ tr, e.1.Starts) :
    ∃ path, WorkspaceScope.resolve ⟨root⟩ rel = .ok path := by
  obtain ⟨e, he, hStarts⟩ := hStarts
  obtain ⟨req, hParsed, hRun⟩ | ⟨-, rfl⟩ := reading_yields h
  · simp only [cwdArgument, hParsed, Except.toOption, Option.bind_some] at hCwd
    cases hLocal : (LocalShell.new root).cwd req with
    | ok path => exact ⟨path, localShell_cwd rfl hCwd hLocal⟩
    | error text =>
      have hTool : (runShellTool (tier.shell root) req).Only fun x => ¬x.Starts :=
        (shell_stays hLocal).attempt.bind fun r => (by cases r <;> exact Prog.only_done _)
      exact absurd hStarts (hTool.yields hRun e he)
  · cases he

theorem runTerminal_starts {r : Except String Agent.ToolOutcome} {req : TerminalArgs}
    (h : Prog.Yields (Tool.runTerminal.handle readers tier root args) tr r)
    (hParsed : readers.terminal args = .ok req) : ∃ e ∈ tr, e.1.Starts := by
  obtain ⟨req, -, hRun⟩ | ⟨hNone, -⟩ := reading_yields h
  · obtain ⟨host, rest, rfl, -⟩ := yields_acked.mp hRun
    exact ⟨_, List.mem_cons_self, trivial⟩
  · exact absurd hParsed (hNone req)

/-- An execution is confined exactly if the terminal is not told to start elsewhere, no write makes the
directories of the root itself, and no replacement is made of the root. -/
theorem workspace_confined_iff {tool : Tool} {r : Except String Agent.ToolOutcome}
    (hRoot : root.isAbsolute = true ∧ normalizePath root = root)
    (hRun : Prog.Yields (tool.handle readers tier root args) tr r) :
    Confined readers root args tr tool ↔ Contained readers tier root args tr tool := by
  by_cases hTerminal : tool = .runTerminal
  · subst hTerminal
    constructor
    · intro hConfined req rel hParsed hCwd
      refine hConfined.cwd rel ?_ (runTerminal_starts hRun hParsed)
      simp only [cwdArgument, hParsed, Except.toOption, Option.bind_some, hCwd]
    · intro hContained
      refine ⟨fun _ _ => resolve_inside, allAllowed_iff_touched.mp ?_, fun rel hCwd _ => ?_⟩
      · exact allAllowed_of_only (reading_only runTerminal_untouched) hRun
      · obtain ⟨req, hParsed, hCwd⟩ := Option.bind_eq_some_iff.mp hCwd
        cases hRead : readers.terminal args with
        | error e =>
          rw [hRead] at hParsed
          cases hParsed
        | ok req' =>
          rw [hRead] at hParsed
          cases hParsed
          exact hContained req rel hRead hCwd
  · rw [← touched_iff hRoot.1 hRun hTerminal]
    refine ⟨fun h => h.touched, fun h => ⟨fun _ _ => resolve_inside, h, fun rel hCwd hStarts => ?_⟩⟩
    cases tool with
    | runShell => exact runShell_cwd hRun hCwd hStarts
    | runTerminal => exact absurd rfl hTerminal
    | readFile | writeFile | strReplace | listDir | notify | requestApproval => cases hCwd

end

section Examples

/-- Arguments that ask for the command `ls` in a directory. -/
def listingIn (cwd : String) : String := "\x7b\"command\":\"ls\",\"cwd\":\"" ++ cwd ++ "\"\x7d"

def readsListing (cwd : String) : Readers where
  shell args := if args = listingIn cwd then .ok ⟨"ls", some cwd, none, []⟩ else unread args
  readFile := unread
  writeFile := unread
  strReplace := unread
  listDir := unread
  notify := unread
  approval := unread
  terminal args := if args = listingIn cwd then .ok ⟨"ls", some cwd, none⟩ else unread args

def listingTerminal (cwd : String) : HostProg Agent.ToolOutcome :=
  Tool.runTerminal.handle (readsListing cwd) .trusted (pathOf "/ws") (listingIn cwd)

theorem listing_read (cwd : String) :
    (readsListing cwd).terminal (listingIn cwd) = .ok ⟨"ls", some cwd, none⟩ := if_pos rfl

/-- The terminal starts where no file tool may go. -/
theorem terminal_escapes : ∃ tr r, Prog.Yields (listingTerminal "/etc") tr r ∧
    ¬Confined (readsListing "/etc") (pathOf "/ws") (listingIn "/etc") tr .runTerminal := by
  have hRun := Prog.trace_yields (listingTerminal "/etc") silentHost
  refine ⟨_, _, hRun, fun hConfined => ?_⟩
  have hCwd : cwdArgument (readsListing "/etc") (listingIn "/etc") .runTerminal = some "/etc" := by
    rw [cwdArgument, listing_read]
    rfl
  obtain ⟨path, hPath⟩ := hConfined.cwd "/etc" hCwd (runTerminal_starts hRun (listing_read "/etc"))
  have hNone : (WorkspaceScope.resolve ⟨pathOf "/ws"⟩ "/etc").toOption = none := by decide
  rw [hPath] at hNone
  cases hNone

/-- A terminal in a directory that is the root after its dots are taken out. -/
theorem listing_confined :
    Confined (readsListing "src/..") (pathOf "/ws") (listingIn "src/..")
      ((listingTerminal "src/..").trace silentHost) .runTerminal := by
  have hRoot : (pathOf "/ws").isAbsolute = true ∧ normalizePath (pathOf "/ws") = pathOf "/ws" := by
    decide
  refine (workspace_confined_iff hRoot (Prog.trace_yields (listingTerminal "src/..") silentHost)).mpr ?_
  intro req rel hParsed hCwd
  rw [listing_read] at hParsed
  cases hParsed
  cases hCwd
  exact ⟨pathOf "/ws", by rfl⟩

end Examples

end Cronymax.Capability
