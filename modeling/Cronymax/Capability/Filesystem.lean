import Cronymax.Agent.Loop
import Cronymax.Paths.Lexical
import Cronymax.Utf8.Lossy

/-! What the tools ask of the operating system.  Each request is one action, and the host in which it is
performed holds the answer, so that the host may answer as it likes. -/

namespace Cronymax.Capability

open Atomic

instance : Paths.Alphabet UInt8 := ⟨47, 46, by decide⟩

abbrev PathBuf := Paths.Path UInt8

/-- A path by its bytes. -/
def pathOf (s : String) : PathBuf := .parse (Utf8.encode s.toList)

/-- `Path::display`. -/
def display (p : PathBuf) : String := String.ofList (Utf8.lossy p.display)

inductive ErrorKind where
  | notFound
  | other
deriving DecidableEq

structure IoError where
  kind : ErrorKind
  text : String

/-- Input to a shell capability invocation. -/
structure ShellRequest where
  command : String
  cwd : Option String
  timeoutSecs : Option Nat
  env : List (String × String)
deriving DecidableEq

inductive ExitStatus where
  | code (n : Int)
  | killed
  | signal (n : Int)
deriving DecidableEq

/-- An access of a tool to the host. -/
inductive HostAct where
  | openFile (path : PathBuf)
  | seek (offset : Nat)
  | readToEnd (limit : Nat)
  | readToString (path : PathBuf)
  | mkdir (path : PathBuf)
  | isDir (path : PathBuf)
  | write (path : PathBuf) (content : String)
  | rename (source target : PathBuf)
  | readDir (path : PathBuf)
  | run (request : ShellRequest)
  | getVars
  | spawn (command : String) (cwd : PathBuf) (env : List (String × String)) (timeout : Nat)
  | startPty (cwd : PathBuf) (shell : String) (cols rows : Nat)
  | writePty (text : String)
  | collectPty (secs : Nat)
  | stopPty

/-- The paths that an access names. -/
def HostAct.touched : HostAct → List PathBuf
  | .openFile path | .readToString path | .mkdir path | .isDir path | .write path _ | .readDir path =>
    [path]
  | .rename source target => [source, target]
  | _ => []

structure Finished where
  status : ExitStatus
  stdout : List UInt8
  stderr : List UInt8

/-- What the host answers, whatever is asked. -/
structure Host where
  ack : Except IoError Unit
  bytes : Except IoError (List UInt8)
  text : Except IoError String
  isDir : Bool
  names : Except IoError (List (List UInt8))
  vars : List (String × String)
  child : Except IoError (Option Finished)
  elapsedMs : Nat
  shown : Option (List UInt8)

instance : Acts HostAct Host := ⟨fun _ h => h⟩

abbrev HostProg (α : Type) := Prog HostAct Host String α

def orFail {α : Type} : Except IoError α → HostProg α
  | .ok a => pure a
  | .error e => .fail e.text

def HostAct.acked (x : HostAct) : HostProg (Except IoError Unit) := do
  let h ← Prog.perform x
  pure h.ack

end Cronymax.Capability

/-! The file tools: a path is resolved in the workspace, and what is resolved is handed to a provider of
files.  `LocalFilesystem` provides those of the operating system. -/

namespace Cronymax.Capability

open Atomic
open Agent (ToolOutcome)
open Authority (Value)

inductive ScopeError where
  | outsideWorkspace (path root : String)

def ScopeError.text : ScopeError → String
  | .outsideWorkspace path root => "path '" ++ path ++ "' escapes workspace root '" ++ root ++ "'"

/-- `normalize_path`: dots are taken out of the text, links are not looked at. -/
def normalizePath (path : PathBuf) : PathBuf :=
  path.components.foldl (fun components c =>
    match c with
    | .parentDir => components.pop
    | .curDir => components
    | other => components.push other) .empty

structure WorkspaceScope where
  root : PathBuf

/-- `resolve`: the normalized path has to lie below the root. -/
def WorkspaceScope.resolve (s : WorkspaceScope) (rel : String) : Except ScopeError PathBuf :=
  let joined := s.root.join (pathOf rel)
  let resolved := normalizePath joined
  if resolved.startsWith s.root then .ok resolved
  else .error (.outsideWorkspace rel (display s.root))

structure ReadFileRequest where
  path : String
  offset : Option Nat
  maxBytes : Option Nat

structure ReadFileResult where
  path : String
  content : String
  truncated : Bool

structure WriteFileRequest where
  path : String
  content : String
  createDirs : Bool

structure StrReplaceRequest where
  path : String
  oldStr : String
  newStr : String

structure StrReplaceResult where
  path : String
  diff : String

/-- `FilesystemCapability`. -/
structure FilesystemCapability where
  readFile : PathBuf → Option Nat → Option Nat → HostProg ReadFileResult
  writeFile : PathBuf → String → Bool → HostProg Unit
  listDir : PathBuf → HostProg (List String)
  strReplace : PathBuf → String → String → HostProg StrReplaceResult

@[grind =] def scan (pat : List Char) : Nat → List Char → Nat
  | _, [] => 0
  | skip + 1, _ :: text => scan pat skip text
  | 0, c :: text =>
    if pat <+: c :: text then scan pat (pat.length - 1) text + 1 else scan pat 0 text

/-- `str::matches` and `count`: an empty pattern is met at every boundary. -/
def countMatches (pat text : String) : Nat :=
  if pat = "" then text.length + 1 else scan pat.toList 0 text.toList

/-- `str::replacen` for one occurrence. -/
def replaceOnce (pat new : List Char) : List Char → List Char
  | [] => if pat = [] then new else []
  | c :: text =>
    if pat <+: c :: text then new ++ (c :: text).drop pat.length
    else c :: replaceOnce pat new text

/-- `str::lines`: the last line may lack its line feed. -/
def lines (text : String) : List String :=
  let parts := text.toList.splitOn '\n'
  let ended := parts.dropLast.map fun part =>
    if part.getLast? = some '\r' then part.dropLast else part
  let rest := match parts.getLast? with
    | none | some [] => []
    | some part => [part]
  (ended ++ rest).map String.ofList

/-- `truncate_for_error`. -/
def truncateForError (s : String) (maxChars : Nat) : String :=
  if s.length ≤ maxChars then s else String.ofList (s.toList.take maxChars) ++ "…"

inductive Mark where
  | context
  | removed
  | added
deriving DecidableEq

def Mark.text : Mark → String
  | .context => " "
  | .removed => "-"
  | .added => "+"

/-- A hunk of the diff that `str_replace` answers with. -/
structure Hunk where
  oldStart : Nat
  oldCount : Nat
  newStart : Nat
  newCount : Nat
  body : List (Mark × String)

def Hunk.render (file : String) (h : Hunk) : String :=
  "--- a/" ++ file ++ "\n+++ b/" ++ file ++ "\n@@ -" ++ toString h.oldStart ++ "," ++
    toString h.oldCount ++ " +" ++ toString h.newStart ++ "," ++ toString h.newCount ++ " @@\n" ++
    String.join (h.body.map fun l => l.1.text ++ l.2 ++ "\n")

/-- A slice of lines: `none` where the source panics. -/
def slice (all : List String) (start stop : Nat) : Option (List String) :=
  if start ≤ stop ∧ stop ≤ all.length then some ((all.take stop).drop start) else none

/-- The first line that differs. -/
def changedStart (oldLines newLines : List String) : Nat :=
  ((oldLines.zip newLines).findIdx? fun l => l.1 ≠ l.2).getD 0

/-- The lines of the old content around the change. -/
def markOld (start changed oldRemoved : Nat) (before : List String) : List (Mark × String) :=
  (before.zipIdx start).map fun l =>
    (if changed ≤ l.2 ∧ l.2 < changed + oldRemoved then .removed else .context, l.1)

/-- The lines of the new content that are added. -/
def markNew (start changed newAdded : Nat) (after : List String) : List (Mark × String) :=
  ((after.zipIdx start).filter fun l => changed ≤ l.2 ∧ l.2 < changed + newAdded).map fun l =>
    (.added, l.1)

def contextHunk (oldContent newContent oldStr newStr : String) : Option Hunk := do
  let oldLines := lines oldContent
  let newLines := lines newContent
  let changed := changedStart oldLines newLines
  let oldRemoved := max (lines oldStr).length 1
  let newAdded := max (lines newStr).length 1
  let ctx := 3
  let oldStart := changed - ctx
  let oldEnd := min (changed + oldRemoved + ctx) oldLines.length
  let newEnd := min (changed + newAdded + ctx) newLines.length
  let before ← slice oldLines oldStart oldEnd
  let after ← slice newLines oldStart newEnd
  some ⟨oldStart + 1, oldEnd - oldStart, oldStart + 1, newEnd - oldStart,
    markOld oldStart changed oldRemoved before ++ markNew oldStart changed newAdded after⟩

/-- `make_context_diff`. -/
def makeContextDiff (path : PathBuf) (oldContent newContent oldStr newStr : String) : Option String :=
  (contextHunk oldContent newContent oldStr newStr).map (Hunk.render (display path))

def settleDir (path : PathBuf) : Except IoError Unit → HostProg Unit
  | .ok () => pure ()
  | .error e => do
    let h ← Prog.perform (.isDir path)
    if h.isDir then pure () else .fail e.text

/-- `fs::create_dir_all`: where the parent is missing, it is made first. -/
def createDirAll (path : PathBuf) : HostProg Unit :=
  if path = .empty then pure ()
  else do
    let made ← (HostAct.mkdir path).acked
    match made with
    | .error ⟨.notFound, _⟩ =>
      match _hParent : path.parent with
      | none => .fail "failed to create whole tree"
      | some parent => do
        createDirAll parent
        let again ← (HostAct.mkdir path).acked
        settleDir path again
    | made => settleDir path made
termination_by path.components.length
decreasing_by
  obtain ⟨c, hComponents⟩ := Paths.Path.parent_components _hParent
  simp [hComponents]

namespace LocalFilesystem

/-- `read_file`: a page by its offset and its bytes, or the whole. -/
def readFile (path : PathBuf) (offset maxBytes : Option Nat) : HostProg ReadFileResult := do
  if offset.isSome ∨ maxBytes.isSome then
    let opened ← (HostAct.openFile path).acked
    orFail opened
    match offset with
    | some off => do
      let sought ← (HostAct.seek off).acked
      orFail sought
    | none => pure ()
    let h ← Prog.perform (.readToEnd (maxBytes.getD (2 ^ 64 - 1)))
    let buf ← orFail h.bytes
    let truncated := (maxBytes.map fun m => decide (m ≤ buf.length)).getD false
    pure ⟨display path, String.ofList (Utf8.lossy buf), truncated⟩
  else
    let h ← Prog.perform (.readToString path)
    let content ← orFail h.text
    pure ⟨display path, content, false⟩

/-- `write_file`. -/
def writeFile (path : PathBuf) (content : String) (createDirs : Bool) : HostProg Unit := do
  if createDirs then
    match path.parent with
    | some parent => createDirAll parent
    | none => pure ()
  let written ← (HostAct.write path content).acked
  orFail written

/-- `list_dir`. -/
def listDir (path : PathBuf) : HostProg (List String) := do
  let h ← Prog.perform (.readDir path)
  let names ← orFail h.names
  pure ((names.map fun name => String.ofList (Utf8.lossy name)).mergeSort fun a b => decide (a ≤ b))

def replaceExtension : Paths.Extension UInt8 where
  text := Utf8.encode "__str_replace_tmp__".toList
  nonempty := by decide
  plain := by decide

def withDiff (path : PathBuf) : Option String → HostProg StrReplaceResult
  | some diff => pure ⟨display path, diff⟩
  | none => .fail "panicked"

/-- `str_replace`: the one match is replaced, by way of a temporary file. -/
def strReplace (path : PathBuf) (oldStr newStr : String) : HostProg StrReplaceResult := do
  let h ← Prog.perform (.readToString path)
  let content ← orFail h.text
  match countMatches oldStr content with
  | 0 => .fail ("str_replace: not_found — '" ++ truncateForError oldStr 80 ++
      "' does not appear in " ++ display path)
  | 1 => do
    let newContent := String.ofList (replaceOnce oldStr.toList newStr.toList content.toList)
    -- The text is written to a sibling first, which is then renamed.
    let tmpPath := path.withExtension replaceExtension
    let written ← (HostAct.write tmpPath newContent).acked
    orFail written
    let renamed ← (HostAct.rename tmpPath path).acked
    orFail renamed
    withDiff path (makeContextDiff path content newContent oldStr newStr)
  | n => .fail ("str_replace: ambiguous — '" ++ truncateForError oldStr 80 ++ "' appears " ++
      toString n ++ " times in " ++ display path ++ "; use a more specific old_str")

end LocalFilesystem

/-- `LocalFilesystem`. -/
def localFilesystem : FilesystemCapability where
  readFile := LocalFilesystem.readFile
  writeFile := LocalFilesystem.writeFile
  listDir := LocalFilesystem.listDir
  strReplace := LocalFilesystem.strReplace

/-- A tool goes on with the path that its scope resolves. -/
def withinScope (scope : WorkspaceScope) (rel : String) (go : PathBuf → HostProg ToolOutcome) :
    HostProg ToolOutcome :=
  match scope.resolve rel with
  | .error e => pure (.error ("scope violation: " ++ e.text))
  | .ok resolved => go resolved

/-- What a tool answers. -/
def outcomeOf {α : Type} (name : String) (render : α → Value) (p : HostProg α) :
    HostProg ToolOutcome := do
  let r ← p.attempt
  match r with
  | .ok a => pure (.output (render a))
  | .error e => pure (.error (name ++ " failed: " ++ e))

variable (fs : FilesystemCapability) (scope : WorkspaceScope)

/-- The handler of `read_file`; the others follow. -/
def readFileTool (req : ReadFileRequest) : HostProg ToolOutcome :=
  withinScope scope req.path fun resolved =>
    outcomeOf "read_file" (fun r => .object [("path", .string r.path), ("content", .string r.content),
      ("truncated", .bool r.truncated)]) (fs.readFile resolved req.offset req.maxBytes)

def writeFileTool (req : WriteFileRequest) : HostProg ToolOutcome :=
  withinScope scope req.path fun resolved =>
    outcomeOf "write_file" (fun _ => .object [("written", .bool true)])
      (fs.writeFile resolved req.content req.createDirs)

def strReplaceTool (req : StrReplaceRequest) : HostProg ToolOutcome :=
  withinScope scope req.path fun resolved =>
    outcomeOf "str_replace" (fun r => .object [("path", .string r.path), ("diff", .string r.diff)])
      (fs.strReplace resolved req.oldStr req.newStr)

def listDirTool (path : String) : HostProg ToolOutcome :=
  withinScope scope path fun resolved =>
    outcomeOf "list_dir" (fun entries => .object [("entries", .array (entries.map .string))])
      (fs.listDir resolved)

end Cronymax.Capability
