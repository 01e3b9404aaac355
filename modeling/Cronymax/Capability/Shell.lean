import Cronymax.Capability.Filesystem
import Cronymax.Llm.Sse

/-! The shell tools.  `run_shell` runs a command in a directory of the workspace, and `run_terminal`
types it into a shell on a terminal. -/

namespace Cronymax.Capability

open Atomic
open Agent (ToolOutcome)
open Authority (Value)
open Llm (isWhitespace)

inductive RiskLevel where
  | low
  | medium
  | high
deriving DecidableEq

def lowercase (c : Char) : List Char :=
  if c = '\u0130' then ['i', '\u0307']
  else if c = '\u212A' then ['k']
  else [c.toLower]

/-- `to_lowercase`. -/
def toLowercase (s : String) : List Char := s.toList.flatMap lowercase

def trim (text : List Char) : List Char :=
  (text.dropWhile isWhitespace).rdropWhile isWhitespace

/-- `classify_command`. -/
def classifyCommand (command : String) : RiskLevel :=
  let lower := toLowercase command
  let has (s : String) : Bool := decide (s.toList <:+: lower)
  if has "sudo " || trim lower = "sudo".toList || has "rm -rf" || has "rm -fr" || has "chmod -r" ||
      has "chown -r" || has "/.ssh/" || has " ~/.ssh" || has "$home/.ssh" || has "/.aws/" ||
      has " ~/.aws" || has "$home/.aws" ||
      (has "curl " && has "|" && (has " sh" || has " bash" || has " zsh")) ||
      (has "wget " && has "|" && (has " sh" || has " bash" || has " zsh")) then .high
  else if has "ssh " || has "scp " || has "rsync " || has "curl " || has "wget " ||
      has "npm install" || has "pip install" || has "brew install" then .medium
  else .low

structure ShellResult where
  exitStatus : ExitStatus
  stdout : String
  stderr : String
  elapsedMs : Nat

/-- A provider of shells. -/
structure ShellCapability where
  run : ShellRequest → HostProg ShellResult
  maxOutputBytes : Nat

namespace Shell

/-- `normalize_path` of the shell, a copy of the one for files. -/
def normalizePath (path : PathBuf) : PathBuf :=
  path.components.foldl (fun out c =>
    match c with
    | .parentDir => out.pop
    | .curDir => out
    | other => out.push other) .empty

end Shell

def keep : List String := ["PATH", "HOME", "USER", "SHELL", "LANG", "LC_ALL", "TMPDIR", "TERM"]

/-- `safe_env`. -/
def safeEnv (vars : List (String × String)) : List (String × String) :=
  keep.filterMap fun k => (vars.lookup k).map fun v => (k, v)

def boundary (bytes : List UInt8) : Nat → Nat
  | 0 => 0
  | n + 1 => if (bytes[n + 1]?.getD 0) &&& 0xC0 = 0x80 then boundary bytes n else n + 1

/-- `truncate_utf8`. -/
def truncateUtf8 (bytes : List UInt8) (max : Nat) : String :=
  if bytes.length ≤ max then String.ofList (Utf8.lossy bytes)
  else String.ofList (Utf8.lossy (bytes.take (boundary bytes max)))

structure LocalShell where
  workspaceRoot : PathBuf
  defaultTimeout : Nat

namespace LocalShell

def new (workspaceRoot : PathBuf) : LocalShell := ⟨workspaceRoot, 30⟩

variable (sh : LocalShell)

def maxOutputBytes : Nat := 32768

/-- The directory of a command, checked where one is asked for. -/
def cwd (request : ShellRequest) : Except String PathBuf :=
  match request.cwd with
  | some rel =>
    let candidate := sh.workspaceRoot.join (pathOf rel)
    let normalized := Shell.normalizePath candidate
    if normalized.startsWith sh.workspaceRoot then .ok normalized
    else .error ("cwd '" ++ rel ++ "' escapes workspace root")
  | none => .ok sh.workspaceRoot

/-- `LocalShell::run`. -/
def run (request : ShellRequest) : HostProg ShellResult := do
  let _ ← Prog.perform (.run request)
  match sh.cwd request with
  | .error e => .fail e
  | .ok cwd => do
    let timeout := request.timeoutSecs.getD sh.defaultTimeout
    let h ← Prog.perform .getVars
    let h ← Prog.perform (.spawn request.command cwd (safeEnv h.vars ++ request.env) timeout)
    match h.child with
    | .ok none =>
      pure ⟨.killed, "", "command timed out after " ++ toString timeout ++ "s", h.elapsedMs⟩
    | .error e => .fail ("failed to spawn command: " ++ e.text)
    | .ok (some out) =>
      pure ⟨out.status, truncateUtf8 out.stdout maxOutputBytes,
        truncateUtf8 out.stderr maxOutputBytes, h.elapsedMs⟩

def capability : ShellCapability where
  run := sh.run
  maxOutputBytes := maxOutputBytes

end LocalShell

def exitCode : ExitStatus → Int
  | .code c => c
  | _ => -1

/-- The handler of `run_shell`. -/
def runShellTool (provider : ShellCapability) (req : ShellRequest) : HostProg ToolOutcome := do
  let r ← (provider.run req).attempt
  match r with
  | .ok result => pure (.output (.object [("exit_code", .number (toString (exitCode result.exitStatus))),
      ("stdout", .string result.stdout), ("stderr", .string result.stderr),
      ("elapsed_ms", .number (toString result.elapsedMs))]))
  | .error e => pure (.error ("shell execution failed: " ++ e))

structure TerminalArgs where
  command : String
  cwd : Option String
  timeoutSecs : Option Nat

def isUtf8 (bytes : List UInt8) : Bool := Utf8.encode (Utf8.lossy bytes) = bytes

/-- `Path::to_str`, read back as a path. -/
def rootDirectory (workspaceRoot : PathBuf) : PathBuf :=
  if isUtf8 workspaceRoot.display then workspaceRoot else pathOf "."

/-- The handler of `run_terminal`: its directory is not checked. -/
def runTerminalTool (workspaceRoot : PathBuf) (args : TerminalArgs) : HostProg ToolOutcome := do
  let cwd := match args.cwd with
    | some cwd => pathOf cwd
    | none => rootDirectory workspaceRoot
  let secs := args.timeoutSecs.getD 60
  let started ← (HostAct.startPty cwd "/bin/zsh" 220 50).acked
  match started with
  | .error e => pure (.error ("run_terminal: pty start failed: " ++ e.text))
  | .ok () => do
    let written ← (HostAct.writePty (args.command ++ "\nexit\n")).acked
    match written with
    | .error _ => pure (.error "run_terminal: write failed: PTY write failed")
    | .ok () => do
      let h ← Prog.perform (.collectPty secs)
      let _ ← Prog.perform .stopPty
      match h.shown with
      | none => pure (.error ("run_terminal: command timed out after " ++ toString secs ++ "s"))
      | some bytes =>
        let output := String.ofList (Utf8.lossy bytes)
        pure (.output (.object [("output", .string output),
          ("line_count", .number (toString (lines output).length))]))

end Cronymax.Capability
