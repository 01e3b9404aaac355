import Cronymax.Agent.Dispatcher
import Cronymax.Sandbox.Policy

/-! The tools that a host gives to its agents: what the model sees of each, what its handler does with
the arguments, and which of them the factory of a tier registers. -/

namespace Cronymax.Capability

open Atomic Sandbox
open Agent (ToolDef ToolOutcome BuilderCall DispatcherBuilder)
open Authority (Value)

/-- How `serde_json` reads the arguments of a tool. -/
abbrev Reader (α : Type) := String → Except String α

structure NotifyRequest where
  title : String
  body : String
  badge : Option Nat
  action : Option String
  sound : Option String

structure ApprovalRequest where
  title : String
  message : String
  confirmLabel : String
  denyLabel : String

/-- The deserialisers of the requests. -/
structure Readers where
  shell : Reader ShellRequest
  readFile : Reader ReadFileRequest
  writeFile : Reader WriteFileRequest
  strReplace : Reader StrReplaceRequest
  listDir : Reader String
  notify : Reader NotifyRequest
  approval : Reader ApprovalRequest
  terminal : Reader TerminalArgs

inductive SandboxTier where
  | trusted
  | sandboxed (policy : SandboxPolicy)

namespace SandboxTier

/-- The shell of a tier. -/
@[grind =] def shell (workspaceRoot : PathBuf) : SandboxTier → ShellCapability
  | .trusted => (LocalShell.new workspaceRoot).capability
  | .sandboxed policy => policyShell (LocalShell.new workspaceRoot).capability policy

def filesystem : SandboxTier → FilesystemCapability
  | .trusted => localFilesystem
  | .sandboxed policy => policyFilesystem localFilesystem policy

/-- The tier lets the path be read. -/
def mayRead (path : PathBuf) : SandboxTier → Bool
  | .trusted => true
  | .sandboxed policy => policy.canRead path

/-- The tier lets the path be written. -/
def mayWrite (path : PathBuf) : SandboxTier → Bool
  | .trusted => true
  | .sandboxed policy => policy.canWrite path

end SandboxTier

/-- The tools whose handlers are modelled. -/
inductive Tool where
  | runShell
  | readFile
  | writeFile
  | strReplace
  | listDir
  | notify
  | requestApproval
  | runTerminal
deriving DecidableEq

namespace Tool

def property (name type : String) (more : List (String × Value)) : String × Value :=
  (name, .object (("type", .string type) :: more))

def described (text : String) : List (String × Value) := [("description", .string text)]

def schema (properties : List (String × Value)) (required : List String) : Value :=
  .object [("type", .string "object"), ("properties", .object properties),
    ("required", .array (required.map .string))]

/-- The definition of a tool, as the model is told of it. -/
def definition : Tool → ToolDef
  | .runShell => ⟨"run_shell",
      "Execute a shell command in the workspace sandbox. Returns stdout, stderr, and exit code.",
      schema [property "command" "string" (described "Shell command to run (passed to /bin/sh -c)"),
        property "cwd" "string" (described "Working directory relative to workspace root"),
        property "timeout_secs" "integer" (described "Execution timeout in seconds")] ["command"]⟩
  | .readFile => ⟨"read_file",
      "Read a file's content from the workspace. Path must be relative to the workspace root.",
      schema [property "path" "string" [], property "offset" "integer" [],
        property "max_bytes" "integer" []] ["path"]⟩
  | .writeFile => ⟨"write_file",
      "Write content to a workspace file. Path must be relative to the workspace root.",
      schema [property "path" "string" [], property "content" "string" [],
        property "create_dirs" "boolean" [("default", .bool true)]] ["path", "content"]⟩
  | .strReplace => ⟨"str_replace",
      "Replace exactly one occurrence of `old_str` with `new_str` in a workspace file. " ++
        "Fails with an error if `old_str` matches zero or more than one location. " ++
        "Returns a unified diff of the change.",
      schema [property "path" "string" (described "File path relative to workspace root"),
        property "old_str" "string" (described "Exact text to replace (must appear exactly once)"),
        property "new_str" "string" (described "Replacement text")] ["path", "old_str", "new_str"]⟩
  | .listDir => ⟨"list_dir", "List directory contents within the workspace.",
      schema [property "path" "string" (described "Directory path relative to workspace root")]
        ["path"]⟩
  | .notify => ⟨"notify", "Post a macOS notification to the user.",
      schema [property "title" "string" [], property "body" "string" [],
        property "badge" "integer" []] ["title", "body"]⟩
  | .requestApproval => ⟨"request_approval",
      "Show the user a lightweight approval prompt. Returns 'approved', 'denied', or 'dismissed'.",
      schema [property "title" "string" [], property "message" "string" []] ["title", "message"]⟩
  | .runTerminal => ⟨"run_terminal",
      "Run a shell command in an interactive PTY in the workspace and return the output. " ++
        "Use for build commands, test runs, or any command that requires a real terminal " ++
        "(e.g. interactive installers). Prefer `run_shell` for simple non-interactive commands.",
      schema [property "command" "string" (described "The shell command to run (passed to /bin/zsh -c)"),
        property "cwd" "string" (described "Working directory (defaults to workspace root)"),
        property "timeout_secs" "number"
          (described "Seconds to wait for the command to finish (default 60)")] ["command"]⟩

/-- A handler goes on with its arguments. -/
@[grind =] def reading {α : Type} (read : Reader α) (complaint args : String) (go : α → HostProg ToolOutcome) :
    HostProg ToolOutcome :=
  match read args with
  | .ok req => go req
  | .error e => pure (.error (complaint ++ e))

/-- The handler of a tool. -/
def handle (readers : Readers) (tier : SandboxTier) (workspaceRoot : PathBuf) (args : String) :
    Tool → HostProg ToolOutcome
  | .runShell => reading readers.shell "invalid run_shell args: " args
      (runShellTool (tier.shell workspaceRoot))
  | .readFile => reading readers.readFile "invalid read_file args: " args
      (readFileTool tier.filesystem ⟨workspaceRoot⟩)
  | .writeFile => reading readers.writeFile "invalid write_file args: " args
      (writeFileTool tier.filesystem ⟨workspaceRoot⟩)
  | .strReplace => reading readers.strReplace "invalid str_replace args: " args
      (strReplaceTool tier.filesystem ⟨workspaceRoot⟩)
  | .listDir => reading readers.listDir "invalid list_dir args: " args
      (listDirTool tier.filesystem ⟨workspaceRoot⟩)
  | .notify => reading readers.notify "invalid notify args: " args fun _ =>
      pure (.output (.object [("sent", .bool true)]))
  | .requestApproval => reading readers.approval "invalid request_approval args: " args fun _ =>
      pure (.output (.object [("response", .string "approved")]))
  | .runTerminal => reading readers.terminal "run_terminal: bad args: " args
      (runTerminalTool workspaceRoot)

end Tool

abbrev Registration := Tool × Bool

/-- `register_shell`, with the approval that the caller asks for. -/
def registerShell (needsApproval : Bool) : List Registration := [(.runShell, needsApproval)]

/-- `register_filesystem`. -/
def registerFilesystem : List Registration :=
  [(.readFile, false), (.writeFile, false), (.strReplace, false), (.listDir, false)]

def registerNotify : List Registration := [(.notify, false), (.requestApproval, false)]

def registerTerminal : List Registration := [(.runTerminal, false)]

/-- `DefaultCapabilityFactory::build`. -/
def factoryBuild : SandboxTier → List Registration
  | .trusted => registerShell false ++ registerFilesystem ++ registerNotify
  | .sandboxed _ => registerShell false ++ registerFilesystem ++ registerNotify

def Registration.call (r : Registration) : BuilderCall := .register r.1.definition r.2

/-- The dispatcher of the factory. -/
def factoryBuilder (tier : SandboxTier) : DispatcherBuilder :=
  .after ((factoryBuild tier).map Registration.call)

section Examples

def unread {α : Type} : Reader α := fun _ => .error "expected value at line 1 column 1"

def silentHost : Host := ⟨.ok (), .ok [], .ok "", true, .ok [], [], .ok none, 0, some []⟩

end Examples

end Cronymax.Capability
