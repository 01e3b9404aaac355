import Cronymax.Capability.Shell

/-! The policy of a sandbox, the broker that decides by it, and the two gates that ask the broker before
they hand a request to the provider behind them. -/

namespace Cronymax.Sandbox

open Atomic Capability

/-- `SandboxPolicy`: what may be read, written and run. -/
structure SandboxPolicy where
  workspaceRoot : PathBuf
  readPaths : List PathBuf
  writePaths : List PathBuf
  denyPaths : List PathBuf
  allowNetwork : Bool

namespace SandboxPolicy

def defaultForWorkspace (root : PathBuf) : SandboxPolicy := ⟨root, [root], [root], [], false⟩

variable (policy : SandboxPolicy)

/-- `can_read`: a denied path comes first. -/
def canRead (path : PathBuf) : Bool :=
  if policy.denyPaths.any path.startsWith then false else policy.readPaths.any path.startsWith

/-- `can_write`: a denied path comes first. -/
def canWrite (path : PathBuf) : Bool :=
  if policy.denyPaths.any path.startsWith then false else policy.writePaths.any path.startsWith

end SandboxPolicy

/-- The principal requesting an operation. -/
inductive Actor where
  | user
  | agent

/-- `PermissionDecision`. -/
structure PermissionDecision where
  allowed : Bool
  requiresConfirmation : Bool
  risk : RiskLevel
  reason : String
  riskReasons : List String

namespace PermissionDecision

def allow : PermissionDecision := ⟨true, false, .low, "", []⟩

def confirm (risk : RiskLevel) (reason : String) (riskReasons : List String) : PermissionDecision :=
  ⟨true, true, risk, reason, riskReasons⟩

def deny (reason : String) : PermissionDecision := ⟨false, false, .high, reason, []⟩

end PermissionDecision

/-- `is_network_command`, by a token of the command. -/
def isNetworkCommand (command : String) : Bool :=
  let lower := toLowercase command
  ["curl ", "wget ", "ssh ", "rsync ", "nc ", "netcat ", "ftp "].any fun tok =>
    decide (tok.toList <:+: lower)

/-- What follows from the risk of a command. -/
def assess (command : String) (reasons : List String) : RiskLevel → PermissionDecision
  | .high =>
    .confirm .high "command requires explicit human approval"
      (reasons ++ ["high-risk command pattern: `" ++ command ++ "`"])
  | .medium => if reasons ≠ [] then .confirm .medium "elevated-risk command" reasons else .allow
  | .low => if reasons ≠ [] then .confirm .medium "policy constraint" reasons else .allow

/-- `check_exec`: the risk of the command, and whether it uses the network. -/
def checkExec (_actor : Actor) (command : String) (policy : SandboxPolicy) : PermissionDecision :=
  assess command
    (if !policy.allowNetwork && isNetworkCommand command then
      ["network access is disabled by the active sandbox policy"]
    else []) (classifyCommand command)

/-- `check_read`. -/
def checkRead (_actor : Actor) (path : PathBuf) (policy : SandboxPolicy) : PermissionDecision :=
  if policy.canRead path then .allow
  else .deny ("path '" ++ display path ++ "' is outside the readable scope")

/-- `check_write`. -/
def checkWrite (_actor : Actor) (path : PathBuf) (policy : SandboxPolicy) : PermissionDecision :=
  if policy.canWrite path then .allow
  else .deny ("path '" ++ display path ++ "' is outside the writable scope")

@[simp] theorem checkRead_allowed {actor : Actor} {path : PathBuf} {policy : SandboxPolicy} :
    (checkRead actor path policy).allowed = policy.canRead path := by
  rw [checkRead]
  split <;> simp_all [PermissionDecision.allow, PermissionDecision.deny]

@[simp] theorem checkWrite_allowed {actor : Actor} {path : PathBuf} {policy : SandboxPolicy} :
    (checkWrite actor path policy).allowed = policy.canWrite path := by
  rw [checkWrite]
  split <;> simp_all [PermissionDecision.allow, PermissionDecision.deny]

theorem assess_allowed (command : String) (reasons : List String) (risk : RiskLevel) :
    (assess command reasons risk).allowed = true := by
  cases risk with
  | high => rfl
  | medium | low =>
    rw [assess]
    split <;> rfl

@[simp] theorem checkExec_allowed {actor : Actor} {command : String} {policy : SandboxPolicy} :
    (checkExec actor command policy).allowed = true := assess_allowed _ _ _

/-- The shell behind the policy: only `allowed` is looked at. -/
def policyShell (inner : ShellCapability) (policy : SandboxPolicy) : ShellCapability where
  run request :=
    let decision := checkExec .agent request.command policy
    if !decision.allowed then
      pure ⟨.code 126, "", "sandbox policy denied execution: " ++ decision.reason, 0⟩
    else inner.run request
  maxOutputBytes := inner.maxOutputBytes

@[simp] theorem policyShell_run (inner : ShellCapability) (policy : SandboxPolicy)
    (request : ShellRequest) : (policyShell inner policy).run request = inner.run request := by
  rw [policyShell]
  dsimp only
  rw [checkExec_allowed]
  rfl

/-- An access that the policy lets through. -/
def ifAllowed {α : Type} (access : String) (path : PathBuf) (decision : PermissionDecision)
    (go : HostProg α) : HostProg α :=
  if !decision.allowed then
    .fail ("sandbox policy denied " ++ access ++ " access to '" ++ display path ++ "': " ++
      decision.reason)
  else go

/-- `PolicyFilesystem`. -/
def policyFilesystem (inner : FilesystemCapability) (policy : SandboxPolicy) :
    FilesystemCapability where
  readFile path offset maxBytes :=
    ifAllowed "read" path (checkRead .agent path policy) (inner.readFile path offset maxBytes)
  writeFile path content createDirs :=
    ifAllowed "write" path (checkWrite .agent path policy) (inner.writeFile path content createDirs)
  listDir path := ifAllowed "read" path (checkRead .agent path policy) (inner.listDir path)
  strReplace path oldStr newStr :=
    ifAllowed "write" path (checkWrite .agent path policy) (inner.strReplace path oldStr newStr)

end Cronymax.Sandbox
