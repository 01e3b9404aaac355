import Cronymax.Agent.Loop

/-! The dispatcher of the host: it routes each call to the handler that is registered under the name of
the tool.  A tool that needs approval is handled by `dispatch_approved` only. -/

namespace Cronymax.Agent

open Atomic Authority

structure RegisteredTool where
  definition : ToolDef
  handler : Handler
  needsApproval : Bool

/-- The tools of an agent with the middleware that gates them. -/
structure HostCapabilityDispatcher where
  tools : Table String RegisteredTool

/-- The handler runs; what it fails with is an outcome too. -/
def RegisteredTool.handle (reg : RegisteredTool) (arguments : String) :
    Prog ToolAct World Empty ToolOutcome := do
  let w ← Prog.perform (.handle reg.handler arguments)
  pure w.outcome

/-- What a review of a call shows. -/
def approvalRequest (call : ToolCall) : Value :=
  .object [("tool", .string call.name), ("arguments", .string call.arguments)]

def notRegistered (call : ToolCall) : ToolOutcome := .error ("no tool registered: " ++ call.name)

namespace HostCapabilityDispatcher

variable (d : HostCapabilityDispatcher)

/-- `definitions`: the tools in the order of their names. -/
def definitions : List ToolDef :=
  (Table.inOrder d.tools.keys).filterMap fun name => (d.tools.lookup name).map (·.definition)

/-- `dispatch`: a tool that needs approval asks for it instead of running. -/
def dispatch (call : ToolCall) : Prog ToolAct World Empty ToolOutcome :=
  match d.tools.lookup call.name with
  | none => pure (notRegistered call)
  | some reg =>
    if reg.needsApproval then pure (.needsApproval (approvalRequest call))
    else reg.handle call.arguments

/-- `dispatch_approved`: the tool runs without being asked for again. -/
def dispatchApproved (call : ToolCall) : Prog ToolAct World Empty ToolOutcome :=
  match d.tools.lookup call.name with
  | none => pure (notRegistered call)
  | some reg => reg.handle call.arguments

def toolDispatcher : ToolDispatcher where
  definitions := d.definitions
  dispatch := d.dispatch
  dispatchApproved := d.dispatchApproved

end HostCapabilityDispatcher

structure DispatcherBuilder where
  tools : Table String RegisteredTool
  allowedTools : List String
  handlers : Nat

/-- A call to the builder. -/
inductive BuilderCall where
  | setAllowedTools (names : List String)
  | register (definition : ToolDef) (needsApproval : Bool)

namespace DispatcherBuilder

def new : DispatcherBuilder := ⟨∅, [], 0⟩

variable (b : DispatcherBuilder)

/-- `set_allowed_tools`: an empty list allows everything. -/
def setAllowedTools (names : List String) : DispatcherBuilder :=
  if names = [] then b else { b with allowedTools := names }

/-- `register`: the last registration of a name stands. -/
def register (definition : ToolDef) (needsApproval : Bool) : DispatcherBuilder where
  tools := b.tools.insert definition.name ⟨definition, ⟨b.handlers⟩, needsApproval⟩
  allowedTools := b.allowedTools
  handlers := b.handlers + 1

/-- `build`: only the tools that are allowed. -/
def build : HostCapabilityDispatcher where
  tools :=
    if b.allowedTools = [] then b.tools
    else Table.filterMap (fun name reg => if name ∈ b.allowedTools then some reg else none) b.tools

def step : BuilderCall → DispatcherBuilder
  | .setAllowedTools names => b.setAllowedTools names
  | .register definition needsApproval => b.register definition needsApproval

/-- The builder after these calls. -/
def after (calls : List BuilderCall) : DispatcherBuilder := calls.foldl step new

end DispatcherBuilder

/-- The tools that the calls register. -/
def registrations (calls : List BuilderCall) : List (ToolDef × Bool) :=
  calls.filterMap fun
    | .register definition needsApproval => some (definition, needsApproval)
    | .setAllowedTools _ => none

end Cronymax.Agent
