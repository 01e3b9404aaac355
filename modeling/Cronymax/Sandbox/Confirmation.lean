import Cronymax.Agent.Approval
import Cronymax.Capability.Access

/-! What the sandbox asks of a human, and what it gets.  The broker says which commands have to be
confirmed, but nobody asks: over the tools of the factory the loop never opens a review.  The files are
gated path by path, except for the paths that a tool comes to by itself. -/

namespace Cronymax.Sandbox

open Atomic Capability
open Agent
open Authority (RunId ToolCall)

/-- Demands that no call is approved where no handler asks. -/
def unasked : Watch Unit Act World where
  assumes _ x w := ∀ handler args, x = .tool (.handle handler args) →
    ∀ request, w.outcome ≠ .needsApproval request
  demands _ x _ := ∀ runId call, x ≠ .dispatchApproved runId call
  next _ _ _ := ()

section

variable {runId : RunId} {config : LoopConfig} {l : ReactLoop} {d : HostCapabilityDispatcher}
  (hFree : ∀ name reg, d.tools.lookup name = some reg → reg.needsApproval = false)

include hFree

theorem dispatch_unasked (call : ToolCall) :
    (useTool (d.dispatch call)).Meets unasked
      (Prog.Returns fun outcome _ => ∀ request, outcome ≠ .needsApproval request) () := by
  rw [HostCapabilityDispatcher.dispatch]
  cases hLookup : d.tools.lookup call.name with
  | none => exact fun _ h => (by cases h)
  | some reg =>
    simp only [hFree call.name reg hLookup, Bool.false_eq_true, if_false]
    exact fun w hQuiet => ⟨fun _ _ h => (by cases h), hQuiet _ _ rfl⟩

variable (hLoop : IsLoop runId config l) (hTools : config.tools = d.toolDispatcher)

omit hFree in
theorem beforeToolCall_unasked (ctx : TurnContext) (call : ToolCall) (chain : List Middleware) :
    (ReactLoop.beforeToolCall ctx call chain).Meets unasked (Prog.Returns fun _ _ => True) () := by
  induction chain with
  | nil => trivial
  | cons mw chain ih =>
    refine Prog.Meets.perform fun w _ => ⟨fun _ _ h => (by cases h), ?_⟩
    split
    · trivial
    · exact ih

include hLoop hTools

theorem runOneTool_unasked (ctx : TurnContext) (call : ToolCall) :
    (l.runOneTool ctx call).Meets unasked (Prog.Returns fun r _ => IsLoop runId config r.1 ∧ True)
      () := by
  refine (beforeToolCall_unasked ctx call _).andThen fun gate _ _ => ?_
  cases gate with
  | block reason => exact ⟨⟨hLoop.runId, hLoop.config⟩, trivial⟩
  | allow =>
    refine Prog.Meets.andThen (P := fun _ _ => True) ?_ fun r _ _ => ?_
    · refine Prog.Meets.perform fun w _ => ⟨fun _ _ h => (by cases h), ?_⟩
      rw [hLoop.config, hTools]
      refine (dispatch_unasked hFree call).andThen fun outcome _ hOutcome => ?_
      cases outcome with
      | needsApproval request => exact absurd rfl (hOutcome request)
      | output v | error message | terminal v | spawnsAgent taskId => trivial
    · cases r with
      | error e => exact ⟨hLoop, trivial⟩
      | ok outcome =>
        exact ReactLoop.record_rule (isLoop_kept _ _)
          (fun _ _ _ _ => ⟨fun _ _ h => (by cases h), trivial⟩) hLoop call outcome trivial

theorem run_unasked : l.run.Meets unasked (fun _ _ => True) () :=
  ReactLoop.run_rule (isLoop_kept _ _)
    (fun _ ctx call _ hLoop _ => runOneTool_unasked hFree hLoop hTools ctx call)
    (fun _ _ _ _ _ => ⟨fun _ _ h => (by cases h), trivial⟩) (fun _ _ _ _ _ h => (by cases h))
    (fun _ _ _ _ _ => trivial) hLoop

end

theorem registrations_calls (rs : List Registration) :
    registrations (rs.map Registration.call) = rs.map fun r => (r.1.definition, r.2) := by
  induction rs with
  | nil => rfl
  | cons r rs ih => exact congrArg ((r.1.definition, r.2) :: ·) ih

theorem factory_free (tier : SandboxTier) {name : String} {reg : RegisteredTool}
    (h : (factoryBuilder tier).build.tools.lookup name = some reg) : reg.needsApproval = false := by
  obtain ⟨⟨-, hRegistered⟩, -⟩ := build_tools h
  rw [registrations_calls] at hRegistered
  obtain ⟨r, hr, hSame⟩ := List.mem_map.mp (List.mem_of_getElem? hRegistered)
  have hFree : ∀ r ∈ factoryBuild tier, r.2 = false := by
    cases tier <;> simp [factoryBuild, registerShell, registerFilesystem, registerNotify]
  exact (Prod.mk.inj hSame).2 ▸ hFree r hr

/-- However the program ends, it does not ask for approval. -/
def Unasking (p : HostProg ToolOutcome) : Prop :=
  ∀ tr r, Prog.Yields p tr r → ∀ request, r ≠ .ok (.needsApproval request)

theorem unasking_output (v : Authority.Value) : Unasking (pure (.output v)) := by
  intro tr r h request
  simp [(Prog.yields_done.mp h).2]

theorem unasking_error (message : String) : Unasking (pure (.error message)) := by
  intro tr r h request
  simp [(Prog.yields_done.mp h).2]

theorem Unasking.bind {α : Type} {p : HostProg α} {f : α → HostProg ToolOutcome}
    (h : ∀ a, Unasking (f a)) : Unasking (p >>= f) := by
  intro tr r hRun request
  obtain ⟨a, _, rest, -, -, hRest⟩ | ⟨e, rfl, -⟩ := Prog.yields_bind.mp hRun
  · exact h a rest r hRest request
  · exact fun h => (by cases h)

theorem reading_unasking {α : Type} {read : Reader α} {complaint args : String}
    {go : α → HostProg ToolOutcome} (h : ∀ req, Unasking (go req)) :
    Unasking (Tool.reading read complaint args go) := by
  rw [Tool.reading]
  split
  · exact h _
  · exact unasking_error _

theorem withinScope_unasking {α : Type} {scope : WorkspaceScope} {rel name : String}
    {render : α → Authority.Value} {p : PathBuf → HostProg α} :
    Unasking (withinScope scope rel fun path => outcomeOf name render (p path)) := by
  rw [withinScope]
  split
  · exact unasking_error _
  · refine Unasking.bind fun r => ?_
    cases r with
    | ok a => exact unasking_output _
    | error e => exact unasking_error _

theorem handle_unasking (readers : Readers) (tier : SandboxTier) (workspaceRoot : PathBuf)
    (args : String) (tool : Tool) : Unasking (tool.handle readers tier workspaceRoot args) := by
  cases tool with
  | readFile | writeFile | strReplace | listDir => exact reading_unasking fun _ => withinScope_unasking
  | notify | requestApproval => exact reading_unasking fun _ => unasking_output _
  | runShell =>
    refine reading_unasking fun req => Unasking.bind fun r => ?_
    cases r with
    | ok result => exact unasking_output _
    | error e => exact unasking_error _
  | runTerminal =>
    refine reading_unasking fun req => Unasking.bind fun started => ?_
    cases started with
    | error e => exact unasking_error _
    | ok _ =>
      refine Unasking.bind fun written => ?_
      cases written with
      | error e => exact unasking_error _
      | ok _ =>
        refine Unasking.bind fun h => Unasking.bind fun _ => ?_
        cases h.shown with
        | none => exact unasking_error _
        | some bytes => exact unasking_output _

section

variable (readers : Readers) (policy : SandboxPolicy) (workspaceRoot : PathBuf)

/-- An execution of the handler that a loop calls, with the outcome that the loop is told. -/
structure Serves (handler : Handler) (args : String) (outcome : ToolOutcome) (tool : Tool)
    (served : HostTrace) : Prop where
  registered : ((factoryBuild (.sandboxed policy))[handler.number]?).map (·.1) = some tool
  executed : Prog.Yields (tool.handle readers (.sandboxed policy) workspaceRoot args) served (.ok outcome)

/-- A run of the loop over the dispatcher that the factory builds for the sandbox.  The handlers that
it calls do what the tools do. -/
structure SandboxedRun (runId : RunId) (config : LoopConfig) (tr : List (Act × World)) : Prop where
  tools : config.tools = (factoryBuilder (.sandboxed policy)).build.toolDispatcher
  run : ∃ r, Prog.Yields (ReactLoop.new runId config).run tr r
  served : ∀ handler args w, (.tool (.handle handler args), w) ∈ tr →
    ∃ tool served, Serves readers policy workspaceRoot handler args w.outcome tool served

/-- The policy asks for a confirmation of the command. -/
def needsConfirmation (req : ShellRequest) : Bool :=
  (checkExec .agent req.command policy).requiresConfirmation

/-- The last steps are the approval of a shell call with these arguments. -/
def JustApproved (runId : RunId) (args : String) (past : List (Act × World)) : Prop :=
  ∃ earlier steps call request, past = earlier ++ steps ∧ Approved runId call request steps ∧
    call.name = "run_shell" ∧ call.arguments = args

/-- A command that needs confirmation comes to the shell after an approval of its call, and no file tool
touches what the broker denies. -/
structure Guarded (runId : RunId) (tr : List (Act × World)) : Prop where
  commands : ∀ pre handler args w post tool served,
    tr = pre ++ (.tool (.handle handler args), w) :: post →
    Serves readers policy workspaceRoot handler args w.outcome tool served →
    ∀ req h, (.run req, h) ∈ served → needsConfirmation policy req = true → JustApproved runId args pre
  files : ∀ handler args w tool served, (.tool (.handle handler args), w) ∈ tr →
    Serves readers policy workspaceRoot handler args w.outcome tool served →
    AllAllowed (fun path => (checkRead .agent path policy).allowed = true)
      (fun path => (checkWrite .agent path policy).allowed = true) served

/-- No command that is called for needs confirmation, and the executions of the file tools are clear. -/
structure Harmless (tr : List (Act × World)) : Prop where
  commands : ∀ handler args w served, (.tool (.handle handler args), w) ∈ tr →
    Serves readers policy workspaceRoot handler args w.outcome .runShell served →
    ∀ req, readers.shell args = .ok req → needsConfirmation policy req = false
  files : ∀ handler args w tool served, (.tool (.handle handler args), w) ∈ tr →
    Serves readers policy workspaceRoot handler args w.outcome tool served →
    Clear (fun path => policy.canRead path = true) (fun path => policy.canWrite path = true) readers
      (.sandboxed policy) workspaceRoot args served tool

end

section

variable {readers : Readers} {policy : SandboxPolicy} {workspaceRoot : PathBuf} {runId : RunId}
  {config : LoopConfig} {tr : List (Act × World)}

theorem runShell_runs {args : String} {served : HostTrace} {r : Except String ToolOutcome}
    {req : ShellRequest}
    (h : Prog.Yields (Tool.runShell.handle readers (.sandboxed policy) workspaceRoot args) served r)
    (hParsed : readers.shell args = .ok req) : ∃ host, (.run req, host) ∈ served := by
  obtain ⟨req', hParsed', hGo⟩ | ⟨hNone, -⟩ := reading_yields h
  · cases hParsed.symm.trans hParsed'
    rw [runShellTool, SandboxTier.shell, policyShell_run] at hGo
    obtain ⟨host, rest, rfl, -⟩ := Prog.yields_act.mp hGo
    exact ⟨host, List.mem_cons_self⟩
  · exact absurd hParsed (hNone req)

theorem no_approval (hRun : SandboxedRun readers policy workspaceRoot runId config tr) :
    ∀ e ∈ tr, ∀ runId call, e.1 ≠ .dispatchApproved runId call := by
  obtain ⟨r, hYields⟩ := hRun.run
  have hMeets : (ReactLoop.new runId config).run.Meets unasked (fun _ _ => True) () :=
    run_unasked (fun _ _ h => factory_free _ h) ⟨rfl, rfl⟩ hRun.tools
  have hQuiet : unasked.Along unasked.assumes () tr := by
    refine Watch.along_of_forall fun _ e he handler args hHandle request hAsks => ?_
    obtain ⟨tool, served, hServes⟩ := hRun.served handler args e.2 (hHandle ▸ he)
    exact handle_unasking _ _ _ _ _ _ _ hServes.executed request (congrArg _ hAsks)
  exact (hMeets.sound hYields hQuiet).1.forall fun _ _ _ h => h

theorem approved_dispatches {call : ToolCall} {request : Authority.Value} {steps : List (Act × World)}
    (h : Approved runId call request steps) : ∃ w, (.dispatchApproved runId call, w) ∈ steps := by
  obtain ⟨-, -, -⟩ := h
  exact ⟨_, List.mem_of_getElem? (i := 4) rfl⟩

theorem not_justApproved (hRun : SandboxedRun readers policy workspaceRoot runId config tr)
    {pre post : List (Act × World)} (hSplit : tr = pre ++ post) (args : String) :
    ¬JustApproved runId args pre := by
  rintro ⟨earlier, steps, call, request, rfl, hApproved, -⟩
  obtain ⟨w, hDispatched⟩ := approved_dispatches hApproved
  have hMem : (.dispatchApproved runId call, w) ∈ tr := by
    rw [hSplit]
    exact List.mem_append_left _ (List.mem_append_right _ hDispatched)
  exact no_approval hRun _ hMem runId call rfl

/-- The sandbox guards a run exactly if there is nothing to confirm in it, and its file tools come to no
path by themselves that they may not read or write. -/
theorem high_risk_guarded_iff (hRun : SandboxedRun readers policy workspaceRoot runId config tr) :
    Guarded readers policy workspaceRoot runId tr ↔ Harmless readers policy workspaceRoot tr := by
  have hFiles {args : String} {r : Except String ToolOutcome} {tool : Tool} {served : HostTrace}
      (h : Prog.Yields (tool.handle readers (.sandboxed policy) workspaceRoot args) served r) :
      AllAllowed (fun path => (checkRead .agent path policy).allowed = true)
        (fun path => (checkWrite .agent path policy).allowed = true) served ↔
      Clear (fun path => policy.canRead path = true) (fun path => policy.canWrite path = true) readers
        (.sandboxed policy) workspaceRoot args served tool := by
    simp only [checkRead_allowed, checkWrite_allowed]
    exact handle_allowed (fun _ _ _ hMay => hMay) h
  constructor
  · intro hGuarded
    refine ⟨fun handler args w served hMem hServes req hParsed => ?_,
      fun handler args w tool served hMem hServes =>
        (hFiles hServes.executed).mp (hGuarded.files _ _ _ _ _ hMem hServes)⟩
    by_contra hNeeds
    obtain ⟨pre, post, hSplit⟩ := List.append_of_mem hMem
    obtain ⟨host, hHost⟩ := runShell_runs hServes.executed hParsed
    exact not_justApproved hRun hSplit args
      (hGuarded.commands pre handler args w post _ _ hSplit hServes req host hHost (by simpa using hNeeds))
  · intro hHarmless
    refine ⟨fun pre handler args w post tool served hSplit hServes req h hHost hNeeds => ?_,
      fun handler args w tool served hMem hServes =>
        (hFiles hServes.executed).mpr (hHarmless.files _ _ _ _ _ hMem hServes)⟩
    obtain ⟨rfl, hParsed⟩ := handle_runs hServes.executed hHost
    have hMem : (.tool (.handle handler args), w) ∈ tr := by rw [hSplit]; simp
    rw [hHarmless.commands handler args w served hMem hServes req hParsed] at hNeeds
    cases hNeeds

end

section Examples

def workspace : PathBuf := pathOf "/ws"

def defaultPolicy : SandboxPolicy := .defaultForWorkspace workspace

def commandArgs (command : String) : String := "\x7b\"command\":\"" ++ command ++ "\"\x7d"

def readsCommand (command : String) : Readers where
  shell args := if args = commandArgs command then .ok ⟨command, none, none, []⟩ else unread args
  readFile := unread
  writeFile := unread
  strReplace := unread
  listDir := unread
  notify := unread
  approval := unread
  terminal := unread

theorem command_read (command : String) :
    (readsCommand command).shell (commandArgs command) = .ok ⟨command, none, none, []⟩ := if_pos rfl

def obedientHost : Capability.Host := { silentHost with child := .ok (some ⟨.code 0, [], []⟩) }

def succeeded : ToolOutcome :=
  .output (.object [("exit_code", .number (toString (0 : Int))), ("stdout", .string ""),
    ("stderr", .string ""), ("elapsed_ms", .number (toString (0 : Nat)))])

def callsShell (command : String) : World :=
  { streaming [.toolCallDelta 0 (some "call") (some "run_shell") (some (commandArgs command)),
      .done .toolCalls] with outcomes := [succeeded] }

def sandboxConfig : LoopConfig :=
  { chatConfig with
    tools := (factoryBuilder (.sandboxed defaultPolicy)).build.toolDispatcher
    maxTurns := 1 }

def shellTrace (command : String) : List (Act × World) :=
  (ReactLoop.new chatRun sandboxConfig).run.trace (callsShell command)

def handlerCalls (tr : List (Act × World)) : List (Handler × String × ToolOutcome) :=
  tr.filterMap fun e =>
    match e.1 with
    | .tool (.handle handler args) => some (handler, args, e.2.outcome)
    | _ => none

theorem mem_handlerCalls {tr : List (Act × World)} {handler : Handler} {args : String} {w : World}
    (h : (.tool (.handle handler args), w) ∈ tr) : (handler, args, w.outcome) ∈ handlerCalls tr :=
  List.mem_filterMap.mpr ⟨_, h, rfl⟩

theorem handlerCalls_mem {tr : List (Act × World)} {handler : Handler} {args : String}
    {outcome : ToolOutcome} (h : (handler, args, outcome) ∈ handlerCalls tr) :
    ∃ w, (.tool (.handle handler args), w) ∈ tr ∧ w.outcome = outcome := by
  obtain ⟨⟨x, w⟩, hMem, hCall⟩ := List.mem_filterMap.mp h
  split at hCall
  · rename_i hAct
    cases hAct
    cases hCall
    exact ⟨w, hMem, rfl⟩
  · cases hCall

theorem shell_served (command : String) : ∃ served,
    Serves (readsCommand command) defaultPolicy workspace ⟨0⟩ (commandArgs command) succeeded .runShell
      served ∧ ∃ host, (.run ⟨command, none, none, []⟩, host) ∈ served := by
  have hParsed := command_read command
  have hYields := Prog.trace_yields (Tool.runShell.handle (readsCommand command)
    (.sandboxed defaultPolicy) workspace (commandArgs command)) obedientHost
  have hRun : ((Tool.runShell.handle (readsCommand command) (.sandboxed defaultPolicy) workspace
      (commandArgs command)).run obedientHost).1 = .ok succeeded := by
    rw [Tool.handle, Tool.reading, hParsed]
    dsimp only
    rw [runShellTool, SandboxTier.shell, policyShell_run]
    rfl
  rw [hRun] at hYields
  exact ⟨_, ⟨rfl, hYields⟩, runShell_runs hYields hParsed⟩

theorem shell_run {command : String}
    (h : handlerCalls (shellTrace command) = [(⟨0⟩, commandArgs command, succeeded)]) :
    SandboxedRun (readsCommand command) defaultPolicy workspace chatRun sandboxConfig
      (shellTrace command) where
  tools := rfl
  run := ⟨_, Prog.trace_yields _ _⟩
  served handler args w hMem := by
    have hCall := mem_handlerCalls hMem
    rw [h] at hCall
    obtain ⟨rfl, hRest⟩ := Prod.mk.inj (List.mem_singleton.mp hCall)
    obtain ⟨rfl, hOutcome⟩ := Prod.mk.inj hRest
    rw [hOutcome]
    obtain ⟨served, hServes, -⟩ := shell_served command
    exact ⟨.runShell, served, hServes⟩

/-- `sudo` is run, and nobody has been asked. -/
theorem sudo_unconfirmed : ∃ tr,
    SandboxedRun (readsCommand "sudo ls") defaultPolicy workspace chatRun sandboxConfig tr ∧
      ¬Guarded (readsCommand "sudo ls") defaultPolicy workspace chatRun tr := by
  have hCalls : handlerCalls (shellTrace "sudo ls") = [(⟨0⟩, commandArgs "sudo ls", succeeded)] := rfl
  have hRun := shell_run hCalls
  refine ⟨_, hRun, fun hGuarded => ?_⟩
  obtain ⟨w, hMem, hOutcome⟩ := handlerCalls_mem (hCalls ▸ List.mem_singleton_self _)
  obtain ⟨pre, post, hSplit⟩ := List.append_of_mem hMem
  obtain ⟨served, hServes, host, hHost⟩ := shell_served "sudo ls"
  exact not_justApproved hRun hSplit _
    (hGuarded.commands pre _ _ w post _ served hSplit (hOutcome ▸ hServes) _ host hHost (by decide))

/-- A command that needs no confirmation. -/
theorem listing_guarded : Guarded (readsCommand "ls") defaultPolicy workspace chatRun (shellTrace "ls") := by
  have hCalls : handlerCalls (shellTrace "ls") = [(⟨0⟩, commandArgs "ls", succeeded)] := rfl
  have hSafe : needsConfirmation defaultPolicy ⟨"ls", none, none, []⟩ = false := by decide
  have hOnly {handler : Handler} {args : String} {w : World}
      (hMem : (.tool (.handle handler args), w) ∈ shellTrace "ls") :
      handler = ⟨0⟩ ∧ args = commandArgs "ls" := by
    have hCall := mem_handlerCalls hMem
    rw [hCalls] at hCall
    obtain ⟨hHandler, hRest⟩ := Prod.mk.inj (List.mem_singleton.mp hCall)
    exact ⟨hHandler, (Prod.mk.inj hRest).1⟩
  refine (high_risk_guarded_iff (shell_run hCalls)).mpr ⟨?_, ?_⟩
  · intro handler args w served hMem hServes req hParsed
    obtain ⟨rfl, rfl⟩ := hOnly hMem
    cases (command_read "ls").symm.trans hParsed
    exact hSafe
  · intro handler args w tool served hMem hServes
    obtain ⟨rfl, rfl⟩ := hOnly hMem
    cases hServes.registered
    trivial

end Examples

end Cronymax.Sandbox
