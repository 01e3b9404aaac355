import Cronymax.Authority.Reviews
import Mathlib.Data.List.TakeWhile
import Cronymax.Flow.Calls

/-! The request `ResolveReview`.  Its handler reads both ids as UUIDs, hands the decision to the flow
runtime when a flow context is registered for the run, and resolves the review in the authority.  The
parser of UUIDs is a parameter: it returns the canonical text of the UUID that it reads. -/

namespace Cronymax.Handler

open Authority Cronymax.Flow

inductive ReviewDecision where
  | approve
  | reject
  | defer
deriving DecidableEq

def ReviewDecision.permission : ReviewDecision → PermissionState
  | .approve => .approved
  | .reject => .rejected
  | .defer => .deferred

/-- The request as it comes, with its ids as texts. -/
structure ResolveReview where
  runId : String
  reviewId : String
  decision : ReviewDecision
  notes : Option String
deriving DecidableEq

inductive ControlError where
  | unknownRun (runId : String)
  | unknownSpace (spaceId : String)
  | invalidRequest (message : String)
  | invalidState (message : String)
  | internal (message : String)
deriving DecidableEq

inductive ControlResponse where
  | ack
  | err (error : ControlError)
deriving DecidableEq

def statusText : RunStatus → String
  | .pending => "Pending"
  | .running => "Running"
  | .paused => "Paused"
  | .awaitingReview => "AwaitingReview"
  | .succeeded => "Succeeded"
  | .failed message => "Failed \x7b message: " ++ message.quote ++ " \x7d"
  | .cancelled => "Cancelled"

def persistenceText : PersistenceError → String
  | .io text => "io error: " ++ text
  | .serde text => "serialization error: " ++ text
  | .migration onDisk understood =>
    "snapshot migration: on-disk snapshot is schema v" ++ toString onDisk ++
      ", but this binary only understands up to v" ++ toString understood

/-- `authority_err_to_control`, for a request that names its run. -/
def authorityErrToControl (runId : String) : AuthorityError → ControlError
  | .unknownSpace id => .unknownSpace id.uuid
  | .unknownRun _ => .unknownRun runId
  | .unknownReview _ => .invalidRequest "unknown review"
  | .invalidTransition _ state action =>
    .invalidState ("cannot " ++ action ++ " from " ++ statusText state)
  | .reviewAlreadyResolved => .invalidState "review already resolved"
  | .unknownSession id => .invalidRequest ("unknown session: " ++ id.text)
  | .persistence e => .internal ("persistence: " ++ persistenceText e)

structure RunContext where
  workspaceRoot : String
  flowId : Option String
  flowRunId : Option String
deriving DecidableEq

/-- The handler with its authority, the contexts of the flows and their runtimes. -/
structure RuntimeHandler where
  authority : RuntimeAuthority
  flowContexts : List RunContext
  loadFlowDef : String → String → Option FlowDefinition
  runtimes : String → FlowRuntime

/-- What a call to the flow runtime is about. -/
structure Target where
  workspaceRoot : String
  flowRunId : String
  flow : FlowDefinition

/-- The call that the spawned task makes on a flow's runtime. -/
structure FlowCall where
  target : Target
  call : Flow.Call

section Parsing

variable (parseUuid : String → Option String)

/-- `parse_run`. -/
def parseRun (s : String) : Except ControlError RunId :=
  match parseUuid s with
  | some uuid => .ok ⟨uuid⟩
  | none => .error (.invalidRequest ("invalid run id: " ++ s))

/-- `parse_review`. -/
def parseReview (s : String) : Except ControlError ReviewId :=
  match parseUuid s with
  | some uuid => .ok ⟨uuid⟩
  | none => .error (.invalidRequest ("invalid review id: " ++ s))

/-- The run of a request: a review that names none is looked up. -/
def requestedRun (authority : RuntimeAuthority) (req : ResolveReview) : Except ControlError RunId :=
  if req.runId = "" then
    match parseReview parseUuid req.reviewId with
    | .error e => .error e
    | .ok review =>
      match authority.review? review with
      | some pending => .ok pending.runId
      | none => .error (.invalidRequest ("unknown review: " ++ req.reviewId))
  else parseRun parseUuid req.runId

end Parsing

/-- An id of the form `agent:port`. -/
def splitReviewId (s : String) : Option (String × String) :=
  match s.toList.dropWhile (· ≠ ':') with
  | [] => none
  | _ :: port => some (String.ofList (s.toList.takeWhile (· ≠ ':')), String.ofList port)

/-- The call for a decision. -/
def decisionCall (decision : ReviewDecision) (producingAgent port : String) : Flow.Call :=
  if decision = .approve then .approved producingAgent port else .rejected producingAgent port

namespace RuntimeHandler

variable (h : RuntimeHandler)

def flowContext (runId : String) (run : RunId) : Option RunContext :=
  h.flowContexts.find? fun c => c.flowRunId = some runId || c.flowRunId = some run.uuid

def target (ctx : RunContext) : Option Target :=
  (h.loadFlowDef (ctx.flowId.getD "") ctx.workspaceRoot).map fun flow =>
    ⟨ctx.workspaceRoot, ctx.flowRunId.getD "", flow⟩

/-- The task of a request that names a flow run. -/
def flowTask (req : ResolveReview) (ctx : RunContext) : Option FlowCall :=
  (h.target ctx).bind fun target =>
    (splitReviewId req.reviewId).map fun parts =>
      ⟨target, decisionCall req.decision parts.1 parts.2⟩

/-- `handle_resolve_review`, with the tasks that it spawns. -/
def handleResolveReview (parseUuid : String → Option String) (req : ResolveReview) :
    ControlResponse × List FlowCall × RuntimeAuthority :=
  match requestedRun parseUuid h.authority req with
  | .error e => (.err e, [], h.authority)
  | .ok run =>
    match parseReview parseUuid req.reviewId with
    | .error e => (.err e, [], h.authority)
    | .ok review =>
      let decision :=
        h.authority.resolveReview run review req.decision.permission req.notes
      let response := match h.authority.answer decision with
        | .ok _ => .ack
        | .error e => .err (authorityErrToControl req.runId e)
      (response, ((h.flowContext req.runId run).bind (h.flowTask req)).toList,
        h.authority.settle decision)

end RuntimeHandler

/-- What a task makes of the runtime of a workspace. -/
def FlowCall.leaves (c : FlowCall) (root : String) (w : FlowRuntime) : FlowRuntime :=
  if root = c.target.workspaceRoot then c.call.step c.target.flow c.target.flowRunId w else w

def runtimeAfter (calls : List FlowCall) (root : String) (w : FlowRuntime) : FlowRuntime :=
  calls.foldl (fun w c => c.leaves root w) w

theorem splitReviewId_eq_some {s node port : String} :
    splitReviewId s = some (node, port) ↔ s = node ++ ":" ++ port ∧ ':' ∉ node.toList := by
  have hSplit := List.takeWhile_append_dropWhile (p := (· ≠ ':')) (l := s.toList)
  constructor
  · intro h
    unfold splitReviewId at h
    split at h
    · cases h
    · rename_i c rest hDrop
      obtain ⟨rfl, rfl⟩ : _ ∧ _ := by simpa using h
      have hColon : c = ':' := by
        have := List.head?_dropWhile_not (· ≠ ':') s.toList
        rw [hDrop] at this
        simpa using this
      subst hColon
      refine ⟨String.toList_injective ?_, fun hMem => ?_⟩
      · rw [hDrop] at hSplit
        simpa using hSplit.symm
      · have := List.mem_takeWhile_imp (by simpa using hMem)
        simp at this
  · rintro ⟨rfl, hNode⟩
    have hAll : ∀ c ∈ node.toList, decide (c ≠ ':') = true := by
      intro c hc
      simp only [ne_eq, decide_not, Bool.not_eq_eq_eq_not, Bool.not_true, decide_eq_false_iff_not]
      rintro rfl
      exact hNode hc
    have hTake : (node ++ ":" ++ port).toList.takeWhile (· ≠ ':') = node.toList := by
      rw [String.toList_append, String.toList_append, List.append_assoc,
        List.takeWhile_append_of_pos hAll]
      simp
    have hDrop : (node ++ ":" ++ port).toList.dropWhile (· ≠ ':') = ':' :: port.toList := by
      rw [String.toList_append, String.toList_append, List.append_assoc,
        List.dropWhile_append_of_pos hAll]
      simp
    unfold splitReviewId
    rw [hDrop, hTake]
    simp

end Cronymax.Handler
