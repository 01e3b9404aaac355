import Cronymax.Flow.Footprint
import Cronymax.Flow.PendingPorts

/-! The blackboard of a run.  An approval writes the document of a keyed output as it finds it among
the documents of the run, and no operation puts a document there: the blackboard holds what seeds
and injections have put on it, and nothing else. -/

namespace Cronymax.Flow

open Atomic FlowRuntime

variable {flow : FlowDefinition} {runId node port key : String} {w : FlowRuntime} {s : FlowRunState}

/-- A call of the runtime, or the write of a blackboard entry. -/
inductive Request where
  | call (c : Call)
  | write (key : String) (entry : BlackboardEntry)
deriving DecidableEq

namespace Request

variable (flow : FlowDefinition) (runId : String)

def op : Request → Op (List InvocationContext)
  | .call c => c.op flow runId
  | .write key entry => do
    writeBlackboardEntry runId key entry
    pure []

def step (w : FlowRuntime) (r : Request) : FlowRuntime := ((r.op flow runId).run w).2

def trace (w : FlowRuntime) (r : Request) : List (Act × FlowRuntime) := (r.op flow runId).trace w

/-- The revision that a request submits for the port. -/
def submission (node port : String) : Request → Option UInt32
  | .call (.submitted node' port' _ revision) =>
    if node' = node ∧ port' = port then some revision else none
  | _ => none

end Request

/-- The revision that the last submission of the port has brought. -/
def latestRevision (requests : List Request) (node port : String) : Option UInt32 :=
  (requests.filterMap (·.submission node port)).getLast?

def afterRequests (flow : FlowDefinition) (runId initialInput : String) (w : FlowRuntime)
    (requests : List Request) : FlowRuntime :=
  History.play (Request.step flow runId) ((startRun runId flow initialInput).run w).2 requests

/-- No document of the run has been received yet. -/
def FlowRuntime.NoDocuments (runId : String) (w : FlowRuntime) : Prop :=
  ∀ s ∈ w.getRun runId, s.documents = []

namespace Act

def isRegister : Act → Bool
  | .register _ => true
  | _ => false

def isBoard : Act → Bool
  | .writeBlackboardEntry _ _ _ | .register _ => true
  | _ => false

theorem documents_change {a : Act} (h : a.isRegister = false) (now : String) (s : FlowRunState) :
    (a.change now s).documents = s.documents := by
  cases a with
  | markPortStatus runId node port status =>
    obtain ⟨nodes, hNodes⟩ := s.markPort_eq node port status
    rw [change, hNodes]
  | transition runId status reason =>
    simp only [change, FlowRunState.transition]
    split <;> rfl
  | _ => first | rfl | cases h

theorem blackboard_change {a : Act} (h : a.isBoard = false) (now : String) (s : FlowRunState) :
    (a.change now s).blackboard = s.blackboard := by
  cases a with
  | markPortStatus runId node port status =>
    obtain ⟨nodes, hNodes⟩ := s.markPort_eq node port status
    rw [change, hNodes]
  | transition runId status reason =>
    simp only [change, FlowRunState.transition]
    split <;> rfl
  | _ => first | rfl | cases h

theorem not_register_of_isRegister {a : Act} (h : a.isRegister = false) (state : FlowRunState) :
    a ≠ .register state := by
  rintro rfl
  cases h

theorem isRegister_of_isBoard {a : Act} (h : a.isBoard = false) : a.isRegister = false := by
  cases a <;> first | rfl | cases h

end Act

theorem FlowRuntime.NoDocuments.apply {a : Act} (h : a.isRegister = false) {w : FlowRuntime}
    (hw : w.NoDocuments runId) : (a.apply w).NoDocuments runId := by
  cases hRun : w.getRun runId with
  | none =>
    intro s hs
    rw [Act.getRun_apply_none (Act.not_register_of_isRegister h) hRun] at hs
    cases hs
  | some s =>
    intro s' hs'
    rw [a.getRun_apply hRun] at hs'
    obtain rfl := Option.some.inj hs'
    exact (Act.onRun_view (·.documents) (Act.documents_change h w.now s)).trans (hw s hRun)

/-- While the run has no documents, the program writes no entry. -/
abbrev BoardFixed {α : Type} (runId : String) (p : Op α) : Prop :=
  p.OnlyUnder (NoDocuments runId) (·.isBoard = false)

theorem Act.Quiet.not_board {a : Act} (h : a.Quiet) : a.isBoard = false := by
  cases a <;> first | rfl | cases h

theorem Activates.not_board {nodeId : String} {trigger : InvocationTrigger} {a : Act}
    (h : Activates runId flow nodeId trigger a) : a.isBoard = false := by
  obtain ⟨_, _, ⟨_, _, _, rfl⟩ | ⟨_, rfl⟩⟩ := h <;> rfl

theorem Requeues.not_board {a : Act} (h : Requeues runId node port a) : a.isBoard = false := by
  rcases h with h | rfl | rfl
  · exact h.not_board
  all_goals rfl

theorem publishOutput_boardFixed (runId node port : String) (flow : FlowDefinition) :
    BoardFixed runId (publishOutput runId node port flow) := by
  unfold publishOutput
  split
  · trivial
  · refine .perform rfl fun w hw => ?_
    -- no document is found
    have hNone : ((w.getRun runId).bind fun s =>
        (s.documents.find? fun d => d.producerNode == node && d.docType == port).map fun d =>
          AvailableDoc.mk s!".cronymax/specs/{s.runId}/{d.name}.md" d.docType d.currentRevision) =
        none := by
      cases hRun : w.getRun runId with
      | none => rfl
      | some s => simp [hw s hRun]
    simp only [hNone]
    trivial

theorem approvePort_boardFixed (runId node port : String) (flow : FlowDefinition) :
    BoardFixed runId (approvePort runId node port flow) := by
  refine ((markPortStatus_only runId node port .approved).mono fun a ha => ?_).under.bind fun _ =>
    (publishOutput_boardFixed _ _ _ _).bind fun _ =>
      ((noteReview_quiet _ _ _ _ _ _).mono fun a ha => ha.not_board).under
  rcases ha with ha | rfl
  · exact ha.not_board
  · rfl

theorem activateNodes_boardFixed (runId : String) (flow : FlowDefinition)
    (trigger : InvocationTrigger) (nodes : List String) : BoardFixed runId (activateNodes runId flow trigger nodes) := by
  refine ((activateNodes_only runId flow trigger nodes).mono fun a ha => ?_).under
  rcases ha with ha | ⟨_, _, ha⟩ <;> exact ha.not_board

theorem fireAndJoinFor_boardFixed (node port runId : String) (flow : FlowDefinition) :
    BoardFixed runId (fireAndJoinFor node port runId flow) := by
  refine ((fireAndJoinFor_only node port runId flow).mono fun a ha => ?_).under
  rcases ha with ha | ⟨_, _, ha⟩ <;> exact ha.not_board

theorem reinvokeProducer_boardFixed (runId node port : String) (flow : FlowDefinition) :
    BoardFixed runId (reinvokeProducer runId node port flow) := by
  refine ((reinvokeProducer_only runId node port flow).mono fun a ha => ?_).under
  rcases ha with ha | ha <;> exact ha.not_board

theorem onDocumentApproved_boardFixed (runId node port : String) (flow : FlowDefinition) :
    BoardFixed runId (onDocumentApproved runId node port flow) := by
  refine .perform rfl fun w _ => ?_
  simp only [Prog.pure_eq]
  split
  · trivial
  · exact (approvePort_boardFixed runId node port flow).bind fun _ =>
      (fireAndJoinFor_boardFixed node port runId flow).bind fun _ =>
        (activateNodes_boardFixed runId flow _ _).bind fun _ =>
          (reinvokeProducer_boardFixed runId node port flow).bind fun _ => trivial

theorem receiveDocument_boardFixed (runId node port : String) (flow : FlowDefinition) :
    BoardFixed runId (receiveDocument runId node port flow) := by
  rw [receiveDocument_eq]
  split
  · exact onDocumentApproved_boardFixed runId node port flow
  · refine ((requestReviews_only runId node port _).mono fun a ha => ?_).under
    rcases ha with ha | rfl
    · exact ha.not_board
    · rfl

theorem onDocumentSubmitted_boardFixed (runId node port : String) (flow : FlowDefinition)
    (sha : String) (revision : UInt32) :
    BoardFixed runId (onDocumentSubmitted runId node port flow sha revision) := by
  refine Prog.OnlyUnder.bind ?_ fun action => ?_
  · obtain ⟨_, hCheck⟩ := checkCycleLimit_eq runId flow node port
    rw [hCheck]
    split
    · trivial
    · refine Prog.OnlyUnder.bind ?_ fun _ => trivial
      refine ((incrementPortCycles_only runId node port).mono fun a ha => ?_).under
      rcases ha with ha | rfl
      · exact ha.not_board
      · rfl
  · split
    · trivial
    · exact ((noteReview_quiet _ _ _ _ _ _).mono fun a ha => ha.not_board).under.bind fun _ =>
        receiveDocument_boardFixed runId node port flow

theorem onRejectedRequeue_boardFixed (runId node port : String) (flow : FlowDefinition) :
    BoardFixed runId (onRejectedRequeue runId node port flow) :=
  ((onRejectedRequeue_only runId node port flow).mono fun _ ha => ha.not_board).under

theorem settleVerdict_boardFixed (runId node port : String) (flow : FlowDefinition)
    (verdicts : List (String × ReviewVerdict)) :
    BoardFixed runId (settleVerdict runId node port flow verdicts) := by
  unfold settleVerdict
  split
  · exact (onRejectedRequeue_boardFixed runId node port flow).bind fun _ => trivial
  · split
    · split
      · trivial
      · exact (onDocumentApproved_boardFixed runId node port flow).bind fun _ => trivial
    · trivial

theorem onReviewerVerdict_boardFixed (runId node port reviewer : String) (vote : ReviewVerdict)
    (comments : List ReviewComment) (flow : FlowDefinition) :
    BoardFixed runId (onReviewerVerdict runId node port reviewer vote comments flow) := by
  refine .perform rfl fun w _ => ?_
  split
  · trivial
  · refine ((keepComments_quiet _ _ _ _ _).mono fun _ ha => ha.not_board).under.bind fun _ =>
      Prog.OnlyUnder.bind ?_ fun verdicts =>
        ((persistVerdicts_quiet _).mono fun _ ha => ha.not_board).under.bind fun _ =>
          settleVerdict_boardFixed runId node port flow verdicts
    refine .perform rfl fun w _ => ?_
    split <;> trivial

theorem Call.op_boardFixed {c : Call} {document : PortRef} (hDocument : c.document = some document)
    (flow : FlowDefinition) (runId : String) : BoardFixed runId (c.op flow runId) := by
  cases c with
  | submitted node port sha revision => exact onDocumentSubmitted_boardFixed _ _ _ _ _ _
  | approved node port => exact onDocumentApproved_boardFixed _ _ _ _
  | verdict node port reviewer vote comments =>
    exact (onReviewerVerdict_boardFixed _ _ _ _ _ _ _).bind fun _ => trivial
  | rejected node port => exact (onRejectedRequeue_boardFixed _ _ _ _).bind fun _ => trivial
  | _ => cases hDocument

theorem Call.op_not_register (c : Call) (flow : FlowDefinition) (runId : String) :
    (c.op flow runId).Only (·.isRegister = false) := by
  refine (c.op_only flow runId).mono fun a ha => ?_
  cases a with
  | register state => exact absurd rfl (ha.not_register state)
  | _ => rfl

theorem Request.op_not_register (r : Request) (flow : FlowDefinition) (runId : String) :
    (r.op flow runId).Only (·.isRegister = false) := by
  cases r with
  | call c => exact c.op_not_register flow runId
  | write key entry => exact .bind (.perform rfl fun _ => trivial) fun _ => trivial

theorem startRun_only (runId : String) (flow : FlowDefinition) (initialInput : String) :
    (startRun runId flow initialInput).Only fun a => a.isRegister = false ∨
      ∃ now, a = .register (startState runId flow initialInput now) := by
  have hQuiet {a : Act} (ha : a.Quiet) : a.isRegister = false := by
    cases a <;> first | rfl | cases ha
  refine (utcNowIso_quiet.mono fun a ha => .inl (hQuiet ha)).bind fun now =>
    ((persistRun_quiet _).mono fun a ha => .inl (hQuiet ha)).bind fun _ =>
      .perform (.inr ⟨now, rfl⟩) fun _ => Prog.Only.bind ?_ fun _ => trivial
  refine (fireAndJoinFor_only _ _ _ _).mono fun a ha => .inl ?_
  rcases ha with ha | ⟨_, _, _, _, ⟨_, _, _, rfl⟩ | ⟨_, rfl⟩⟩
  · exact hQuiet ha
  all_goals rfl

/-- A state that a section finds in the course of a run. -/
def Moment (flow : FlowDefinition) (runId initialInput : String) (w w' : FlowRuntime) : Prop :=
  (∃ e ∈ (startRun runId flow initialInput).trace w, e.2 = w') ∨
    ∃ requests r, ∃ e ∈ Request.trace flow runId (afterRequests flow runId initialInput w requests) r,
      e.2 = w'

section Moments

variable {initialInput : String}

theorem startRun_noDocuments {a : Act} (ha : a.isRegister = false ∨
    ∃ now, a = .register (startState runId flow initialInput now)) (w : FlowRuntime)
    (hw : w.NoDocuments runId) : (a.apply w).NoDocuments runId := by
  rcases ha with ha | ⟨now, rfl⟩
  · exact hw.apply ha
  · intro s hs
    obtain rfl : startState runId flow initialInput now = s :=
      Option.some.inj ((AList.lookup_insert w.runs).symm.trans hs)
    rfl

theorem noDocuments_afterRequests (hFresh : w.getRun runId = none) (requests : List Request) :
    (afterRequests flow runId initialInput w requests).NoDocuments runId := by
  refine History.preserves (I := NoDocuments runId) (fun t r ht _ => ?_)
    (History.each_true requests) ?_
  · exact (r.op_not_register flow runId).run_preserves (fun a ha t ht => ht.apply ha) ht
  · exact (startRun_only runId flow initialInput).run_preserves
      (fun a ha t ht => startRun_noDocuments ha t ht) (by simp [NoDocuments, hFresh])

theorem Moment.noDocuments {w' : FlowRuntime} (h : Moment flow runId initialInput w w')
    (hFresh : w.getRun runId = none) : w'.NoDocuments runId := by
  rcases h with ⟨e, he, rfl⟩ | ⟨requests, r, e, he, rfl⟩
  · exact (startRun_only runId flow initialInput).trace_preserves
      (fun a ha t ht => startRun_noDocuments ha t ht) (by simp [NoDocuments, hFresh]) e he
  · exact (r.op_not_register flow runId).trace_preserves (fun a ha t ht => ht.apply ha)
      (noDocuments_afterRequests hFresh requests) e he

end Moments

def FlowRuntime.blackboard (w : FlowRuntime) (runId key : String) : Option BlackboardEntry :=
  (w.getRun runId).bind (·.blackboard.lookup key)

theorem blackboard_call {c : Call} {document : PortRef} (hDocument : c.document = some document)
    (hw : w.NoDocuments runId) (key : String) :
    (c.step flow runId w).blackboard runId key = w.blackboard runId key := by
  refine (c.op_boardFixed hDocument flow runId).run_preserves
    (I := fun t => t.blackboard runId key = w.blackboard runId key)
    (fun a ha t ht hKey => ⟨ht.apply (Act.isRegister_of_isBoard ha), Eq.trans ?_ hKey⟩) hw rfl
  unfold FlowRuntime.blackboard
  cases hRun : t.getRun runId with
  | none =>
    have hNot := Act.not_register_of_isRegister (Act.isRegister_of_isBoard ha)
    exact congrArg (Option.bind · _) (Act.getRun_apply_none hNot hRun)
  | some s =>
    refine (congrArg (Option.bind · _) (a.getRun_apply hRun)).trans ?_
    exact congrArg (AList.lookup key)
      (Act.onRun_view (·.blackboard) (Act.blackboard_change ha t.now s))

/-- The key holds the document of the port at this revision. -/
def Published (runId port key : String) (revision : Option UInt32) (w : FlowRuntime) : Prop :=
  ∃ entry ∈ w.blackboard runId key, entry.doc.path = s!".cronymax/specs/{runId}/{port}.md" ∧
    ∀ r ∈ revision, entry.doc.revision = r

/-- The call approves the document of an output that declares a blackboard key. -/
structure KeyedApproval (flow : FlowDefinition) (runId node port key : String) (w : FlowRuntime)
    (c : Call) : Prop where
  keyed : (flow.output node port).bind (·.blackboardKey) = some key
  document : c.document = some (node, port)
  before : w.portStatus runId node port ≠ .approved
  after : (c.step flow runId w).portStatus runId node port = .approved

/-- The context lists what the blackboard holds for the keys that the node reads, and every approved port
where it reads none. -/
def Informed (flow : FlowDefinition) (runId : String) (n : FlowNode) (w : FlowRuntime)
    (ctx : InvocationContext) : Prop :=
  if n.reads = [] then ∀ node port, (flow.output node port).isSome = true →
    w.portStatus runId node port = .approved →
      ∃ d ∈ ctx.availableDocs, d.path = s!".cronymax/specs/{runId}/{port}.md"
  else ctx.availableDocs.map some = n.reads.map fun key => (w.blackboard runId key).map (·.doc)

theorem map_some_filterMap_eq_iff {α β : Type} (f : α → Option β) (xs : List α) :
    (xs.filterMap f).map some = xs.map f ↔ ∀ x ∈ xs, (f x).isSome = true := by
  induction xs with
  | nil => simp
  | cons x xs ih =>
    cases hx : f x with
    | none =>
      have hShort := List.length_filterMap_le f xs
      simp only [List.filterMap_cons, hx, List.map_cons, List.forall_mem_cons, Option.isSome_none,
        Bool.false_eq_true, false_and, iff_false]
      intro h
      have := congrArg List.length h
      simp only [List.length_map, List.length_cons] at this
      omega
    | some y => simp [hx, ih]

theorem informed_iff {trigger : InvocationTrigger} {n : FlowNode} {ctx : InvocationContext}
    (hw : w.NoDocuments runId) (hNode : flow.node node = some n)
    (hBuilt : ((buildInvocationContext runId node trigger flow).run w).1 = .ok (some ctx)) :
    Informed flow runId n w ctx ↔
      if n.reads = [] then ∀ node port, (flow.output node port).isSome = true →
        w.portStatus runId node port ≠ .approved
      else ∀ key ∈ n.reads, (w.blackboard runId key).isSome = true := by
  obtain ⟨s, _, hRun, _⟩ := buildInvocationContext_some hBuilt
  have hDocs : ctx.availableDocs = availableDocs s n := by
    obtain ⟨comments, hComments⟩ := feedbackFor_ok s.flowId runId trigger
      (Acts.apply (Act.getRun runId) w)
    simp only [buildInvocationContext, Prog.perform_bind, Prog.run, hRun, hNode] at hBuilt
    rw [Prog.run_bind_of_ok hComments] at hBuilt
    simp only [Prog.pure_eq, Prog.run, Except.ok.injEq, Option.some.injEq] at hBuilt
    rw [← hBuilt]
  have hBoard : ∀ key, w.blackboard runId key = s.blackboard.lookup key := fun key => by
    rw [FlowRuntime.blackboard, hRun, Option.bind_some]
  unfold Informed
  rw [hDocs, availableDocs]
  by_cases hReads : n.reads = []
  · rw [if_pos hReads, if_pos hReads, if_pos (by simp [hReads]), hw s hRun]
    simp
  · rw [if_neg hReads, if_neg hReads, if_neg (by simp [hReads])]
    simp only [hBoard]
    rw [map_some_filterMap_eq_iff]
    simp

/-- In every run: when a call approves the document of a keyed output, the blackboard refers to the
document in its latest revision exactly when it did so before the call; and whatever node is
invoked at whatever moment, it is told what it may read exactly when every key that it reads is on
the blackboard, or when it reads no key and no document is approved. -/
theorem published_iff (flow : FlowDefinition) (runId initialInput : String) (w : FlowRuntime)
    (hFresh : w.getRun runId = none) :
    (∀ requests c node port key,
      KeyedApproval flow runId node port key (afterRequests flow runId initialInput w requests) c →
      (Published runId port key (latestRevision (requests ++ [.call c]) node port)
          (c.step flow runId (afterRequests flow runId initialInput w requests)) ↔
        Published runId port key (latestRevision (requests ++ [.call c]) node port)
          (afterRequests flow runId initialInput w requests))) ∧
    ∀ w', Moment flow runId initialInput w w' → ∀ node n trigger ctx, flow.node node = some n →
      ((buildInvocationContext runId node trigger flow).run w').1 = .ok (some ctx) →
      (Informed flow runId n w' ctx ↔
        if n.reads = [] then ∀ node port, (flow.output node port).isSome = true →
          w'.portStatus runId node port ≠ .approved
        else ∀ key ∈ n.reads, (w'.blackboard runId key).isSome = true) := by
  refine ⟨fun requests c node port key hApproval => ?_,
    fun w' hMoment node n trigger ctx hNode hBuilt =>
      informed_iff (hMoment.noDocuments hFresh) hNode hBuilt⟩
  unfold Published
  rw [blackboard_call hApproval.document (noDocuments_afterRequests hFresh requests)]

def prdFlow : FlowDefinition := .ofNodes "prd" []
  [{ id := "pm", owner := "pm",
     outputs := [{ port := "prd", blackboardKey := some "prd", routesTo := some "scribe" }] },
   { id := "dev", owner := "dev", reads := ["prd"] },
   { id := "scribe", owner := "scribe" }]
  "flow.yaml" (by decide)

def prdSubmitted : Call := .submitted "pm" "prd" "" 1

def prdEntry : BlackboardEntry :=
  ⟨⟨".cronymax/specs/run/prd.md", "prd", 1⟩, .agentGenerated (some "pm")⟩

/-- With an entry for the specification on the blackboard, its approval leaves one there. -/
theorem prd_published :
    Published "run" "prd" "prd" (some 1) (prdSubmitted.step prdFlow "run"
      (afterRequests prdFlow "run" "brief" emptyRuntime [.write "prd" prdEntry])) :=
  ((published_iff prdFlow "run" "brief" emptyRuntime rfl).1 [.write "prd" prdEntry] prdSubmitted
    "pm" "prd" "prd" ⟨by decide, by decide, by decide, by decide⟩).mpr
      ⟨prdEntry, by decide, by decide, by rintro _ ⟨⟩; rfl⟩

def prdStarted : FlowRuntime := afterRequests prdFlow "run" "brief" emptyRuntime []

/-- The specification is submitted and approved at once.  Nothing is on the blackboard, `dev` is
invoked without the key that it reads, and `scribe` without the approved document. -/
theorem prd_not_published :
    KeyedApproval prdFlow "run" "pm" "prd" "prd" prdStarted prdSubmitted ∧
      ¬Published "run" "prd" "prd" (some 1) (prdSubmitted.step prdFlow "run" prdStarted) ∧
      (prdSubmitted.contexts prdFlow "run" prdStarted).map (fun ctx =>
          (ctx.nodeId, ctx.trigger.kind, ctx.availableDocs)) =
        [("dev", .andJoin, []), ("scribe", .andJoin, [])] := by
  refine ⟨⟨by decide, by decide, by decide, by decide⟩, ?_, by decide⟩
  rintro ⟨entry, hEntry, _⟩
  have hNone : (prdSubmitted.step prdFlow "run" prdStarted).blackboard "run" "prd" = none := by
    decide
  rw [hNone] at hEntry
  cases hEntry

end Cronymax.Flow
