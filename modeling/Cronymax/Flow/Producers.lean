import Cronymax.Flow.Blackboard
import Cronymax.Flow.Deadlock

/-! The producers of a blackboard key.  `FlowGraph.build` takes the last output that declares the
key, `find_output_by_blackboard_key` the first one, and an approval writes the key that the first
output of the approved name declares.  A node with a `reads` list is released on the first of these
and reads what the last one writes. -/

namespace Cronymax.Flow

open Atomic FlowRuntime

/-- The ports that declare the key, in the order of the flow. -/
def declarations (nodes : List FlowNode) (key : String) : List PortRef :=
  nodes.flatMap fun node => node.outputs.filterMap fun output =>
    if output.blackboardKey == some key then some (node.id, output.port) else none

/-- An approval of the port may write the blackboard entry of the key. -/
def Publishes (flow : FlowDefinition) (port : PortRef) (key : String) : Prop :=
  ∃ runId w entry t,
    (.writeBlackboardEntry runId key entry, t) ∈ (onDocumentApproved runId port.1 port.2 flow).trace w

/-- All parts of the code take this port, and no other, for the producer of the key. -/
def Agrees (flow : FlowDefinition) (key : String) (port : PortRef) : Prop :=
  (∀ q, Publishes flow q key ↔ q = port) ∧ flow.findOutputByBlackboardKey key = some port

/-- Each required input of the node agrees with the key that it stands for, and the gate of the node
waits for the ports whose approval writes one of its keys. -/
structure ProducersAgree (flow : FlowDefinition) (node : FlowNode) : Prop where
  inputs : List.Forall₂ (Agrees flow) node.reads (flow.graph.requiredInputsFor node.id)
  gate : ∀ s, gateOpen node.id s flow.graph = true ↔
    ∀ key ∈ node.reads, ∀ q, Publishes flow q key → s.portStatus q.1 q.2 = .approved

/-- The first and the last declaration of the key are of one port, and no other output is found to
publish it. -/
def SoleProducer (flow : FlowDefinition) (key : String) : Prop :=
  ∃ port, (declarations flow.nodes key).head? = some port ∧
    (declarations flow.nodes key).getLast? = some port ∧
    ∀ q, (flow.output q.1 q.2).bind (·.blackboardKey) = some key ↔ q = port

variable {flow : FlowDefinition} {runId node port key : String} {nodes : List FlowNode}

theorem findOutput_eq : flow.findOutputByBlackboardKey key = (declarations flow.nodes key).head? := by
  simp only [declarations, List.head?_flatMap, List.head?_filterMap]
  rfl

/-- One turn of the loop that builds the map of producers. -/
def recordKey (node : FlowNode) (keys : AList fun _ : String => PortRef) (output : FlowNodeOutput) :
    AList fun _ : String => PortRef :=
  match output.blackboardKey with
  | some key => keys.insert key (node.id, output.port)
  | none => keys

theorem keyToProducer_eq : FlowGraph.keyToProducer nodes =
    nodes.foldl (fun keys node => node.outputs.foldl (recordKey node) keys) ∅ := rfl

theorem lookup_recordKeys (node : FlowNode) (outputs : List FlowNodeOutput)
    (m : AList fun _ : String => PortRef) : (outputs.foldl (recordKey node) m).lookup key =
      (outputs.filterMap fun output =>
        if output.blackboardKey == some key then some (node.id, output.port)
        else none).getLast?.or (m.lookup key) := by
  induction outputs generalizing m with
  | nil => rfl
  | cons output rest ih =>
    rw [List.foldl_cons, ih, List.filterMap_cons, recordKey]
    cases hKey : output.blackboardKey with
    | none => rfl
    | some other =>
      by_cases hSame : other = key
      · subst other
        simp [List.getLast?_cons]
      · simp [hSame, AList.lookup_insert_ne (Ne.symm hSame)]

theorem lookup_keyToProducer :
    (FlowGraph.keyToProducer nodes).lookup key = (declarations nodes key).getLast? := by
  suffices h : ∀ m : AList fun _ : String => PortRef,
      (nodes.foldl (fun keys node => node.outputs.foldl (recordKey node) keys) m).lookup key =
        (declarations nodes key).getLast?.or (m.lookup key) by
    rw [keyToProducer_eq, h, AList.lookup_empty, Option.or_none]
  unfold declarations
  induction nodes with
  | nil => exact fun m => rfl
  | cons node rest ih =>
    intro m
    rw [List.foldl_cons, ih, lookup_recordKeys, List.flatMap_cons, List.getLast?_append,
      Option.or_assoc]

theorem publishOutput_keyed (runId node port : String) (flow : FlowDefinition) :
    (publishOutput runId node port flow).Only fun a => a.isBoard = false ∨ ∃ key entry,
      (flow.output node port).bind (·.blackboardKey) = some key ∧
        a = .writeBlackboardEntry runId key entry := by
  unfold publishOutput
  split
  · trivial
  · rename_i key hKey
    refine .perform (.inl rfl) fun w => ?_
    simp only
    split
    · trivial
    · exact .perform (.inr ⟨key, _, hKey, rfl⟩) fun _ => trivial

theorem onDocumentApproved_keyed (runId node port : String) (flow : FlowDefinition) :
    (onDocumentApproved runId node port flow).Only fun a => a.isBoard = false ∨ ∃ key entry,
      (flow.output node port).bind (·.blackboardKey) = some key ∧
        a = .writeBlackboardEntry runId key entry := by
  refine .perform (.inl rfl) fun w => ?_
  simp only [Prog.pure_eq]
  split
  · trivial
  · refine Prog.Only.bind (Prog.Only.bind ?mark fun _ =>
      (publishOutput_keyed runId node port flow).bind fun _ => ?note) fun _ =>
        Prog.Only.bind ?join fun _ => Prog.Only.bind ?retrigger fun _ =>
          Prog.Only.bind ?reinvoke fun _ => trivial
    case mark =>
      refine (markPortStatus_only runId node port .approved).mono fun a ha => .inl ?_
      rcases ha with ha | rfl
      · exact ha.not_board
      · rfl
    case note => exact (noteReview_quiet _ _ _ _ _ _).mono fun a ha => .inl ha.not_board
    case join =>
      refine (fireAndJoinFor_only _ _ _ _).mono fun a ha => .inl ?_
      rcases ha with ha | ⟨_, _, ha⟩ <;> exact ha.not_board
    case retrigger =>
      refine (activateNodes_only _ _ _ _).mono fun a ha => .inl ?_
      rcases ha with ha | ⟨_, _, ha⟩ <;> exact ha.not_board
    case reinvoke =>
      refine (reinvokeProducer_only _ _ _ _).mono fun a ha => .inl ?_
      rcases ha with ha | ha <;> exact ha.not_board

/-- The run is in a good state and lists one document of the port. -/
def Holds (runId node port : String) (w : FlowRuntime) : Prop :=
  w.Good runId ∧ ∃ s, w.getRun runId = some s ∧ s.documents = [⟨"draft", port, node, 1⟩]

theorem Holds.apply {a : Act} (ha : a.isRegister = false) {w : FlowRuntime}
    (h : Holds runId node port w) : Holds runId node port (a.apply w) := by
  obtain ⟨hGood, s, hRun, hDocuments⟩ := h
  refine ⟨hGood.apply a, _, a.getRun_apply hRun, ?_⟩
  rw [← hDocuments]
  exact Act.onRun_view (·.documents) (Act.documents_change ha w.now s)

theorem publishOutput_publishes (hKey : (flow.output node port).bind (·.blackboardKey) = some key) :
    (publishOutput runId node port flow).Achieves (Holds runId node port) fun tr _ =>
      ∃ entry t, (.writeBlackboardEntry runId key entry, t) ∈ tr := by
  unfold publishOutput
  rw [hKey]
  refine .perform fun w hw => ?_
  obtain ⟨_, s, hRun, hDocuments⟩ := hw
  simp only [hRun, hDocuments, Option.bind_some, List.find?_cons, beq_self_eq_true, Bool.and_self,
    Option.map_some]
  exact .perform fun t _ => .done ⟨_, t, List.mem_cons_of_mem _ List.mem_cons_self⟩

theorem approvePort_publishes (hKey : (flow.output node port).bind (·.blackboardKey) = some key) :
    (approvePort runId node port flow).Achieves (Holds runId node port) fun tr _ =>
      ∃ entry t, (.writeBlackboardEntry runId key entry, t) ∈ tr := by
  refine ((markPortStatus_achieves node port .approved).weaken fun _ h => h.1).bind fun _ _ _ =>
    (publishOutput_publishes hKey).bind fun tr _ hPublished =>
      ((noteReview_achieves _ _ _ _ _ _).weaken fun _ h => h.1).mono fun _ _ _ => ?_
  obtain ⟨entry, t, hMem⟩ := hPublished
  exact ⟨entry, t, List.mem_append_right _ (List.mem_append_left _ hMem)⟩

theorem publishes_iff {q : PortRef} : Publishes flow q key ↔
    (flow.output q.1 q.2).bind (·.blackboardKey) = some key := by
  constructor
  · rintro ⟨runId, w, entry, t, hMem⟩
    rcases (onDocumentApproved_keyed runId q.1 q.2 flow).trace w _ hMem with
      hBoard | ⟨key', _, hKey, hEq⟩
    · cases hBoard
    · obtain ⟨_, rfl, _⟩ := Act.writeBlackboardEntry.inj hEq
      exact hKey
  · intro hKey
    -- a run that holds a document of the port
    let s : FlowRunState :=
      { FlowRunState.new "run" "flow" "" "" with documents := [⟨"draft", q.2, q.1, 1⟩] }
    let runs : AList fun _ : String => FlowRunState := AList.insert "run" s ∅
    let w : FlowRuntime := ⟨runs, ∅, ∅, ∅, ∅, [], []⟩
    have hRun : w.getRun "run" = some s := AList.lookup_insert _
    have hStatus : w.portStatus "run" q.1 q.2 ≠ .approved := by
      rw [FlowRuntime.portStatus, hRun]
      intro h
      cases h
    have hHealthy : w.Healthy := fun _ hFault => absurd hFault List.not_mem_nil
    have hHolds : Holds "run" q.1 q.2 w := ⟨⟨hHealthy, by rw [hRun]; rfl⟩, s, hRun, rfl⟩
    have hKept := (approvePort_only "run" q.1 q.2 flow).trace_preserves (fun a ha t ht => by
      refine Holds.apply ?_ ht
      rcases ha with ha | rfl | ⟨_, _, rfl⟩
      · exact Act.isRegister_of_isBoard ha.not_board
      · rfl
      · rfl) hHolds
    obtain ⟨_, _, entry, t, hMem⟩ :=
      approvePort_publishes hKey _ _ (Prog.trace_yields (approvePort "run" q.1 q.2 flow) w) hKept
    refine ⟨"run", w, entry, t, ?_⟩
    rw [(onDocumentApproved_of_not_approved flow hStatus).2, cascadeApproval, Prog.trace_bind]
    exact List.mem_cons_of_mem _ (List.mem_append_left _ hMem)

theorem agrees_iff {p : PortRef} (hLast : (declarations flow.nodes key).getLast? = some p) :
    Agrees flow key p ↔ SoleProducer flow key := by
  unfold Agrees SoleProducer
  simp only [publishes_iff, findOutput_eq]
  constructor
  · exact fun ⟨hSole, hFirst⟩ => ⟨p, hFirst, hLast, hSole⟩
  · rintro ⟨q, hFirst, hLast', hSole⟩
    obtain rfl := Option.some.inj (hLast'.symm.trans hLast)
    exact ⟨hSole, hFirst⟩

theorem forall₂_filterMap {α β : Type} {R : α → β → Prop} {f : α → Option β} {l : List α}
    (h : ∀ a ∈ l, ∃ b, f a = some b) :
    List.Forall₂ R l (l.filterMap f) ↔ ∀ a ∈ l, ∀ b, f a = some b → R a b := by
  induction l with
  | nil => simp
  | cons a rest ih =>
    obtain ⟨b, hb⟩ := h a List.mem_cons_self
    rw [List.filterMap_cons_some hb, List.forall₂_cons, List.forall_mem_cons,
      ih fun c hc => h c (List.mem_cons_of_mem _ hc)]
    simp [hb]

variable {n : FlowNode}

theorem requiredInputs_of_reads (hn : n ∈ flow.nodes) (hReads : n.reads ≠ []) :
    flow.graph.requiredInputsFor n.id =
      n.reads.filterMap (FlowGraph.keyToProducer flow.nodes).lookup := by
  have hBase : FlowGraph.baseInputs flow.nodes n =
      n.reads.filterMap (FlowGraph.keyToProducer flow.nodes).lookup := by
    rw [FlowGraph.baseInputs, if_neg (by simpa using hReads)]
  rw [flow.graph_built.required n hn, hBase, if_neg, List.append_nil]
  obtain ⟨key, rest, hKeys⟩ := List.exists_cons_of_ne_nil hReads
  obtain ⟨p, hp⟩ := flow.graph_built.reads n hn key (by simp [hKeys])
  simp [hKeys, hp]

/-- The producers of the keys that the nodes read agree if and only if each of these keys has a sole
producer. -/
theorem producersAgree_iff (flow : FlowDefinition) :
    (∀ node ∈ flow.nodes, node.reads ≠ [] → ProducersAgree flow node) ↔
      ∀ node ∈ flow.nodes, ∀ key ∈ node.reads, SoleProducer flow key := by
  refine forall₂_congr fun node hNode => ?_
  have hInputs : List.Forall₂ (Agrees flow) node.reads
      (node.reads.filterMap (FlowGraph.keyToProducer flow.nodes).lookup) ↔
      ∀ key ∈ node.reads, SoleProducer flow key := by
    rw [forall₂_filterMap (flow.graph_built.reads node hNode)]
    refine forall₂_congr fun key hKey => ?_
    obtain ⟨p, hp⟩ := flow.graph_built.reads node hNode key hKey
    rw [lookup_keyToProducer] at hp ⊢
    simp [hp, agrees_iff hp]
  constructor
  · intro h key hKey
    have hReads := List.ne_nil_of_mem hKey
    have hAgree := (h hReads).inputs
    rw [requiredInputs_of_reads hNode hReads, hInputs] at hAgree
    exact hAgree key hKey
  · intro h hReads
    have hAgree := hInputs.mpr h
    rw [← requiredInputs_of_reads hNode hReads] at hAgree
    refine ⟨hAgree, fun s => ?_⟩
    rw [gateOpen_iff]
    generalize flow.graph.requiredInputsFor node.id = inputs at hAgree
    clear hInputs hReads h
    generalize node.reads = keys at hAgree
    induction hAgree with
    | nil => simp
    | cons hKey _ ih =>
      rw [List.forall_mem_cons, List.forall_mem_cons, ih]
      simp [hKey.1]

def rivalDrafts : FlowDefinition := .ofNodes "rival-drafts" []
  [{ id := "pm", owner := "pm", outputs := [{ port := "prd", blackboardKey := some "prd" }] },
   { id := "editor", owner := "editor",
     outputs := [{ port := "final", blackboardKey := some "prd" }] },
   { id := "rd", owner := "rd", reads := ["prd"] }]
  "flow.yaml" (by decide)

/-- The reader waits for the last draft, and the first one also writes what it reads. -/
theorem rivalDrafts_disagree :
    ¬ ∀ node ∈ rivalDrafts.nodes, node.reads ≠ [] → ProducersAgree rivalDrafts node := by
  intro h
  have hReader := h { id := "rd", owner := "rd", reads := ["prd"] } (by decide) (by decide)
  have hInputs : rivalDrafts.graph.requiredInputsFor "rd" = [("editor", "final")] := by decide
  have hAgree := hReader.inputs
  rw [hInputs] at hAgree
  have hPublishes : Publishes rivalDrafts ("pm", "prd") "prd" := publishes_iff.mpr (by decide)
  rw [List.forall₂_cons] at hAgree
  exact absurd ((hAgree.1.1 _).mp hPublishes) (by decide)

end Cronymax.Flow
