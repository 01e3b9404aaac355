import Cronymax.FlowEditor.Store
import Cronymax.Text.Directives

/-! A flow that is opened in the editor.  It keeps its edges, under one renumbering, unless one of them has an end
at the id that the new lead node gets. -/

namespace Cronymax.FlowEditor

/-- A flow as it is stored. -/
structure Valid (spec : FlowSpec) : Prop where
  distinct : (spec.nodes.map (·.id)).Nodup
  positive : ∀ n ∈ spec.nodes, 0 < n.id

/-- The nodes that the editor knows. -/
def kept (spec : FlowSpec) : List GraphNode := spec.nodes.filter isAgent

/-- The nodes that are shown. -/
def keptIds (spec : FlowSpec) : List Int := (kept spec).map (·.id)

def joins (ids : List Int) (e : GraphEdge) : Bool := e.fromId ∈ ids ∧ e.toId ∈ ids

/-- An edge without reviewers of its own. -/
def plain (e : GraphEdge) : GraphEdge := { e with reviewers := none }

def entryOf (port : String) (n : GraphNode) : Option ProducesEntry :=
  (n.produces.getD []).find? (·.docType = port)

/-- The nodes and edges are those of the flow under a renumbering, with the lead node and an edge from it at most, and
the reviewers of the edges are with the nodes that produce. -/
structure Renumbered (spec : FlowSpec) (s : State) (shift : Int) : Prop where
  nodes : ∃ new, s.nodes.map (·.id) = new ++ (keptIds spec).map (· + shift)
  edges : ∃ extra, s.edges.map plain =
      extra ++ (spec.edges.filter (joins (keptIds spec))).map (fun e => plain (shiftEdge shift e)) ∧
    extra.length ≤ 1 ∧ ∀ e ∈ extra, leadNodeId s.nodes = some e.fromId ∧ e.toId ≠ e.fromId
  reviewers : ∀ e ∈ spec.edges, ∀ port revs, legacy e = some (port, revs) → ∀ n ∈ kept spec, n.id = e.fromId →
    ∀ r ∈ splitReviewers revs, ∃ m ∈ s.nodes, m.id = n.id + shift ∧
      ∃ entry, entryOf port m = some entry ∧ r ∈ splitReviewers entry.reviewers

/-- What is to hold of a flow that has been opened. -/
structure Opened (spec : FlowSpec) (s : State) : Prop where
  distinct : (s.nodes.map (·.id)).Nodup
  lead : ∃ n ∈ s.nodes, (∀ m ∈ s.nodes, n.id ≤ m.id) ∧ agentOf n = "Crony"
  next : ∀ n ∈ s.nodes, n.id < s.nextId
  renumbered : ∃ shift, Renumbered spec s shift
  again : setFlow { nodes := s.nodes, edges := s.edges } = s

def invented (spec : FlowSpec) : Option Int :=
  match sortById (kept spec) with
  | [] => some 1
  | lead :: _ =>
    if agentOf lead = "Crony" ∨ agentOf lead = "Chat" then none else if lead.id = 1 then some 0 else some 1

/-- No edge comes to be shown because of an id that is made up. -/
def NoStray (spec : FlowSpec) : Prop :=
  ∀ e ∈ spec.edges, joins ((invented spec).toList ++ keptIds spec) e = true → joins (keptIds spec) e = true

theorem trim_trim (text : List Char) : trim (trim text) = trim text := by
  have hStop : (trim text).dropWhile Workbench.isSpace = trim text := by
    rw [trim]
    cases hRest : text.dropWhile Workbench.isSpace with
    | nil => rfl
    | cons c more =>
      have hFirst := List.head?_dropWhile_not Workbench.isSpace text
      rw [hRest] at hFirst
      have hc : ¬Workbench.isSpace c = true := by simpa using hFirst
      have hPrefix := List.rdropWhile_prefix Workbench.isSpace (c :: more)
      cases hTrim : (c :: more).rdropWhile Workbench.isSpace with
      | nil => rfl
      | cons c' more' =>
        rw [hTrim] at hPrefix
        obtain rfl : c' = c := (List.cons_prefix_cons.mp hPrefix).1
        exact List.dropWhile_cons_of_neg hc
  conv_lhs => rw [trim, hStop, trim, List.rdropWhile_idempotent]
  rw [trim]

/-- A name as it comes from a list of reviewers. -/
structure IsName (r : List Char) : Prop where
  free : ',' ∉ r
  trimmed : trim r = r
  some : r ≠ []

theorem mem_trim {text : List Char} {c : Char} (h : c ∈ trim text) : c ∈ text :=
  (List.dropWhile_sublist _).subset ((List.rdropWhile_prefix _ _).subset h)

theorem isName_split {text r : List Char} (h : r ∈ splitReviewers text) : IsName r := by
  rw [splitReviewers, List.mem_filter] at h
  obtain ⟨part, hPart, rfl⟩ := List.mem_map.mp h.1
  exact ⟨fun hComma => (Text.mem_of_mem_splitOn hPart (mem_trim hComma)).2 rfl, trim_trim part, by simpa using h.2⟩

theorem split_names {names : List (List Char)} (h : ∀ r ∈ names, IsName r) :
    splitReviewers ([','].intercalate names) = names := by
  have hTrim : names.map trim = names := by
    conv_rhs => rw [← List.map_id names]
    exact List.map_congr_left fun r hr => (h r hr).trimmed
  have hAll : names.filter (· ≠ []) = names := List.filter_eq_self.mpr fun r hr => by simpa using (h r hr).some
  by_cases hNone : names = []
  · rw [hNone]
    decide
  · rw [splitReviewers, List.splitOn_intercalate ',' (fun r hr => (h r hr).free) hNone, hTrim, hAll]

theorem mem_collect {names : List (List Char)} {r : List Char} : r ∈ collect names ↔ r ∈ names := by
  have hFrom (found : List (List Char)) : r ∈ names.foldl (fun found r => if r ∈ found then found else found ++ [r]) found ↔
      r ∈ found ∨ r ∈ names := by
    induction names generalizing found with
    | nil => simp
    | cons name names ih =>
      rw [List.foldl_cons, ih]
      split_ifs with hFound
      · rw [List.mem_cons]
        constructor
        · rintro (h | h)
          · exact .inl h
          · exact .inr (.inr h)
        · rintro (h | rfl | h)
          · exact .inl h
          · exact .inl hFound
          · exact .inr h
      · rw [List.mem_append, List.mem_singleton, List.mem_cons, or_assoc]
  rw [collect, hFrom]
  simp

theorem split_added {old new r : List Char} :
    r ∈ splitReviewers ([','].intercalate (collect (splitReviewers old ++ splitReviewers new))) ↔
      r ∈ splitReviewers old ∨ r ∈ splitReviewers new := by
  have hNames : ∀ name ∈ collect (splitReviewers old ++ splitReviewers new), IsName name := fun name hName => by
    rcases List.mem_append.mp (mem_collect.mp hName) with h | h
    · exact isName_split h
    · exact isName_split h
  rw [split_names hNames, mem_collect, List.mem_append]

/-- The entry of a port has the reviewer. -/
def HasReviewer (port : String) (r : List Char) (ps : List ProducesEntry) : Prop :=
  ∃ entry, ps.find? (·.docType = port) = some entry ∧ r ∈ splitReviewers entry.reviewers

theorem hasReviewer_cons {port : String} {r : List Char} {entry : ProducesEntry} {ps : List ProducesEntry} :
    HasReviewer port r (entry :: ps) ↔
      if entry.docType = port then r ∈ splitReviewers entry.reviewers else HasReviewer port r ps := by
  rw [HasReviewer, HasReviewer, List.find?_cons]
  by_cases hPort : entry.docType = port
  · simp [hPort]
  · simp [hPort]

theorem hasReviewer_added {port : String} {revs r : List Char} (h : r ∈ splitReviewers revs)
    (ps : List ProducesEntry) : HasReviewer port r (addReviewers port revs ps) := by
  induction ps with
  | nil =>
    rw [addReviewers, hasReviewer_cons, if_pos rfl]
    exact h
  | cons entry ps ih =>
    rw [addReviewers]
    split_ifs with hPort
    · rw [hasReviewer_cons, if_pos hPort, split_added]
      exact .inr h
    · rw [hasReviewer_cons, if_neg hPort]
      exact ih

theorem hasReviewer_stays {port port' : String} {revs r : List Char} {ps : List ProducesEntry}
    (h : HasReviewer port r ps) : HasReviewer port r (addReviewers port' revs ps) := by
  induction ps with
  | nil =>
    obtain ⟨entry, hFind, -⟩ := h
    cases hFind
  | cons entry ps ih =>
    rw [hasReviewer_cons] at h
    rw [addReviewers]
    split_ifs with hPort'
    · rw [hasReviewer_cons]
      split_ifs at h ⊢ with hPort
      · exact split_added.mpr (.inl h)
      · exact h
    · rw [hasReviewer_cons]
      split_ifs at h ⊢ with hPort
      · exact h
      · exact ih h

/-- A node of the current schema. -/
structure Tidy (n : GraphNode) : Prop where
  agent : isAgent n = true
  produces : n.produces ≠ none
  noProduces : n.config "produces" = none
  noReviewers : n.config "reviewers" = none

theorem liftProduces_tidy {n : GraphNode} (h : isAgent n = true) : Tidy (liftProduces n) where
  agent := h
  produces := Option.some_ne_none _
  noProduces := rfl
  noReviewers := rfl

theorem liftProduces_of_tidy {n : GraphNode} (h : Tidy n) : liftProduces n = n := by
  obtain ⟨id, type, name, x, y, produces, config⟩ := n
  obtain ⟨-, hProduces, hOld, hReviewers⟩ := h
  obtain ⟨ps, rfl⟩ := Option.ne_none_iff_exists'.mp hProduces
  have hConfig : (fun key => if key = "produces" ∨ key = "reviewers" then none else config key) = config := by
    funext key
    split_ifs with hKey
    · rcases hKey with rfl | rfl
      · exact hOld.symm
      · exact hReviewers.symm
    · rfl
  have hNone : (config "produces").getD "" = "" := by
    rw [show config "produces" = none from hOld]
    rfl
  rw [liftProduces]
  simp only [hNone, ne_eq, not_true_eq_false, and_false, if_false, hConfig, Option.getD_some]

theorem renameNode_tidy {lead : Option Int} {n : GraphNode} (h : Tidy n) : Tidy (renameNode lead n) := by
  rw [renameNode]
  split_ifs
  · exact ⟨h.agent, h.produces, by simp [h.noProduces], by simp [h.noReviewers]⟩
  · exact h

@[simp] theorem renameNode_id (lead : Option Int) (n : GraphNode) : (renameNode lead n).id = n.id := by
  rw [renameNode]
  split_ifs <;> rfl

theorem agentOf_renameNode (lead : Option Int) (n : GraphNode) : agentOf (renameNode lead n) =
    if lead = some n.id ∧ agentOf n = "Chat" then "Crony" else agentOf n := by
  rw [renameNode]
  split_ifs
  · simp [agentOf]
  · rfl

@[grind =] def takeReviewers (id : Int) (ps : List ProducesEntry) (e : GraphEdge) : List ProducesEntry :=
  match legacy e with
  | some (port, revs) => if e.fromId = id then addReviewers port revs ps else ps
  | none => ps

/-- A node after the reviewers of some edges. -/
@[grind =] def drainNode (es : List GraphEdge) (n : GraphNode) : GraphNode :=
  { n with produces := n.produces.map fun ps => es.foldl (takeReviewers n.id) ps }

theorem drainNode_nil (n : GraphNode) : drainNode [] n = n := by
  rw [drainNode]
  simp

theorem drainNode_cons (e : GraphEdge) (es : List GraphEdge) (n : GraphNode) :
    drainNode (e :: es) n = drainNode es (drainNode [e] n) := by
  simp [drainNode, Function.comp_def]

theorem drainNode_none {e : GraphEdge} {n : GraphNode} (h : legacy e = none ∨ n.id ≠ e.fromId) : drainNode [e] n = n := by
  have hSame (ps : List ProducesEntry) : takeReviewers n.id ps e = ps := by
    rw [takeReviewers]
    rcases h with h | h
    · rw [h]
    · split
      · exact if_neg (Ne.symm h)
      · rfl
  simp [drainNode, hSame]

theorem drainNode_of_none {es : List GraphEdge} (h : ∀ e ∈ es, legacy e = none) (n : GraphNode) : drainNode es n = n := by
  induction es with
  | nil => exact drainNode_nil n
  | cons e es ih =>
    obtain ⟨he, hes⟩ := List.forall_mem_cons.mp h
    rw [drainNode_cons, drainNode_none (.inl he), ih hes]

theorem drainNode_tidy {es : List GraphEdge} {n : GraphNode} (h : Tidy n) : Tidy (drainNode es n) :=
  ⟨h.agent, by simpa [drainNode] using h.produces, h.noProduces, h.noReviewers⟩

theorem drainEdge_nodes (nodes : List GraphNode) (e : GraphEdge) : (drainEdge nodes e).1 = nodes.map (drainNode [e]) := by
  rw [drainEdge]
  split
  · rename_i hLegacy
    refine ((List.map_congr_left fun n _ => ?_).trans (List.map_id _)).symm
    exact drainNode_none (.inl hLegacy)
  · rename_i port revs hLegacy
    split_ifs with hAny
    · refine List.map_congr_left fun n _ => ?_
      split_ifs with hId
      · have hOne (ps : List ProducesEntry) : takeReviewers n.id ps e = addReviewers port revs ps := by
          rw [takeReviewers, hLegacy]
          exact if_pos hId.symm
        simp [drainNode, hOne]
      · exact (drainNode_none (.inr hId)).symm
    · refine ((List.map_congr_left fun n hn => ?_).trans (List.map_id _)).symm
      refine drainNode_none (.inr fun hId => hAny ?_)
      exact List.any_eq_true.mpr ⟨n, hn, decide_eq_true hId⟩

/-- An edge after its reviewers have gone to the port. -/
@[grind =] def drained (ids : List Int) (e : GraphEdge) : GraphEdge :=
  if legacy e ≠ none ∧ e.fromId ∈ ids then plain e else e

theorem drainEdge_edge (nodes : List GraphNode) (e : GraphEdge) :
    (drainEdge nodes e).2 = drained (nodes.map (·.id)) e := by
  have hAny : (nodes.any (·.id = e.fromId) = true) ↔ e.fromId ∈ nodes.map (·.id) := by
    rw [List.any_eq_true, List.mem_map]
    simp only [decide_eq_true_eq]
  rw [drainEdge, drained]
  split
  · rename_i hLegacy
    rw [if_neg fun h => h.1 hLegacy]
  · rename_i port revs hLegacy
    simp only [hAny]
    split_ifs with hIn hBoth hBoth
    · rfl
    · exact absurd ⟨by rw [hLegacy]; exact Option.some_ne_none _, hIn⟩ hBoth
    · exact absurd hBoth.2 hIn
    · rfl

theorem drainEdges_eq (nodes : List GraphNode) (es : List GraphEdge) :
    drainEdges nodes es = (nodes.map (drainNode es), es.map (drained (nodes.map (·.id)))) := by
  induction es generalizing nodes with
  | nil =>
    have hSame : nodes.map (drainNode []) = nodes := (List.map_congr_left fun n _ => drainNode_nil n).trans (List.map_id _)
    rw [drainEdges, hSame]
    rfl
  | cons e es ih =>
    have hIds : ((nodes.map (drainNode [e])).map (·.id)) = nodes.map (·.id) := by
      rw [List.map_map]
      rfl
    have hNodes : (nodes.map (drainNode [e])).map (drainNode es) = nodes.map (drainNode (e :: es)) := by
      rw [List.map_map]
      exact List.map_congr_left fun n _ => (drainNode_cons e es n).symm
    rw [drainEdges]
    simp only [ih, drainEdge_nodes, drainEdge_edge, hIds, hNodes, List.map_cons]

/-- What opening makes of a node. -/
def migrateNode (spec : FlowSpec) (n : GraphNode) : GraphNode :=
  drainNode spec.edges (renameNode (leadNodeId (kept spec)) (liftProduces n))

theorem migrate_eq (spec : FlowSpec) : migrateFlowSpec spec =
    { nodes := (kept spec).map (migrateNode spec), edges := spec.edges.map (drained (keptIds spec)) } := by
  have hLift : ((kept spec).map liftProduces).map (·.id) = keptIds spec := by
    rw [List.map_map]
    rfl
  have hLead : leadNodeId ((kept spec).map liftProduces) = leadNodeId (kept spec) := by
    rw [leadNodeId, hLift, keptIds, leadNodeId]
  have hIds : (renameChat ((kept spec).map liftProduces)).map (·.id) = keptIds spec := by
    rw [← hLift, renameChat, List.map_map]
    exact List.map_congr_left fun n _ => renameNode_id _ n
  rw [migrateFlowSpec, drainEdges_eq, ← kept, hIds, renameChat, hLead, List.map_map, List.map_map]
  rfl

@[simp] theorem migrateNode_id (spec : FlowSpec) (n : GraphNode) : (migrateNode spec n).id = n.id :=
  renameNode_id _ (liftProduces n)

theorem migrateNode_tidy {spec : FlowSpec} {n : GraphNode} (h : n ∈ kept spec) : Tidy (migrateNode spec n) :=
  drainNode_tidy (renameNode_tidy (liftProduces_tidy (List.mem_filter.mp h).2))

theorem agentOf_migrateNode (spec : FlowSpec) (n : GraphNode) : agentOf (migrateNode spec n) =
    if leadNodeId (kept spec) = some n.id ∧ agentOf n = "Chat" then "Crony" else agentOf n := by
  have hLift : agentOf (liftProduces n) = agentOf n := by simp [agentOf, liftProduces]
  have hDrain : agentOf (migrateNode spec n) = agentOf (renameNode (leadNodeId (kept spec)) (liftProduces n)) := rfl
  rw [hDrain, agentOf_renameNode, hLift]
  rfl

/-- The order of the nodes by their ids. -/
def byId (a b : GraphNode) : Prop := a.id ≤ b.id

instance : DecidableRel byId := fun a b => inferInstanceAs (Decidable (a.id ≤ b.id))

instance : Std.Total byId := ⟨fun a b => Int.le_total a.id b.id⟩

instance : IsTrans GraphNode byId := ⟨fun _ _ _ => Int.le_trans⟩

theorem sortById_eq (nodes : List GraphNode) : sortById nodes = nodes.insertionSort byId := rfl

theorem sorted_lead {nodes rest : List GraphNode} {lead : GraphNode} (h : sortById nodes = lead :: rest) :
    lead ∈ nodes ∧ (∀ n ∈ nodes, lead.id ≤ n.id) ∧ leadNodeId nodes = some lead.id := by
  have hPerm := List.perm_insertionSort byId nodes
  have hSorted := List.pairwise_insertionSort byId nodes
  rw [← sortById_eq, h] at hPerm hSorted
  have hMem : lead ∈ nodes := hPerm.mem_iff.mp List.mem_cons_self
  have hLeast : ∀ n ∈ nodes, lead.id ≤ n.id := fun n hn => by
    rcases List.mem_cons.mp (hPerm.mem_iff.mpr hn) with rfl | hRest
    · exact Int.le_refl _
    · exact (List.pairwise_cons.mp hSorted).1 n hRest
  refine ⟨hMem, hLeast, List.min?_eq_some_iff.mpr ⟨List.mem_map.mpr ⟨lead, hMem, rfl⟩, fun id hId => ?_⟩⟩
  obtain ⟨n, hn, rfl⟩ := List.mem_map.mp hId
  exact hLeast n hn

theorem sorted_rest {nodes rest : List GraphNode} {lead : GraphNode} (h : sortById nodes = lead :: rest)
    (hNodup : (nodes.map (·.id)).Nodup) {n : GraphNode} (hn : n ∈ rest) : n ∈ nodes ∧ n.id ≠ lead.id := by
  have hPerm := List.perm_insertionSort byId nodes
  rw [← sortById_eq, h] at hPerm
  have hDistinct := (hPerm.map (·.id)).nodup_iff.mpr hNodup
  rw [List.map_cons, List.nodup_cons] at hDistinct
  exact ⟨hPerm.mem_iff.mp (List.mem_cons_of_mem _ hn), fun hSame =>
    hDistinct.1 (hSame ▸ List.mem_map.mpr ⟨n, hn, rfl⟩)⟩

theorem sortById_map {nodes : List GraphNode} {f : GraphNode → GraphNode} {k : Int} (h : ∀ n, (f n).id = n.id + k) :
    sortById (nodes.map f) = (sortById nodes).map f := by
  rw [sortById_eq, sortById_eq]
  refine (List.map_insertionSort byId byId f nodes fun a _ b _ => ?_).symm
  rw [byId, byId, h, h]
  omega

theorem sortById_cons {nodes : List GraphNode} {n : GraphNode} (h : ∀ m ∈ nodes, n.id ≤ m.id) :
    sortById (n :: nodes) = n :: sortById nodes := List.insertionSort_cons_of_forall_rel byId h

theorem shiftNode_zero (n : GraphNode) : shiftNode 0 n = n := by simp [shiftNode]

theorem shiftEdge_zero (e : GraphEdge) : shiftEdge 0 e = e := by simp [shiftEdge]

theorem shiftNode_tidy {n : GraphNode} (h : Tidy n) (k : Int) : Tidy (shiftNode k n) :=
  ⟨h.agent, h.produces, h.noProduces, h.noReviewers⟩

theorem cronyAt_tidy (x : Rat) : Tidy (cronyAt x) :=
  ⟨by simp [isAgent, cronyAt], Option.some_ne_none _, by simp [cronyAt], by simp [cronyAt]⟩

theorem sanitizeNodes_tidy {nodes : List GraphNode} (h : ∀ n ∈ nodes, Tidy n) : sanitizeNodes nodes = nodes := by
  rw [sanitizeNodes, List.filter_eq_self.mpr fun n hn => (h n hn).agent]
  refine (List.map_congr_left fun n hn => ?_).trans (List.map_id _)
  obtain ⟨ps, hProduces⟩ := Option.ne_none_iff_exists'.mp (h n hn).produces
  obtain ⟨id, type, name, x, y, produces, config⟩ := n
  obtain rfl : produces = some ps := hProduces
  rfl

theorem joins_drained (ids ids' : List Int) (e : GraphEdge) : joins ids (drained ids' e) = joins ids e := by
  rw [drained]
  split_ifs <;> rfl

theorem mem_map_add {ids : List Int} {id k : Int} : id + k ∈ ids.map (· + k) ↔ id ∈ ids := by
  rw [List.mem_map]
  exact ⟨fun ⟨id', hId, hSame⟩ => ((Int.add_left_inj k).mp hSame) ▸ hId, fun hId => ⟨id, hId, rfl⟩⟩

theorem joins_shift (ids : List Int) (k : Int) (e : GraphEdge) : joins (ids.map (· + k)) (shiftEdge k e) = joins ids e := by
  simp only [joins, shiftEdge, mem_map_add]

theorem sanitizeEdges_shift (spec : FlowSpec) (inv : List Int) (k : Int) :
    sanitizeEdges ((spec.edges.map (drained (keptIds spec))).map (shiftEdge k)) ((inv ++ keptIds spec).map (· + k)) =
      (spec.edges.filter (joins (inv ++ keptIds spec))).map fun e => shiftEdge k (drained (keptIds spec) e) := by
  have hJoins : ((fun e => decide (e.fromId ∈ (inv ++ keptIds spec).map (· + k) ∧ e.toId ∈ (inv ++ keptIds spec).map (· + k))) ∘
      fun e => shiftEdge k (drained (keptIds spec) e)) = joins (inv ++ keptIds spec) := by
    funext e
    exact (joins_shift _ k _).trans (joins_drained _ _ e)
  rw [sanitizeEdges, List.map_map, List.filter_map]
  exact congrArg (fun p => (spec.edges.filter p).map fun e => shiftEdge k (drained (keptIds spec) e)) hJoins

/-- How the nodes and edges of an opened flow are made up. -/
structure Form (spec : FlowSpec) (new : List GraphNode) (shift : Int) (extra : List GraphEdge) : Prop where
  nodes : (setFlow spec).nodes = new ++ (kept spec).map fun n => shiftNode shift (migrateNode spec n)
  edges : (setFlow spec).edges = extra ++
    (spec.edges.filter (joins ((invented spec).toList ++ keptIds spec))).map fun e =>
      shiftEdge shift (drained (keptIds spec) e)
  newIds : new.map (·.id) = (invented spec).toList.map (· + shift)
  tidy : ∀ n ∈ new, Tidy n
  distinct : ((setFlow spec).nodes.map (·.id)).Nodup
  few : extra.length ≤ 1
  linked : invented spec ≠ none → kept spec ≠ [] → extra ≠ []
  extraEdges : ∀ e ∈ extra, e.reviewers = none ∧ e.toId ≠ e.fromId ∧ joins ((setFlow spec).nodes.map (·.id)) e = true
  sorted : ∃ lead rest, sortById (setFlow spec).nodes = lead :: rest ∧ agentOf lead = "Crony" ∧
    (∀ e ∈ extra, e.fromId = lead.id) ∧
    ∀ next ∈ rest.head?, ∃ e ∈ (setFlow spec).edges, e.fromId = lead.id ∧ e.toId = next.id

section Opening

variable {spec : FlowSpec}

theorem keptIds_nodup (h : Valid spec) : (keptIds spec).Nodup := h.distinct.sublist (List.filter_sublist.map _)

theorem setFlow_of_ensured {m : FlowSpec} (h : ensureCronyLeadNode (migrateFlowSpec spec) = m)
    (hTidy : ∀ n ∈ m.nodes, Tidy n) :
    (setFlow spec).nodes = m.nodes ∧ (setFlow spec).edges = sanitizeEdges m.edges (m.nodes.map (·.id)) := by
  have hNodes := sanitizeNodes_tidy hTidy
  rw [setFlow, h]
  exact ⟨hNodes, by simp only [hNodes]⟩

theorem form_empty (h : sortById (kept spec) = []) : Form spec [cronyAt 80] 0 [] := by
  have hKept : kept spec = [] := by
    have hLength := List.length_insertionSort byId (kept spec)
    rw [← sortById_eq, h] at hLength
    exact List.length_eq_zero_iff.mp hLength.symm
  have hInvented : invented spec = some 1 := by rw [invented, h]
  have hMigrated : ensureCronyLeadNode (migrateFlowSpec spec) =
      { nodes := [cronyAt 80], edges := spec.edges.map (drained (keptIds spec)) } := by
    rw [migrate_eq, ensureCronyLeadNode, hKept]
    rfl
  have hTidy : ∀ n ∈ [cronyAt 80], Tidy n := fun n hn => List.mem_singleton.mp hn ▸ cronyAt_tidy 80
  obtain ⟨hNodes, hEdges⟩ := setFlow_of_ensured hMigrated hTidy
  have hSanitized := sanitizeEdges_shift spec [1] 0
  have hShift : (spec.edges.map (drained (keptIds spec))).map (shiftEdge 0) = spec.edges.map (drained (keptIds spec)) :=
    (List.map_congr_left fun e _ => shiftEdge_zero e).trans (List.map_id _)
  have hIds : keptIds spec = [] := by rw [keptIds, hKept]; rfl
  refine ⟨?_, ?_, ?_, hTidy, ?_, Nat.zero_le 1, fun _ hSome => absurd hKept hSome, by simp, cronyAt 80, [], ?_, ?_, by simp,
    by simp⟩
  · rw [hNodes, hKept]
    rfl
  · rw [hEdges, hInvented, List.nil_append, Option.toList_some, ← hSanitized, hShift]
    congr 1
    rw [hIds]
    rfl
  · rw [hInvented]
    rfl
  · rw [hNodes]
    exact List.nodup_singleton _
  · rw [hNodes]
    rfl
  · simp [agentOf, cronyAt]

theorem migrated_ids (spec : FlowSpec) : ((kept spec).map (migrateNode spec)).map (·.id) = keptIds spec := by
  rw [List.map_map]
  exact List.map_congr_left fun n _ => migrateNode_id spec n

theorem migrated_tidy (spec : FlowSpec) : ∀ n ∈ (kept spec).map (migrateNode spec), Tidy n := by
  intro n hn
  obtain ⟨n₀, hn₀, rfl⟩ := List.mem_map.mp hn
  exact migrateNode_tidy hn₀

theorem migrated_sorted {lead : GraphNode} {rest : List GraphNode} (h : sortById (kept spec) = lead :: rest) :
    sortById ((kept spec).map (migrateNode spec)) = migrateNode spec lead :: rest.map (migrateNode spec) := by
  rw [sortById_map (k := 0) fun n => by rw [migrateNode_id, Int.add_zero], h, List.map_cons]

theorem migrated_crony {lead : GraphNode} {rest : List GraphNode} (h : sortById (kept spec) = lead :: rest) :
    agentOf (migrateNode spec lead) = "Crony" ↔ agentOf lead = "Crony" ∨ agentOf lead = "Chat" := by
  rw [agentOf_migrateNode, (sorted_lead h).2.2]
  by_cases hChat : agentOf lead = "Chat"
  · simp [hChat]
  · simp [hChat]

theorem form_crony (hValid : Valid spec) {lead : GraphNode} {rest : List GraphNode}
    (h : sortById (kept spec) = lead :: rest) (hCrony : agentOf lead = "Crony" ∨ agentOf lead = "Chat") :
    ∃ extra, Form spec [] 0 extra := by
  have hSorted := migrated_sorted h
  have hAgent := (migrated_crony h).mpr hCrony
  have hLead : lead.id ∈ keptIds spec := List.mem_map.mpr ⟨lead, (sorted_lead h).1, rfl⟩
  have hInvented : invented spec = none := by
    rw [invented, h]
    exact if_pos hCrony
  have hShift : (spec.edges.map (drained (keptIds spec))).map (shiftEdge 0) = spec.edges.map (drained (keptIds spec)) :=
    (List.map_congr_left fun e _ => shiftEdge_zero e).trans (List.map_id _)
  have hSanitized := sanitizeEdges_shift spec [] 0
  rw [hShift, List.nil_append, (List.map_congr_left fun id _ => Int.add_zero id : (keptIds spec).map (· + 0) = _),
    List.map_id'] at hSanitized
  -- the edges of the flow come behind an edge that may be new
  have hForm (extra : List GraphEdge)
      (hEnsured : ensureCronyLeadNode (migrateFlowSpec spec) =
        { nodes := (kept spec).map (migrateNode spec), edges := extra ++ spec.edges.map (drained (keptIds spec)) })
      (hFew : extra.length ≤ 1)
      (hExtra : ∀ e ∈ extra, e.reviewers = none ∧ e.toId ≠ e.fromId ∧ joins (keptIds spec) e = true ∧ e.fromId = lead.id)
      (hLinked : ∀ next ∈ rest.head?, ∃ e ∈ extra ++ spec.edges.map (drained (keptIds spec)),
        e.fromId = lead.id ∧ e.toId = next.id) : Form spec [] 0 extra := by
    obtain ⟨hNodes, hEdges⟩ := setFlow_of_ensured hEnsured (migrated_tidy spec)
    have hIds : (setFlow spec).nodes.map (·.id) = keptIds spec := by rw [hNodes, migrated_ids]
    rw [migrated_ids] at hEdges
    refine ⟨?_, ?_, by rw [hInvented]; rfl, by simp, by rw [hIds]; exact keptIds_nodup hValid, hFew,
      fun hNew => absurd hInvented hNew, fun e he => ?_, migrateNode spec lead, rest.map (migrateNode spec), ?_, hAgent,
      fun e he => ?_, fun next hNext => ?_⟩
    · rw [hNodes, List.nil_append]
      exact List.map_congr_left fun n _ => (shiftNode_zero _).symm
    · have hKeep : sanitizeEdges extra (keptIds spec) = extra := List.filter_eq_self.mpr fun e he => (hExtra e he).2.2.1
      rw [hEdges, hInvented, sanitizeEdges, List.filter_append, ← sanitizeEdges, ← sanitizeEdges, hKeep, hSanitized]
      rfl
    · obtain ⟨hPlain, hOther, hJoins, -⟩ := hExtra e he
      exact ⟨hPlain, hOther, by rwa [hIds]⟩
    · rw [hNodes, hSorted]
    · rw [(hExtra e he).2.2.2, migrateNode_id]
    · rw [List.head?_map] at hNext
      obtain ⟨n, hn, rfl⟩ := Option.map_eq_some_iff.mp hNext
      obtain ⟨e, he, hFrom, hTo⟩ := hLinked n hn
      have hRest : n ∈ kept spec := (sorted_rest h (keptIds_nodup hValid) (List.mem_of_head? hn)).1
      refine ⟨e, ?_, by rw [hFrom, migrateNode_id], by rw [hTo, migrateNode_id]⟩
      rw [hEdges, sanitizeEdges, List.mem_filter]
      refine ⟨he, decide_eq_true ⟨hFrom ▸ hLead, ?_⟩⟩
      rw [hTo]
      exact List.mem_map.mpr ⟨n, hRest, rfl⟩
  cases rest with
  | nil =>
    refine ⟨[], hForm [] ?_ (Nat.zero_le 1) (by simp) (by simp)⟩
    rw [migrate_eq, ensureCronyLeadNode, hSorted]
    simp only [List.map_nil]
    rw [if_pos hAgent]
    rfl
  | cons next rest =>
    obtain ⟨hNext, hOther⟩ := sorted_rest h (keptIds_nodup hValid) (List.mem_cons_self (a := next))
    by_cases hAny : ((spec.edges.map (drained (keptIds spec))).any fun e => e.fromId = lead.id ∧ e.toId = next.id) = true
    · refine ⟨[], hForm [] ?_ (Nat.zero_le 1) (by simp) fun n hn => ?_⟩
      · rw [migrate_eq, ensureCronyLeadNode, hSorted]
        simp only [List.map_cons, migrateNode_id]
        rw [if_pos hAgent, if_pos hAny]
        rfl
      · obtain rfl : next = n := Option.some.inj hn
        obtain ⟨e, he, hEnds⟩ := List.any_eq_true.mp hAny
        exact ⟨e, he, of_decide_eq_true hEnds⟩
    · refine ⟨[{ fromId := lead.id, toId := next.id }], hForm _ ?_ (Nat.le_refl 1) (fun e he => ?_) fun n hn => ?_⟩
      · rw [migrate_eq, ensureCronyLeadNode, hSorted]
        simp only [List.map_cons, migrateNode_id]
        rw [if_pos hAgent, if_neg hAny]
        rfl
      · rw [List.mem_singleton.mp he]
        exact ⟨rfl, hOther, decide_eq_true ⟨hLead, List.mem_map.mpr ⟨next, hNext, rfl⟩⟩, rfl⟩
      · obtain rfl : next = n := Option.some.inj hn
        exact ⟨_, List.mem_cons_self, rfl, rfl⟩

theorem form_other (hValid : Valid spec) {lead : GraphNode} {rest : List GraphNode}
    (h : sortById (kept spec) = lead :: rest) (hCrony : ¬(agentOf lead = "Crony" ∨ agentOf lead = "Chat")) :
    ∃ new shift extra, Form spec new shift extra := by
  have hSorted := migrated_sorted h
  obtain ⟨hMem, hLeast, -⟩ := sorted_lead h
  obtain ⟨crony, hCronyAt⟩ : ∃ crony, crony = cronyAt (if (migrateNode spec lead).x = 80 then 80
    else (migrateNode spec lead).x - nodeXStep) := ⟨_, rfl⟩
  obtain ⟨k, hk⟩ : ∃ k : Int, k = if lead.id = 1 then 1 else 0 := ⟨_, rfl⟩
  have hCronyId : crony.id = 1 := by rw [hCronyAt]; rfl
  have hCronyTidy : Tidy crony := by rw [hCronyAt]; exact cronyAt_tidy _
  have hPositive := hValid.positive lead (List.mem_filter.mp hMem).1
  have hAbove : ∀ n ∈ kept spec, 1 < n.id + k := fun n hn => by
    have hn := hLeast n hn
    rw [hk]
    split_ifs <;> omega
  have hInvented : (invented spec).toList.map (· + k) = [1] := by
    rw [invented, h, hk]
    simp only [if_neg hCrony]
    split_ifs <;> rfl
  have hTidy : ∀ n ∈ crony :: ((kept spec).map (migrateNode spec)).map (shiftNode k), Tidy n := by
    refine List.forall_mem_cons.mpr ⟨hCronyTidy, fun n hn => ?_⟩
    obtain ⟨n₀, hn₀, rfl⟩ := List.mem_map.mp hn
    exact shiftNode_tidy (migrated_tidy spec n₀ hn₀) k
  have hEnsured : ensureCronyLeadNode (migrateFlowSpec spec) =
      { nodes := crony :: ((kept spec).map (migrateNode spec)).map (shiftNode k)
        edges := { fromId := 1, toId := lead.id + k } ::
          (spec.edges.map (drained (keptIds spec))).map (shiftEdge k) } := by
    rw [migrate_eq, ensureCronyLeadNode, hSorted]
    simp only [migrateNode_id]
    rw [if_neg fun hAgent => hCrony ((migrated_crony h).mp hAgent), ← hk, ← hCronyAt]
  obtain ⟨hNodes, hEdges⟩ := setFlow_of_ensured hEnsured hTidy
  have hShifted : (((kept spec).map (migrateNode spec)).map (shiftNode k)).map (·.id) = (keptIds spec).map (· + k) := by
    rw [← migrated_ids]
    generalize (kept spec).map (migrateNode spec) = nodes
    rw [List.map_map, List.map_map]
    rfl
  have hIds : (setFlow spec).nodes.map (·.id) = ((invented spec).toList ++ keptIds spec).map (· + k) := by
    rw [hNodes, List.map_cons, hShifted, hCronyId, List.map_append, hInvented]
    rfl
  have hJoins : joins ((setFlow spec).nodes.map (·.id)) { fromId := 1, toId := lead.id + k } = true := by
    rw [hNodes, List.map_cons, hCronyId]
    refine decide_eq_true ⟨List.mem_cons_self, List.mem_cons_of_mem _ ?_⟩
    rw [hShifted, mem_map_add]
    exact List.mem_map.mpr ⟨lead, hMem, rfl⟩
  have hKeptEdges : (setFlow spec).edges = [{ fromId := 1, toId := lead.id + k }] ++
      (spec.edges.filter (joins ((invented spec).toList ++ keptIds spec))).map fun e =>
        shiftEdge k (drained (keptIds spec) e) := by
    rw [← sanitizeEdges_shift, hEdges, ← hNodes, ← hIds]
    exact List.filter_cons_of_pos hJoins
  refine ⟨[crony], k, [{ fromId := 1, toId := lead.id + k }], ?_, hKeptEdges, ?_, fun n hn => ?_, ?_, Nat.le_refl 1,
    fun _ _ => List.cons_ne_nil _ _, fun e he => ?_, crony, (rest.map (migrateNode spec)).map (shiftNode k) |>.cons
      (shiftNode k (migrateNode spec lead)), ?_, ?_, fun e he => ?_, fun next hNext => ?_⟩
  · rw [hNodes, List.map_map]
    rfl
  · rw [hInvented, List.map_singleton, hCronyId]
  · rw [List.mem_singleton.mp hn]
    exact hCronyTidy
  · rw [hNodes, List.map_cons, hShifted, hCronyId]
    refine List.nodup_cons.mpr ⟨fun hOne => ?_, (keptIds_nodup hValid).map fun a b hSame => (Int.add_left_inj k).mp hSame⟩
    obtain ⟨id, hId, hSame⟩ := List.mem_map.mp hOne
    obtain ⟨n, hn, rfl⟩ := List.mem_map.mp hId
    exact absurd hSame (Int.ne_of_gt (hAbove n hn))
  · rw [List.mem_singleton.mp he]
    exact ⟨rfl, Int.ne_of_gt (hAbove lead hMem), hJoins⟩
  · have hFirst : ∀ m ∈ ((kept spec).map (migrateNode spec)).map (shiftNode k), crony.id ≤ m.id := fun m hm => by
      obtain ⟨n₀, hn₀, rfl⟩ := List.mem_map.mp hm
      obtain ⟨n, hn, rfl⟩ := List.mem_map.mp hn₀
      rw [hCronyId]
      exact Int.le_of_lt ((migrateNode_id spec n).symm ▸ hAbove n hn : 1 < (migrateNode spec n).id + k)
    rw [hNodes, sortById_cons hFirst, sortById_map (k := k) fun n => rfl, hSorted, List.map_cons]
  · rw [hCronyAt]
    simp [agentOf, cronyAt]
  · rw [List.mem_singleton.mp he, hCronyId]
  · obtain rfl := Option.some.inj hNext
    refine ⟨{ fromId := 1, toId := lead.id + k }, by rw [hKeptEdges]; exact List.mem_cons_self, hCronyId.symm, ?_⟩
    rw [shiftNode, migrateNode_id]

theorem form (hValid : Valid spec) : ∃ new shift extra, Form spec new shift extra := by
  cases h : sortById (kept spec) with
  | nil => exact ⟨_, _, _, form_empty h⟩
  | cons lead rest =>
    by_cases hCrony : agentOf lead = "Crony" ∨ agentOf lead = "Chat"
    · exact ⟨_, _, form_crony hValid h hCrony⟩
    · exact form_other hValid h hCrony

theorem foldl_takeReviewers {id : Int} {es : List GraphEdge} {ps : List ProducesEntry} {port : String} {r : List Char}
    (h : HasReviewer port r ps) : HasReviewer port r (es.foldl (takeReviewers id) ps) := by
  induction es generalizing ps with
  | nil => exact h
  | cons e es ih =>
    refine ih ?_
    rw [takeReviewers]
    split
    · split_ifs
      · exact hasReviewer_stays h
      · exact h
    · exact h

theorem hasReviewer_drained {es : List GraphEdge} {e : GraphEdge} (he : e ∈ es) {port : String} {revs r : List Char}
    (hLegacy : legacy e = some (port, revs)) (hr : r ∈ splitReviewers revs) (ps : List ProducesEntry) :
    HasReviewer port r (es.foldl (takeReviewers e.fromId) ps) := by
  obtain ⟨before, after, rfl⟩ := List.append_of_mem he
  have hTake (ps : List ProducesEntry) : takeReviewers e.fromId ps e = addReviewers port revs ps := by
    rw [takeReviewers, hLegacy]
    exact if_pos rfl
  rw [List.foldl_append, List.foldl_cons, hTake]
  exact foldl_takeReviewers (hasReviewer_added hr _)

theorem entryOf_migrated {n : GraphNode} {port : String} {e : GraphEdge} (he : e ∈ spec.edges) (hFrom : n.id = e.fromId)
    {revs r : List Char} (hLegacy : legacy e = some (port, revs)) (hr : r ∈ splitReviewers revs) (k : Int) :
    ∃ entry, entryOf port (shiftNode k (migrateNode spec n)) = some entry ∧ r ∈ splitReviewers entry.reviewers := by
  have hProduces : ∃ ps, (shiftNode k (migrateNode spec n)).produces =
      some (spec.edges.foldl (takeReviewers e.fromId) ps) := by
    have hTidy : (renameNode (leadNodeId (kept spec)) (liftProduces n)).produces ≠ none := by
      rw [renameNode]
      split_ifs <;> exact Option.some_ne_none _
    obtain ⟨ps, hSome⟩ := Option.ne_none_iff_exists'.mp hTidy
    refine ⟨ps, ?_⟩
    rw [shiftNode, migrateNode, drainNode, hSome, renameNode_id, ← hFrom]
    rfl
  obtain ⟨ps, hProduces⟩ := hProduces
  rw [entryOf, hProduces]
  exact hasReviewer_drained he hLegacy hr ps

theorem le_foldl_max (nodes : List GraphNode) (m : Int) :
    m ≤ nodes.foldl (fun m n => max m n.id) m ∧ ∀ n ∈ nodes, n.id ≤ nodes.foldl (fun m n => max m n.id) m := by
  induction nodes generalizing m with
  | nil => exact ⟨Int.le_refl m, by simp⟩
  | cons n nodes ih =>
    obtain ⟨hStart, hRest⟩ := ih (max m n.id)
    refine ⟨Int.le_trans (Int.le_max_left _ _) hStart, List.forall_mem_cons.mpr
      ⟨Int.le_trans (Int.le_max_right _ _) hStart, hRest⟩⟩

theorem setFlow_fixed {nodes : List GraphNode} {edges : List GraphEdge} (hTidy : ∀ n ∈ nodes, Tidy n)
    (hNodup : (nodes.map (·.id)).Nodup) {lead : GraphNode} {rest : List GraphNode}
    (hSorted : sortById nodes = lead :: rest) (hCrony : agentOf lead = "Crony")
    (hLinked : ∀ next ∈ rest.head?, ∃ e ∈ edges, e.fromId = lead.id ∧ e.toId = next.id)
    (hLegacy : ∀ e ∈ edges, legacy e = none) (hJoins : ∀ e ∈ edges, joins (nodes.map (·.id)) e = true) :
    setFlow { nodes, edges } =
      { nodes, edges, selectedId := none, selectedEdgeIndex := none
        nextId := nodes.foldl (fun m n => max m n.id) 0 + 1 } := by
  have hKept : nodes.filter isAgent = nodes := List.filter_eq_self.mpr fun n hn => (hTidy n hn).agent
  have hLift : nodes.map liftProduces = nodes :=
    (List.map_congr_left fun n hn => liftProduces_of_tidy (hTidy n hn)).trans (List.map_id _)
  have hRename : renameChat nodes = nodes := by
    refine (List.map_congr_left fun n hn => if_neg ?_).trans (List.map_id _)
    rintro ⟨hLead, hChat⟩
    obtain ⟨hMem, -, hLeadId⟩ := sorted_lead hSorted
    have hSame : n = lead := List.inj_on_of_nodup_map hNodup hn hMem (Option.some.inj (hLead.symm.trans hLeadId))
    rw [hSame, hCrony] at hChat
    revert hChat
    decide
  have hDrain : drainEdges nodes edges = (nodes, edges) := by
    have hEdges : edges.map (drained (nodes.map (·.id))) = edges :=
      (List.map_congr_left fun e he => if_neg fun h => h.1 (hLegacy e he)).trans (List.map_id _)
    have hNodes : nodes.map (drainNode edges) = nodes :=
      (List.map_congr_left fun n _ => drainNode_of_none hLegacy n).trans (List.map_id _)
    rw [drainEdges_eq, hEdges, hNodes]
  have hMigrated : migrateFlowSpec { nodes, edges } = { nodes, edges } := by
    rw [migrateFlowSpec]
    simp only [hKept, hLift, hRename, hDrain]
  have hEnsured : ensureCronyLeadNode { nodes, edges } = { nodes, edges } := by
    rw [ensureCronyLeadNode, hSorted]
    simp only
    rw [if_pos hCrony]
    cases rest with
    | nil => rfl
    | cons next rest =>
      obtain ⟨e, he, hEnds⟩ := hLinked next rfl
      exact if_pos (List.any_eq_true.mpr ⟨e, he, decide_eq_true hEnds⟩)
  have hEdges : sanitizeEdges edges (nodes.map (·.id)) = edges := List.filter_eq_self.mpr hJoins
  rw [setFlow, hMigrated, hEnsured]
  simp only [sanitizeNodes_tidy hTidy, hEdges]

theorem legacy_drained {ids : List Int} {e : GraphEdge} (h : e.fromId ∈ ids) (k : Int) :
    legacy (shiftEdge k (drained ids e)) = none := by
  have hShift (e : GraphEdge) : legacy (shiftEdge k e) = legacy e := rfl
  rw [hShift, drained]
  by_cases hNone : legacy e = none
  · rw [if_neg fun h => h.1 hNone, hNone]
  · rw [if_pos ⟨hNone, h⟩]
    rfl

theorem plain_drained (ids : List Int) (e : GraphEdge) (k : Int) :
    plain (shiftEdge k (drained ids e)) = plain (shiftEdge k e) := by
  rw [drained]
  split_ifs <;> rfl

theorem legacy_of_plain {e : GraphEdge} (h : e.reviewers = none) : legacy e = none := by
  rw [legacy, h]

theorem stray_more {edges : List GraphEdge} {ids ids' : List Int} (hMore : ∀ id ∈ ids, id ∈ ids')
    {e : GraphEdge} (he : e ∈ edges) (hIn : joins ids' e = true) (hNot : joins ids e = false) :
    (edges.filter (joins ids)).length < (edges.filter (joins ids')).length := by
  have hFilter : edges.filter (joins ids) = (edges.filter (joins ids')).filter (joins ids) := by
    rw [List.filter_filter]
    refine List.filter_congr fun e _ => ?_
    cases hJoins : joins ids e with
    | false => rfl
    | true =>
      have hBoth := of_decide_eq_true hJoins
      have hJoins' : joins ids' e = true := decide_eq_true ⟨hMore _ hBoth.1, hMore _ hBoth.2⟩
      rw [hJoins', Bool.and_true]
  rw [hFilter, List.length_filter_lt_length_iff_exists]
  exact ⟨e, List.mem_filter.mpr ⟨he, hIn⟩, by rw [hNot]; exact Bool.false_ne_true⟩

theorem opened_iff (hValid : Valid spec) : Opened spec (setFlow spec) ↔ NoStray spec := by
  obtain ⟨new, k, extra, hForm⟩ := form hValid
  obtain ⟨lead, rest, hSorted, hCrony, hFrom, hLinked⟩ := hForm.sorted
  obtain ⟨hMem, hLeast, hLeadId⟩ := sorted_lead hSorted
  have hEdges : (setFlow spec).edges.map plain = extra ++
      (spec.edges.filter (joins ((invented spec).toList ++ keptIds spec))).map fun e => plain (shiftEdge k e) := by
    have hPlain : extra.map plain = extra :=
      (List.map_congr_left fun e he => by
        obtain ⟨from', to', port, approval, label, reviewers⟩ := e
        obtain rfl : reviewers = none := (hForm.extraEdges _ he).1
        rfl).trans (List.map_id _)
    rw [hForm.edges, List.map_append, hPlain, List.map_map]
    exact congrArg (extra ++ ·) (List.map_congr_left fun e _ => plain_drained _ e k)
  constructor
  · rintro ⟨-, -, -, ⟨k', -, ⟨extra', hSame, hFew, hExtra⟩, -⟩, -⟩ e he hIn
    by_contra hNot
    rw [Bool.not_eq_true] at hNot
    have hMore := stray_more (fun id hId => List.mem_append_right _ hId) he hIn hNot
    have hLength := congrArg List.length (hEdges.symm.trans hSame)
    rw [List.length_append, List.length_append, List.length_map, List.length_map] at hLength
    have hNone : extra = [] := List.length_eq_zero_iff.mp (by omega)
    cases hInvented : invented spec with
    | none =>
      rw [hInvented, Option.toList_none, List.nil_append, hNot] at hIn
      cases hIn
    | some c =>
      -- the new lead node is alone, and so the edge begins where it ends
      have hKept : kept spec = [] := by
        by_contra hSome
        exact hForm.linked (by rw [hInvented]; exact Option.some_ne_none c) hSome hNone
      have hIds : keptIds spec = [] := by rw [keptIds, hKept]; rfl
      rw [hEdges, hIds, List.append_nil, hNone, List.nil_append] at hSame
      rw [hIds, List.append_nil] at hIn
      have hNoEdges : spec.edges.filter (joins []) = [] := List.filter_eq_nil_iff.mpr fun e _ => by simp [joins]
      have hEdge : plain (shiftEdge k e) ∈ extra' := by
        rw [hNoEdges, List.map_nil, List.append_nil] at hSame
        rw [← hSame]
        exact List.mem_map.mpr ⟨e, List.mem_filter.mpr ⟨he, hIn⟩, rfl⟩
      obtain ⟨hFromC, hToC⟩ := of_decide_eq_true hIn
      rw [hInvented, Option.toList_some, List.mem_singleton] at hFromC hToC
      refine (hExtra _ hEdge).2 ?_
      rw [plain, shiftEdge]
      exact congrArg (· + k) (hToC.trans hFromC.symm)
  · intro h
    have hFilter : spec.edges.filter (joins ((invented spec).toList ++ keptIds spec)) =
        spec.edges.filter (joins (keptIds spec)) := by
      refine List.filter_congr fun e he => Bool.eq_iff_iff.mpr ⟨h e he, fun hJoins => ?_⟩
      have hBoth := of_decide_eq_true hJoins
      exact decide_eq_true ⟨List.mem_append_right _ hBoth.1, List.mem_append_right _ hBoth.2⟩
    have hTidy : ∀ n ∈ (setFlow spec).nodes, Tidy n := by
      intro n hn
      rw [hForm.nodes] at hn
      rcases List.mem_append.mp hn with hn | hn
      · exact hForm.tidy n hn
      · obtain ⟨n₀, hn₀, rfl⟩ := List.mem_map.mp hn
        exact shiftNode_tidy (migrateNode_tidy hn₀) k
    have hLegacy : ∀ e ∈ (setFlow spec).edges, legacy e = none := by
      intro e he
      rw [hForm.edges, hFilter] at he
      rcases List.mem_append.mp he with he | he
      · exact legacy_of_plain (hForm.extraEdges e he).1
      · obtain ⟨e₀, he₀, rfl⟩ := List.mem_map.mp he
        exact legacy_drained (of_decide_eq_true (List.mem_filter.mp he₀).2).1 k
    have hJoins : ∀ e ∈ (setFlow spec).edges, joins ((setFlow spec).nodes.map (·.id)) e = true := fun e he =>
      (List.mem_filter.mp he).2
    refine ⟨hForm.distinct, ⟨lead, hMem, hLeast, hCrony⟩, fun n hn => ?_,
      ⟨k, ⟨new.map (·.id), ?_⟩, ⟨extra, ?_, hForm.few, fun e he => ⟨?_, (hForm.extraEdges e he).2.1⟩⟩, ?_⟩,
      setFlow_fixed hTidy hForm.distinct hSorted hCrony hLinked hLegacy hJoins⟩
    · exact Int.lt_add_one_of_le ((le_foldl_max _ 0).2 n hn)
    · rw [hForm.nodes, List.map_append, List.map_map, keptIds, List.map_map]
      refine congrArg (new.map (·.id) ++ ·) (List.map_congr_left fun n _ => ?_)
      exact congrArg (· + k) (migrateNode_id spec n)
    · rw [hEdges, hFilter]
    · rw [hLeadId, hFrom e he]
    · intro e he port revs hRevs n hn hId r hr
      refine ⟨shiftNode k (migrateNode spec n), ?_, congrArg (· + k) (migrateNode_id spec n),
        entryOf_migrated he hId hRevs hr k⟩
      rw [hForm.nodes]
      exact List.mem_append_right _ (List.mem_map.mpr ⟨n, hn, rfl⟩)

end Opening

end Cronymax.FlowEditor
