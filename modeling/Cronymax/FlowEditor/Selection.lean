import Cronymax.FlowEditor.Opening

/-! A flow while it is edited.  Every node and every edge has a tag from when it came, by which a selection is compared
with what has been selected. -/

namespace Cronymax.FlowEditor

/-- The tags of the members that stay. -/
def keepTags (p : α → Bool) (xs : List α) (tags : List Nat) : List Nat := ((xs.zip tags).filter (p ·.1)).map (·.2)

/-- An editor's state, with tags that nodes and edges keep while their ids and indices change. -/
structure Editing where
  state : State
  nodeTags : List Nat
  edgeTags : List Nat
  fresh : Nat
  chosenNode : Option Nat
  chosenEdge : Option Nat

namespace Editing

def start (s : State) : Editing where
  state := s
  nodeTags := List.range s.nodes.length
  edgeTags := List.range s.edges.length
  fresh := max s.nodes.length s.edges.length
  chosenNode := none
  chosenEdge := none

/-- The tag of the node with this id. -/
def tagOf (t : Editing) (id : Int) : Option Nat := ((t.state.nodes.zip t.nodeTags).find? (·.1.id = id)).map (·.2)

def away (id : Int) (e : GraphEdge) : Bool := e.fromId ≠ id ∧ e.toId ≠ id

/-- An action, with the tags of what it adds. -/
def step (t : Editing) (a : Action) : Editing :=
  let next := { t with state := reducer t.state a }
  match a with
  | .addNode _ _ edge =>
    { next with
      nodeTags := t.nodeTags ++ [t.fresh]
      edgeTags := t.edgeTags ++ (edge.map fun _ => t.fresh).toList
      fresh := t.fresh + 1
      chosenNode := some t.fresh }
  | .deleteNode id =>
    if leadNodeId t.state.nodes = some id then next
    else
      { next with
        nodeTags := keepTags (·.id ≠ id) t.state.nodes t.nodeTags
        edgeTags := keepTags (away id) t.state.edges t.edgeTags }
  | .select id => { next with chosenNode := id.bind t.tagOf }
  | .selectEdge index => { next with chosenEdge := index.bind (t.edgeTags[·]?) }
  | .deleteEdge index => { next with edgeTags := t.edgeTags.eraseIdx index }
  | .addEdge _ => { next with edgeTags := t.edgeTags ++ [t.fresh], fresh := t.fresh + 1 }
  | _ => next

def ids (s : State) : List Int := s.nodes.map (·.id)

/-- What is to hold of a flow that is edited. -/
structure Faithful (t : Editing) : Prop where
  distinct : (ids t.state).Nodup
  next : ∀ id ∈ ids t.state, id < t.state.nextId
  joined : ∀ e ∈ t.state.edges, joins (ids t.state) e = true
  node : ∀ id, t.state.selectedId = some id →
    ∃ n tag, (n, tag) ∈ t.state.nodes.zip t.nodeTags ∧ n.id = id ∧ t.chosenNode = some tag
  edge : ∀ index, t.state.selectedEdgeIndex = some index →
    ∃ e tag, t.state.edges[index]? = some e ∧ t.edgeTags[index]? = some tag ∧ t.chosenEdge = some tag

/-- An action that the editor offers. -/
def Legal (s : State) : Action → Prop
  | .addNode node nextId edge =>
    node.id = s.nextId ∧ nextId = s.nextId + 1 ∧ ∀ e ∈ edge, joins (ids s ++ [node.id]) e = true
  | .addEdge e => joins (ids s) e = true
  | .select id => ∀ n ∈ id, n ∈ ids s
  | .selectEdge index => ∀ i ∈ index, i < s.edges.length
  | .setFlow _ | .clear => False
  | _ => True

/-- The action does not shift what is selected. -/
def Safe (s : State) : Action → Prop
  | .deleteNode id =>
    leadNodeId s.nodes = some id ∨ ∀ index ∈ s.selectedEdgeIndex, ∀ e ∈ s.edges.take (index + 1), away id e = true
  | .deleteEdge i => ∀ index ∈ s.selectedEdgeIndex, index ≤ i
  | _ => True

/-- Every action of a run, in the state that it meets. -/
def Along (P : State → Action → Prop) : Editing → List Action → Prop
  | _, [] => True
  | t, a :: actions => P t.state a ∧ Along P (t.step a) actions

/-- In every state of a run. -/
def Throughout (P : Editing → Prop) : Editing → List Action → Prop
  | t, [] => P t
  | t, a :: actions => P t ∧ Throughout P (t.step a) actions

/-- Every member has a tag of its own. -/
structure Tagging (xs : List α) (tags : List Nat) (fresh : Nat) : Prop where
  length : tags.length = xs.length
  nodup : tags.Nodup
  old : ∀ tag ∈ tags, tag < fresh

section Tagging

variable {xs : List α} {tags : List Nat} {fresh : Nat}

theorem Tagging.range (xs : List α) (h : xs.length ≤ fresh) : Tagging xs (List.range xs.length) fresh :=
  ⟨List.length_range, List.nodup_range, fun _ hTag => Nat.lt_of_lt_of_le (List.mem_range.mp hTag) h⟩

theorem Tagging.mono (h : Tagging xs tags fresh) {later : Nat} (hLater : fresh ≤ later) : Tagging xs tags later :=
  ⟨h.length, h.nodup, fun tag hTag => Nat.lt_of_lt_of_le (h.old tag hTag) hLater⟩

theorem Tagging.push (h : Tagging xs tags fresh) (x : α) : Tagging (xs ++ [x]) (tags ++ [fresh]) (fresh + 1) where
  length := by rw [List.length_append, List.length_append, h.length]; rfl
  nodup := List.nodup_append.mpr ⟨h.nodup, List.nodup_singleton fresh, fun tag hTag tag' hTag' hSame =>
    absurd (h.old tag hTag) (by rw [hSame, List.mem_singleton.mp hTag']; exact Nat.lt_irrefl fresh)⟩
  old tag hTag := by
    rcases List.mem_append.mp hTag with hTag | hTag
    · exact Nat.lt_succ_of_lt (h.old tag hTag)
    · exact Nat.lt_succ_of_le (List.mem_singleton.mp hTag).le

theorem Tagging.erase (h : Tagging xs tags fresh) (i : Nat) : Tagging (xs.eraseIdx i) (tags.eraseIdx i) fresh where
  length := by rw [List.length_eraseIdx, List.length_eraseIdx, h.length]
  nodup := h.nodup.eraseIdx i
  old tag hTag := h.old tag (List.mem_of_mem_eraseIdx hTag)

theorem Tagging.of_length (h : Tagging xs tags fresh) {ys : List β} (hLength : ys.length = xs.length) :
    Tagging ys tags fresh :=
  ⟨h.length.trans hLength.symm, h.nodup, h.old⟩

theorem zip_keepTags (h : tags.length = xs.length) (p : α → Bool) :
    (xs.filter p).zip (keepTags p xs tags) = (xs.zip tags).filter (p ·.1) := by
  refine (List.zip_of_prod ?_ rfl).symm
  conv_rhs => rw [← List.map_fst_zip h.ge, List.filter_map]
  rfl

theorem length_keepTags (h : tags.length = xs.length) (p : α → Bool) :
    (keepTags p xs tags).length = (xs.filter p).length := by
  have hFirst : xs.filter p = ((xs.zip tags).filter (p ·.1)).map (·.1) := by
    conv_lhs => rw [← List.map_fst_zip h.ge, List.filter_map]
    rfl
  rw [keepTags, List.length_map, hFirst, List.length_map]

theorem Tagging.keep (h : Tagging xs tags fresh) (p : α → Bool) : Tagging (xs.filter p) (keepTags p xs tags) fresh where
  length := length_keepTags h.length p
  nodup := by
    refine List.Nodup.sublist (List.Sublist.map _ List.filter_sublist) ?_
    rw [List.map_snd_zip h.length.le]
    exact h.nodup
  old tag hTag := by
    obtain ⟨pair, hPair, rfl⟩ := List.mem_map.mp hTag
    exact h.old _ (List.of_mem_zip (List.mem_of_mem_filter hPair)).2

theorem mem_keepTags {p : α → Bool} {xs : List α} {tags : List Nat} {tag : Nat} (h : tag ∈ keepTags p xs tags) : tag ∈ tags := by
  obtain ⟨pair, hPair, rfl⟩ := List.mem_map.mp h
  exact (List.of_mem_zip (List.mem_of_mem_filter hPair)).2

theorem keepTags_append (p : α → Bool) {xs ys : List α} {ts us : List Nat} (h : xs.length = ts.length) :
    keepTags p (xs ++ ys) (ts ++ us) = keepTags p xs ts ++ keepTags p ys us := by
  rw [keepTags, List.zip_append h, List.filter_append, List.map_append, keepTags, keepTags]

theorem keepTags_cons (p : α → Bool) (x : α) (xs : List α) (tag : Nat) (tags : List Nat) :
    keepTags p (x :: xs) (tag :: tags) = (if p x then [tag] else []) ++ keepTags p xs tags := by
  rw [keepTags, List.zip_cons_cons, List.filter_cons]
  split_ifs <;> rfl

theorem getElem?_only {before after : List Nat} {tag i : Nat} (hBefore : tag ∉ before) (hAfter : tag ∉ after) :
    (before ++ tag :: after)[i]? = some tag ↔ before.length = i := by
  constructor
  · intro h
    rw [List.getElem?_append] at h
    split_ifs at h with hLt
    · exact absurd (List.mem_of_getElem? h) hBefore
    · cases hRest : i - before.length with
      | zero => omega
      | succ k =>
        rw [hRest, List.getElem?_cons_succ] at h
        exact absurd (List.mem_of_getElem? h) hAfter
  · rintro rfl
    simp

theorem keepTags_same (h : Tagging xs tags fresh) {i tag : Nat} (hTag : tags[i]? = some tag) (p : α → Bool) :
    (keepTags p xs tags)[i]? = some tag ↔ ∀ x ∈ xs.take (i + 1), p x = true := by
  obtain ⟨hIn, hAt⟩ := List.getElem?_eq_some_iff.mp hTag
  have hIn' : i < xs.length := h.length ▸ hIn
  have hTags : tags = tags.take i ++ tag :: tags.drop (i + 1) := by
    rw [← hAt, ← List.drop_eq_getElem_cons hIn, List.take_append_drop]
  have hXs : xs = xs.take i ++ xs[i] :: xs.drop (i + 1) := by
    rw [← List.drop_eq_getElem_cons hIn', List.take_append_drop]
  have hPre : (xs.take i).length = (tags.take i).length := by
    rw [List.length_take, List.length_take, h.length]
  have hNodup := h.nodup
  rw [hTags, List.nodup_append, List.nodup_cons] at hNodup
  obtain ⟨-, ⟨hAfter, -⟩, hBefore⟩ := hNodup
  have hNot : tag ∉ keepTags p (xs.take i) (tags.take i) := fun hMem =>
    hBefore tag (mem_keepTags hMem) tag List.mem_cons_self rfl
  have hNot' : tag ∉ keepTags p (xs.drop (i + 1)) (tags.drop (i + 1)) := fun hMem => hAfter (mem_keepTags hMem)
  have hLength := length_keepTags hPre.symm p
  conv_lhs => rw [hXs, hTags, keepTags_append p hPre, keepTags_cons]
  rw [List.take_succ_eq_append_getElem hIn', List.forall_mem_append, List.forall_mem_singleton]
  by_cases hHere : p xs[i] = true
  · rw [if_pos hHere, List.singleton_append, getElem?_only hNot hNot', hLength, and_iff_left hHere]
    have hTake : (xs.take i).length = i := List.length_take_of_le hIn'.le
    exact Iff.trans (by rw [hTake]) List.length_filter_eq_length_iff
  · rw [if_neg hHere, List.nil_append]
    refine iff_of_false (fun hSome => ?_) fun hAll => hHere hAll.2
    rcases List.mem_append.mp (List.mem_of_getElem? hSome) with hMem | hMem
    · exact hNot hMem
    · exact hNot' hMem

end Tagging

variable {t : Editing} {a : Action}

theorem step_deleteLead {id : Int} (h : leadNodeId t.state.nodes = some id) : t.step (.deleteNode id) = t := by
  rw [step]
  simp only [reducer, if_pos h]

theorem step_deleteNode {id : Int} (h : leadNodeId t.state.nodes ≠ some id) : t.step (.deleteNode id) =
    { t with
      state :=
        { t.state with
          nodes := t.state.nodes.filter (·.id ≠ id)
          edges := t.state.edges.filter (away id)
          selectedId := if t.state.selectedId = some id then none else t.state.selectedId }
      nodeTags := keepTags (·.id ≠ id) t.state.nodes t.nodeTags
      edgeTags := keepTags (away id) t.state.edges t.edgeTags } := by
  rw [step]
  simp only [reducer, if_neg h]
  rfl

/-- The tags are those of the nodes and edges, each once. -/
structure Tagged (t : Editing) : Prop where
  nodes : Tagging t.state.nodes t.nodeTags t.fresh
  edges : Tagging t.state.edges t.edgeTags t.fresh

theorem tagged_start (s : State) : Tagged (start s) :=
  ⟨Tagging.range s.nodes (Nat.le_max_left _ _), Tagging.range s.edges (Nat.le_max_right _ _)⟩

theorem Tagged.step (h : Tagged t) (hLegal : Legal t.state a) : Tagged (t.step a) := by
  obtain ⟨hNodes, hEdges⟩ := h
  cases a with
  | setFlow spec => exact hLegal.elim
  | clear => exact hLegal.elim
  | addNode node nextId edge =>
    refine ⟨hNodes.push node, ?_⟩
    cases edge with
    | none => simpa [Editing.step, reducer] using hEdges.mono (Nat.le_succ t.fresh)
    | some e => exact hEdges.push e
  | deleteNode id =>
    by_cases hLead : leadNodeId t.state.nodes = some id
    · rw [step_deleteLead hLead]
      exact ⟨hNodes, hEdges⟩
    · rw [step_deleteNode hLead]
      exact ⟨hNodes.keep _, hEdges.keep _⟩
  | addEdge e => exact ⟨hNodes.mono (Nat.le_succ _), hEdges.push e⟩
  | deleteEdge i => exact ⟨hNodes, hEdges.erase i⟩
  | select id => exact ⟨hNodes, hEdges⟩
  | selectEdge index => exact ⟨hNodes, hEdges⟩
  | updateEdge index patch => exact ⟨hNodes, hEdges.of_length (List.length_modify _ _ _)⟩
  | _ => exact ⟨hNodes.of_length (List.length_map _), hEdges⟩

theorem Faithful.update (h : Faithful t) {f : GraphNode → GraphNode} (hId : ∀ n, (f n).id = n.id) :
    Faithful { t with state := { t.state with nodes := t.state.nodes.map f } } := by
  have hIds : ids { t.state with nodes := t.state.nodes.map f } = ids t.state := by
    rw [ids, ids, List.map_map]
    exact List.map_congr_left fun n _ => hId n
  refine ⟨?_, ?_, ?_, fun id hSelected => ?_, h.edge⟩
  · rw [hIds]
    exact h.distinct
  · rw [hIds]
    exact h.next
  · rw [hIds]
    exact h.joined
  · obtain ⟨n, tag, hMem, hSame, hTag⟩ := h.node id hSelected
    refine ⟨f n, tag, ?_, (hId n).trans hSame, hTag⟩
    rw [List.zip_map_left]
    exact List.mem_map.mpr ⟨(n, tag), hMem, rfl⟩

theorem Faithful.add (hTagged : Tagged t) (h : Faithful t) {node : GraphNode} {nextId : Int} {edge : Option GraphEdge}
    (hLegal : Legal t.state (.addNode node nextId edge)) : Faithful (t.step (.addNode node nextId edge)) := by
  obtain ⟨hId, rfl, hEdge⟩ := hLegal
  have hIds : ids (t.step (.addNode node (t.state.nextId + 1) edge)).state = ids t.state ++ [node.id] := List.map_append
  refine ⟨?_, fun id hMem => ?_, fun e he => ?_, fun id hSelected => ?_, fun _ h => by cases h⟩
  · rw [hIds, List.nodup_append]
    refine ⟨h.distinct, List.nodup_singleton _, fun id hMem id' hMem' hSame => ?_⟩
    have hLt := h.next id hMem
    rw [hSame, List.mem_singleton.mp hMem', hId] at hLt
    exact Int.lt_irrefl _ hLt
  · rw [hIds] at hMem
    rcases List.mem_append.mp hMem with hMem | hMem
    · exact Int.lt_add_one_of_le (h.next id hMem).le
    · rw [List.mem_singleton.mp hMem, hId]
      exact Int.lt_succ _
  · rw [hIds]
    rcases List.mem_append.mp he with he | he
    · obtain ⟨hFrom, hTo⟩ := of_decide_eq_true (h.joined e he)
      exact decide_eq_true ⟨List.mem_append_left _ hFrom, List.mem_append_left _ hTo⟩
    · exact hEdge e (Option.mem_toList.mp he)
  · refine ⟨node, t.fresh, ?_, Option.some.inj hSelected, rfl⟩
    have hZip : (t.state.nodes ++ [node]).zip (t.nodeTags ++ [t.fresh]) =
        t.state.nodes.zip t.nodeTags ++ [(node, t.fresh)] := List.zip_append hTagged.nodes.length.symm
    exact hZip ▸ List.mem_append_right _ List.mem_cons_self

theorem Faithful.delete (hTagged : Tagged t) (h : Faithful t) {id : Int} (hLead : leadNodeId t.state.nodes ≠ some id) :
    Faithful (t.step (.deleteNode id)) ↔ ∀ index ∈ t.state.selectedEdgeIndex, ∀ e ∈ t.state.edges.take (index + 1),
      away id e = true := by
  rw [step_deleteNode hLead]
  have hIds : (t.state.nodes.filter (·.id ≠ id)).map (·.id) = (ids t.state).filter (· ≠ id) := by
    rw [ids, List.filter_map]
    rfl
  constructor
  · intro hFaithful index hIndex
    obtain ⟨-, tag, -, hTag, hChosen⟩ := hFaithful.edge index hIndex
    obtain ⟨-, tag', -, hTag', hChosen'⟩ := h.edge index hIndex
    obtain rfl : tag' = tag := Option.some.inj (hChosen'.symm.trans hChosen)
    exact (keepTags_same hTagged.edges hTag' _).mp hTag
  · intro hSafe
    refine ⟨?_, fun id' hMem => ?_, fun e he => ?_, fun id' hSelected => ?_, fun index hIndex => ?_⟩
    · rw [ids, hIds]
      exact h.distinct.filter _
    · rw [ids, hIds] at hMem
      exact h.next id' (List.mem_of_mem_filter hMem)
    · obtain ⟨hMem, hAway⟩ := List.mem_filter.mp he
      obtain ⟨hFrom, hTo⟩ := of_decide_eq_true (h.joined e hMem)
      obtain ⟨hFrom', hTo'⟩ := of_decide_eq_true hAway
      rw [ids, hIds]
      exact decide_eq_true ⟨List.mem_filter.mpr ⟨hFrom, decide_eq_true hFrom'⟩,
        List.mem_filter.mpr ⟨hTo, decide_eq_true hTo'⟩⟩
    · simp only at hSelected
      split_ifs at hSelected with hSame
      obtain ⟨n, tag, hMem, hId, hTag⟩ := h.node id' hSelected
      refine ⟨n, tag, ?_, hId, hTag⟩
      rw [zip_keepTags hTagged.nodes.length, List.mem_filter]
      refine ⟨hMem, decide_eq_true fun hGone => hSame ?_⟩
      rw [hSelected, ← hId, hGone]
    · obtain ⟨e, tag, -, hTag, hChosen⟩ := h.edge index hIndex
      have hKept := (keepTags_same hTagged.edges hTag _).mpr (hSafe index hIndex)
      have hLt := (List.getElem?_eq_some_iff.mp hKept).1
      rw [length_keepTags hTagged.edges.length] at hLt
      exact ⟨_, tag, List.getElem?_eq_getElem hLt, hKept, hChosen⟩

theorem Faithful.deleteEdge (hTagged : Tagged t) (h : Faithful t) {i : Nat} :
    Faithful (t.step (.deleteEdge i)) ↔ ∀ index ∈ t.state.selectedEdgeIndex, index ≤ i := by
  have hSame {index : Nat} (hIndex : t.state.selectedEdgeIndex = some index) (hNe : index ≠ i) :
      (t.step (.deleteEdge i)).state.selectedEdgeIndex = some index := by
    refine (if_neg ?_).trans hIndex
    rw [hIndex]
    exact fun h => hNe (Option.some.inj h)
  constructor
  · intro hFaithful index hIndex
    by_contra hLt
    obtain ⟨-, tag, -, hTag, hChosen⟩ := hFaithful.edge index (hSame hIndex (by omega))
    obtain ⟨-, tag', -, hTag', hChosen'⟩ := h.edge index hIndex
    obtain rfl : tag' = tag := Option.some.inj (hChosen'.symm.trans hChosen)
    have hNext : t.edgeTags[index + 1]? = some tag' := by
      refine Eq.trans ?_ hTag
      exact (List.getElem?_eraseIdx_of_ge (by omega)).symm
    have hLength := (List.getElem?_eq_some_iff.mp hTag').1
    have := (List.getElem?_inj hLength hTagged.edges.nodup).mp (hTag'.trans hNext.symm)
    omega
  · intro hSafe
    refine ⟨h.distinct, h.next, fun e he => h.joined e (List.mem_of_mem_eraseIdx he), h.node, fun index hIndex => ?_⟩
    have hBoth : t.state.selectedEdgeIndex = some index ∧ index ≠ i := by
      have hIf : (if t.state.selectedEdgeIndex = some i then none else t.state.selectedEdgeIndex) = some index := hIndex
      split_ifs at hIf with hHere
      exact ⟨hIf, fun hSame => hHere (hSame ▸ hIf)⟩
    have hLt : index < i := by
      have := hSafe index hBoth.1
      omega
    obtain ⟨e, tag, hAt, hTag, hChosen⟩ := h.edge index hBoth.1
    exact ⟨e, tag, (List.getElem?_eraseIdx_of_lt hLt).trans hAt, (List.getElem?_eraseIdx_of_lt hLt).trans hTag, hChosen⟩

theorem find_tag (hTagged : Tagged t) {id : Int} (hMem : id ∈ ids t.state) :
    ∃ n tag, (n, tag) ∈ t.state.nodes.zip t.nodeTags ∧ n.id = id ∧ t.tagOf id = some tag := by
  rw [ids, ← List.map_fst_zip hTagged.nodes.length.ge, List.map_map] at hMem
  obtain ⟨pair, hPair, hId⟩ := List.mem_map.mp hMem
  obtain ⟨found, hFind⟩ := Option.isSome_iff_exists.mp
    (List.find?_isSome (p := fun q : GraphNode × Nat => decide (q.1.id = id)).mpr ⟨pair, hPair, decide_eq_true hId⟩)
  have hHere : found.1.id = id := by simpa using List.find?_some hFind
  exact ⟨found.1, found.2, List.mem_of_find?_eq_some hFind, hHere, congrArg (Option.map Prod.snd) hFind⟩

theorem faithful_step_iff (hTagged : Tagged t) (h : Faithful t) (hLegal : Legal t.state a) :
    Faithful (t.step a) ↔ Safe t.state a := by
  cases a with
  | setFlow spec => exact hLegal.elim
  | clear => exact hLegal.elim
  | addNode node nextId edge => exact iff_of_true (h.add hTagged hLegal) trivial
  | deleteNode id =>
    by_cases hLead : leadNodeId t.state.nodes = some id
    · rw [step_deleteLead hLead]
      exact iff_of_true h (.inl hLead)
    · exact (h.delete hTagged hLead).trans (or_iff_right hLead).symm
  | deleteEdge i => exact h.deleteEdge hTagged
  | addEdge e =>
    refine iff_of_true ⟨h.distinct, h.next, fun e' he => ?_, h.node, fun index hIndex => ?_⟩ trivial
    · rcases List.mem_append.mp he with he | he
      · exact h.joined e' he
      · exact List.mem_singleton.mp he ▸ hLegal
    · obtain ⟨e', tag, hAt, hTag, hChosen⟩ := h.edge index hIndex
      exact ⟨e', tag, (List.getElem?_append_left (List.getElem?_eq_some_iff.mp hAt).1).trans hAt,
        (List.getElem?_append_left (List.getElem?_eq_some_iff.mp hTag).1).trans hTag, hChosen⟩
  | select id =>
    refine iff_of_true ⟨h.distinct, h.next, h.joined, fun n hSelected => ?_, fun _ hNone => by cases hNone⟩ trivial
    obtain rfl : id = some n := hSelected
    exact find_tag hTagged (hLegal n rfl)
  | selectEdge index =>
    refine iff_of_true ⟨h.distinct, h.next, h.joined, fun _ hNone => (by cases hNone), fun i hIndex => ?_⟩ trivial
    obtain rfl : index = some i := hIndex
    have hLt : i < t.state.edges.length := hLegal i rfl
    have hLt' : i < t.edgeTags.length := hTagged.edges.length ▸ hLt
    exact ⟨_, _, List.getElem?_eq_getElem hLt, List.getElem?_eq_getElem hLt', List.getElem?_eq_getElem hLt'⟩
  | updateEdge i patch =>
    refine iff_of_true ⟨h.distinct, h.next, fun e he => ?_, h.node, fun index hIndex => ?_⟩ trivial
    · obtain ⟨j, hj⟩ := List.mem_iff_getElem?.mp he
      obtain ⟨e₀, hAt, rfl⟩ := Option.map_eq_some_iff.mp ((List.getElem?_modify _ _ _ _).symm.trans hj)
      have hJoined := h.joined e₀ (List.mem_of_getElem? hAt)
      split_ifs
      · exact hJoined
      · exact hJoined
    · obtain ⟨e, tag, hAt, hTag, hChosen⟩ := h.edge index hIndex
      have hSome : index < (t.step (.updateEdge i patch)).state.edges.length := by
        refine Nat.lt_of_lt_of_eq (List.getElem?_eq_some_iff.mp hAt).1 (List.length_modify _ _ _).symm
      exact ⟨_, tag, List.getElem?_eq_getElem hSome, hTag, hChosen⟩
  | updateNodeName id name => exact iff_of_true (h.update fun n => by split_ifs <;> rfl) trivial
  | updateNodeConfig id key value => exact iff_of_true (h.update fun n => by split_ifs <;> rfl) trivial
  | updateNodePosition id x y => exact iff_of_true (h.update fun n => by split_ifs <;> rfl) trivial
  | updateNodeProduces id produces => exact iff_of_true (h.update fun n => by split_ifs <;> rfl) trivial

theorem faithful_run_iff {actions : List Action} (hTagged : Tagged t) (h : Faithful t) (hLegal : Along Legal t actions) :
    Throughout Faithful t actions ↔ Along Safe t actions := by
  induction actions generalizing t with
  | nil => exact iff_of_true h trivial
  | cons a actions ih =>
    obtain ⟨hFirst, hRest⟩ := hLegal
    have hStep := faithful_step_iff hTagged h hFirst
    have hStart : ∀ t' : Editing, Throughout Faithful t' actions → Faithful t' := fun t' hAll => by
      cases actions with
      | nil => exact hAll
      | cons _ _ => exact hAll.1
    constructor
    · rintro ⟨-, hAll⟩
      have hNext := hStart _ hAll
      exact ⟨hStep.mp hNext, (ih (hTagged.step hFirst) hNext hRest).mp hAll⟩
    · rintro ⟨hSafe, hAll⟩
      have hNext := hStep.mpr hSafe
      exact ⟨h, (ih (hTagged.step hFirst) hNext hRest).mpr hAll⟩

theorem faithful_start {spec : FlowSpec} (hValid : Valid spec) : Faithful (start (setFlow spec)) where
  distinct := by
    obtain ⟨new, k, extra, hForm⟩ := form hValid
    exact hForm.distinct
  next id hMem := by
    obtain ⟨n, hn, rfl⟩ := List.mem_map.mp hMem
    exact Int.lt_add_one_of_le ((le_foldl_max _ 0).2 n hn)
  joined e he := (List.mem_filter.mp he).2
  node _ hNone := by cases hNone
  edge _ hNone := by cases hNone

/-- A flow is opened and edited as it should be just if no edge gets an end with the new lead node and no edge goes away
up to the selected one. -/
theorem flow_faithful_iff {spec : FlowSpec} (hValid : Valid spec) {actions : List Action}
    (hLegal : Along Legal (start (setFlow spec)) actions) :
    Opened spec (setFlow spec) ∧ Throughout Faithful (start (setFlow spec)) actions ↔
      NoStray spec ∧ Along Safe (start (setFlow spec)) actions :=
  and_congr (opened_iff hValid) (faithful_run_iff (tagged_start _) (faithful_start hValid) hLegal)

def agent (id : Int) (name type : String) : GraphNode where
  id
  type
  name
  x := 80
  y := 120
  produces := none
  config := fun _ => none

/-- The lead node goes to two others. -/
def twoWays : FlowSpec where
  nodes := [agent 1 "Crony" "agent", agent 2 "writer" "agent", agent 3 "critic" "agent"]
  edges := [{ fromId := 1, toId := 2 }, { fromId := 1, toId := 3 }]

theorem twoWays_valid : Valid twoWays := ⟨by decide, by simp [twoWays, agent]⟩

def edits : List Action := [.selectEdge (some 0), .deleteNode 3, .addEdge { fromId := 2, toId := 1 }]

/-- An edge is selected, the node of another one deleted, and an edge added. -/
theorem edits_faithful : Opened twoWays (setFlow twoWays) ∧ Throughout Faithful (start (setFlow twoWays)) edits := by
  have hLegal : Along Legal (start (setFlow twoWays)) edits := by
    refine ⟨fun i hi => ?_, trivial, ?_, trivial⟩
    · obtain rfl := Option.mem_some.mp hi
      decide
    · change joins _ _ = true
      decide
  have hSafe : Along Safe (start (setFlow twoWays)) edits := by
    refine ⟨trivial, .inr fun i hi => ?_, trivial, trivial⟩
    obtain rfl := Option.mem_some.mp hi
    decide
  have hNoStray : NoStray twoWays := by
    unfold NoStray
    decide
  exact (flow_faithful_iff twoWays_valid hLegal).mpr ⟨hNoStray, hSafe⟩

def strayFlow : FlowSpec where
  nodes := [agent 1 "review" "condition", agent 2 "writer" "agent"]
  edges := [{ fromId := 1, toId := 2 }]

/-- The edge of a node that is gone comes to be one of the new lead node; and an edge is selected after which another
goes away before it. -/
theorem stray_and_shifted :
    (Valid strayFlow ∧ ¬Opened strayFlow (setFlow strayFlow)) ∧
      Valid twoWays ∧ Along Legal (start (setFlow twoWays)) [.selectEdge (some 1), .deleteNode 2] ∧
      ¬Throughout Faithful (start (setFlow twoWays)) [.selectEdge (some 1), .deleteNode 2] := by
  have hValid : Valid strayFlow := ⟨by decide, by simp [strayFlow, agent]⟩
  refine ⟨⟨hValid, fun hOpened => ?_⟩, twoWays_valid, ⟨fun i hi => ?_, trivial, trivial⟩, fun hAll => ?_⟩
  · have hNot := (opened_iff hValid).mp hOpened { fromId := 1, toId := 2 } List.mem_cons_self (by decide)
    revert hNot
    decide
  · obtain rfl := Option.mem_some.mp hi
    decide
  · obtain ⟨e, -, hAt, -⟩ := hAll.2.2.edge 1 rfl
    cases hAt

end Editing

end Cronymax.FlowEditor
