import Cronymax.Atomic.Interleaving
import Cronymax.Atomic.Lineage
import Cronymax.Flow.Calls

/-! Concurrent edits of `reviews.json`.  Each edit reads the file, writes the edited copy to a
temporary file that all edits share, and renames it; nothing keeps another edit from reading the
file in between.  The file ends up with the edits of its lineage. -/

namespace Cronymax.Flow

open Atomic FlowRuntime

/-- A call that changes the review file: comments, or the state of a revision. -/
inductive ReviewEdit where
  | write (port reviewer : String) (comments : List ReviewComment)
  | upsert (doc node sha : String) (revision : UInt32) (status : String)
deriving DecidableEq

namespace ReviewEdit

def op (flowId runId : String) : ReviewEdit → Op Unit
  | .write port reviewer comments => writeReviewComments flowId runId port reviewer comments
  | .upsert doc node sha revision status =>
    upsertReviewState flowId runId doc node sha revision status

/-- What a call makes of the file it has read. -/
def edit (now : String) : ReviewEdit → Reviews → Reviews
  | .write port reviewer comments, reviews => reviews.addComments port reviewer now comments
  | .upsert doc node sha revision status, reviews =>
    reviews.upsert doc node sha revision status now

/-- The comments that a call writes for the document. -/
def commentsFor (doc : String) : ReviewEdit → List ReviewComment
  | .write port _ comments => if port = doc then comments else []
  | .upsert _ _ _ _ _ => []

/-- The revisions that a call enters for the document. -/
def revisionsFor (doc : String) : ReviewEdit → List (UInt32 × String × String)
  | .write _ _ _ => []
  | .upsert doc' node sha revision _ =>
    if doc' = doc ∧ revision ≠ 0 then [(revision, node, sha)] else []

end ReviewEdit

def Revision.submission (r : Revision) : UInt32 × String × String := (r.rev, r.submittedBy, r.sha)

namespace Reviews

variable (reviews : Reviews)

def commentsOf (doc : String) : List ReviewComment := (reviews.entry doc).comments.map (·.comment)

def submissionsOf (doc : String) : List (UInt32 × String × String) :=
  (reviews.entry doc).revisions.map (·.submission)

theorem entry_insert (doc : String) (e : ReviewEntry) (doc' : String) :
    Reviews.entry (AList.insert doc e reviews) doc' =
      if doc' = doc then e else reviews.entry doc' := by
  unfold entry
  split
  · subst doc'
    rw [AList.lookup_insert]
    rfl
  · rw [AList.lookup_insert_ne ‹_›]

theorem commentsOf_edit (now : String) (e : ReviewEdit) (doc : String) :
    (e.edit now reviews).commentsOf doc = reviews.commentsOf doc ++ e.commentsFor doc := by
  unfold commentsOf
  cases e with
  | write port reviewer comments =>
    simp only [ReviewEdit.edit, addComments, entry_insert, ReviewEdit.commentsFor]
    by_cases h : doc = port
    · subst h
      simp [Function.comp_def]
    · simp [h, Ne.symm h]
  | upsert doc' node sha revision status =>
    simp only [ReviewEdit.edit, Reviews.upsert, entry_insert, ReviewEdit.commentsFor, List.append_nil]
    by_cases h : doc = doc'
    · subst h
      by_cases hZero : revision = 0 <;> simp [hZero]
    · simp [h]

theorem submissionsOf_edit (now : String) (e : ReviewEdit) (doc : String) :
    (e.edit now reviews).submissionsOf doc = reviews.submissionsOf doc ++ e.revisionsFor doc := by
  unfold submissionsOf
  cases e with
  | write port reviewer comments =>
    simp only [ReviewEdit.edit, addComments, entry_insert, ReviewEdit.revisionsFor, List.append_nil]
    by_cases h : doc = port
    · subst h
      simp
    · simp [h]
  | upsert doc' node sha revision status =>
    simp only [ReviewEdit.edit, Reviews.upsert, entry_insert, ReviewEdit.revisionsFor]
    by_cases h : doc = doc'
    · subst h
      by_cases hZero : revision = 0 <;> simp [hZero, Revision.submission]
    · simp [h, Ne.symm h]

theorem unescape_of_not_mem {code char : Char} {cs : List Char}
    (h : char ∉ unescape code char cs) : unescape code char cs = cs := by
  induction cs using unescape.induct code with
  | case1 rest ih => simp [unescape] at h
  | case2 c rest hc ih => simp_all [unescape]
  | case3 c rest hNot ih => simp_all [unescape]
  | case4 => rfl

theorem unescape_of_no_tilde (code char : Char) {cs : List Char} (h : '~' ∉ cs) :
    unescape code char cs = cs := by
  induction cs using unescape.induct code with
  | case1 rest ih => simp at h
  | case2 c rest hc ih => simp at h
  | case3 c rest hNot ih => simp_all [unescape]
  | case4 => rfl

theorem pointed_eq_some_iff {doc : String} (hSlash : '/' ∉ doc.toList) (hTilde : '~' ∉ doc.toList)
    (port : String) : pointed port = some doc ↔ port = doc := by
  unfold pointed
  constructor
  · intro h
    split at h
    · cases h
    · have hDoc := congrArg String.toList (Option.some.inj h)
      rw [String.toList_ofList] at hDoc
      have hOuter := unescape_of_not_mem (hDoc ▸ hTilde)
      rw [hOuter] at hDoc
      have hInner := unescape_of_not_mem (hDoc ▸ hSlash)
      rw [hInner] at hDoc
      exact String.toList_inj.mp hDoc
  · rintro rfl
    rw [if_neg hSlash, unescape_of_no_tilde _ _ hTilde, unescape_of_no_tilde _ _ hTilde,
      String.ofList_toList]

theorem commentsAt_eq (port : String) :
    reviews.commentsAt port = ((pointed port).map reviews.commentsOf).getD [] := by
  unfold commentsAt commentsOf entry
  cases pointed port with
  | none => rfl
  | some doc => cases h : reviews.lookup doc <;> simp [h]

end Reviews

/-- The review file of the run, empty if there is none. -/
def FlowRuntime.reviews (w : FlowRuntime) (flowId runId : String) : Reviews :=
  (w.reviewFiles.lookup (flowId, runId)).getD ∅

/-- Which step on the review file a section is. -/
def Act.fileStep : Act → Option FileStep
  | .readReviews _ _ => some .read
  | .writeReviewsTmp _ _ _ => some .write
  | .renameReviews _ _ => some .rename
  | _ => none

def fileEvents (tr : List (Act × FlowRuntime)) : List (Act × FlowRuntime) :=
  tr.filter (·.1.fileStep.isSome)

theorem ReviewEdit.op_events (flowId runId : String) (e : ReviewEdit)
    {tr : List (Act × FlowRuntime)} (hYields : Prog.Yields (e.op flowId runId) tr (.ok ()))
    (hHealthy : ∀ e ∈ tr, e.2.Healthy) : ∃ now s1 s2 s3, fileEvents tr =
      [(.readReviews flowId runId, s1),
        (.writeReviewsTmp flowId runId (e.edit now (s1.reviews flowId runId)), s2),
        (.renameReviews flowId runId, s3)] := by
  have hWrite (reviews : Reviews) {tr : List (Act × FlowRuntime)}
      (h : Prog.Yields (writeReviews flowId runId reviews) tr (.ok ())) : ∃ s2 s3,
      tr = [(.writeReviewsTmp flowId runId reviews, s2), (.renameReviews flowId runId, s3)] := by
    obtain ⟨s2, tr', rfl, h2⟩ := Prog.yields_perform.mp h
    cases hFault : s2.fault with
    | some e => simp [hFault] at h2
    | none =>
      rw [hFault] at h2
      obtain ⟨s3, tr'', rfl, h3⟩ := Prog.yields_perform.mp h2
      cases hRename : s3.renameFault flowId runId with
      | some e => simp [hRename] at h3
      | none =>
        rw [hRename] at h3
        obtain ⟨rfl, _⟩ := Prog.yields_done.mp h3
        exact ⟨s2, s3, rfl⟩
  have hRead {f : Reviews → Op Unit} (h : Prog.Yields (readReviews flowId runId >>= f) tr (.ok ())) :
      ∃ s1 tr', tr = (.readReviews flowId runId, s1) :: tr' ∧
        Prog.Yields (f (s1.reviews flowId runId)) tr' (.ok ()) := by
    rw [readReviews, bind_assoc] at h
    obtain ⟨s1, tr', hTrace, h1⟩ := Prog.yields_perform.mp h
    have hFault : s1.fault = none :=
      (hHealthy (.readReviews flowId runId, s1) (by simp [hTrace])).fault
    rw [hFault] at h1
    exact ⟨s1, tr', hTrace, h1⟩
  cases e with
  | write port reviewer comments =>
    obtain ⟨s1, tr1, rfl, h1⟩ := hRead hYields
    obtain ⟨s, tr2, rfl, h2⟩ := Prog.yields_act.mp h1
    obtain ⟨s2, s3, rfl⟩ := hWrite _ h2
    exact ⟨s.now, s1, s2, s3, rfl⟩
  | upsert doc node sha revision status =>
    obtain ⟨s1, tr1, rfl, h1⟩ := hRead hYields
    by_cases hZero : revision > 0
    · rw [if_pos hZero] at h1
      obtain ⟨s, tr2, rfl, h2⟩ := Prog.yields_act.mp h1
      obtain ⟨s2, s3, rfl⟩ := hWrite _ h2
      exact ⟨s.now, s1, s2, s3, rfl⟩
    · rw [if_neg hZero] at h1
      obtain ⟨s2, s3, rfl⟩ := hWrite _ h1
      exact ⟨"", s1, s2, s3, rfl⟩

section Apply

variable {w : FlowRuntime}

theorem reviews_apply {a : Act} (h : a.fileStep = none ∨ a.fileStep = some .read)
    (w : FlowRuntime) (flowId runId : String) :
    (a.apply w).reviews flowId runId = w.reviews flowId runId ∧
      (a.apply w).reviewTmps = w.reviewTmps := by
  have hModify (runId' : String) (f : FlowRunState → FlowRunState) :
      (w.modifyRun runId' f).reviews flowId runId = w.reviews flowId runId ∧
        (w.modifyRun runId' f).reviewTmps = w.reviewTmps := by
    unfold modifyRun
    split <;> exact ⟨rfl, rfl⟩
  cases a with
  | writeReviewsTmp | renameReviews => rcases h with h | h <;> cases h
  | transition runId' status reason => exact hModify runId' _
  | _ => first | exact hModify _ _ | exact ⟨rfl, rfl⟩

theorem reviews_apply_write (hw : w.Healthy) (flowId runId : String) (reviews : Reviews) :
    ((Act.writeReviewsTmp flowId runId reviews).apply w).reviews flowId runId =
        w.reviews flowId runId ∧
      ((Act.writeReviewsTmp flowId runId reviews).apply w).reviewTmps.lookup (flowId, runId) =
        some reviews := by
  simp [Act.apply, FlowRuntime.reviews, hw.fault]

theorem reviews_apply_rename (hw : w.Healthy) (flowId runId : String) :
    ((Act.renameReviews flowId runId).apply w).reviews flowId runId =
        (w.reviewTmps.lookup (flowId, runId)).getD (w.reviews flowId runId) ∧
      ((Act.renameReviews flowId runId).apply w).reviewTmps.lookup (flowId, runId) = none := by
  simp only [Act.apply, FlowRuntime.reviews, hw.fault]
  cases h : w.reviewTmps.lookup (flowId, runId) with
  | none => exact ⟨rfl, h⟩
  | some reviews => simp

end Apply

variable {ι : Type} [DecidableEq ι] {flowId runId : String}

/-- Edits of one review file whose steps interleave. -/
def reviewEdits (flowId runId : String) (edits : ι → ReviewEdit) (w : FlowRuntime) :
    Pool ι Act FlowRuntime FlowError Unit where
  state := w
  prog i := (edits i).op flowId runId

@[grind =] def fileSteps (es : List (ι × Act × FlowRuntime)) : List (ι × FileStep) :=
  es.filterMap fun e => e.2.1.fileStep.map (e.1, ·)

theorem mem_fileSteps {i : ι} {s : FileStep} {es : List (ι × Act × FlowRuntime)} :
    (i, s) ∈ fileSteps es ↔ ∃ e ∈ fileEvents (share i es), e.1.fileStep = some s := by
  simp only [fileSteps, fileEvents, List.mem_filterMap, List.mem_filter, mem_share,
    Option.map_eq_some_iff, Prod.mk.injEq]
  constructor
  · rintro ⟨⟨j, e⟩, he, s', hs, rfl, rfl⟩
    exact ⟨e, ⟨he, by simp [hs]⟩, hs⟩
  · rintro ⟨e, ⟨he, _⟩, hs⟩
    exact ⟨(i, e), he, s, hs, rfl, rfl⟩

theorem count_fileSteps (i : ι) (s : FileStep) (es : List (ι × Act × FlowRuntime)) :
    (fileSteps es).count (i, s) =
      (fileEvents (share i es)).countP fun e => e.1.fileStep = some s := by
  induction es with
  | nil => rfl
  | cons e es ih =>
    obtain ⟨j, a, t⟩ := e
    rw [fileSteps, List.filterMap_cons, share_cons]
    unfold fileSteps at ih
    cases hStep : a.fileStep with
    | none => by_cases hj : j = i <;> simpa [hj, fileEvents, hStep] using ih
    | some s' =>
      by_cases hj : j = i
      · by_cases hs : s' = s <;> simpa [hj, hs, fileEvents, hStep] using ih
      · simpa [hj] using ih

theorem append_cons_eq_triple {E : Type} {pre post : List E} {e x y z : E}
    (h : pre ++ e :: post = [x, y, z]) :
    (pre = [] ∧ e = x) ∨ (pre = [x] ∧ e = y) ∨ (pre = [x, y] ∧ e = z) := by
  rcases pre with _ | ⟨a, _ | ⟨b, _ | ⟨c, pre⟩⟩⟩ <;> simp at h <;> simp [h]

/-- The events of edits that have all returned: each of them has read the file, written what it
made of it, and renamed. -/
structure Edited (flowId runId : String) (edit : ι → Reviews → Reviews) (w : FlowRuntime)
    (es : List (ι × Act × FlowRuntime)) : Prop where
  chained : Prog.Chained w (es.map (·.2))
  healthy : ∀ e ∈ es, e.2.2.Healthy
  events : ∀ i, ∃ s1 s2 s3, fileEvents (share i es) =
    [(.readReviews flowId runId, s1),
      (.writeReviewsTmp flowId runId (edit i (s1.reviews flowId runId)), s2),
      (.renameReviews flowId runId, s3)]

/-- The files after some of the events are those of the machine after the steps among them. -/
structure Matches (flowId runId : String) (f : Files ι Reviews) (w : FlowRuntime)
    (pre : List (ι × Act × FlowRuntime)) : Prop where
  file : f.file = w.reviews flowId runId
  tmp : f.tmp = w.reviewTmps.lookup (flowId, runId) ∨ ∀ i, (i, .write) ∉ fileSteps pre
  copy : ∀ i s, (.readReviews flowId runId, s) ∈ share i pre → f.copy i = s.reviews flowId runId

namespace Edited

variable {edit : ι → Reviews → Reviews} {w : FlowRuntime} {es : List (ι × Act × FlowRuntime)}

theorem position (h : Edited flowId runId edit w es) {pre post : List (ι × Act × FlowRuntime)}
    {i : ι} {a : Act} {t : FlowRuntime} (hes : es = pre ++ (i, a, t) :: post)
    (hStep : a.fileStep.isSome = true) :
    (a = .readReviews flowId runId ∧ fileEvents (share i pre) = []) ∨
      (∃ s1, a = .writeReviewsTmp flowId runId (edit i (s1.reviews flowId runId)) ∧
        (.readReviews flowId runId, s1) ∈ share i pre) ∨
      (a = .renameReviews flowId runId ∧ (i, .write) ∈ fileSteps pre) := by
  obtain ⟨s1, s2, s3, hEvents⟩ := h.events i
  rw [hes, share_append, share_cons, if_pos rfl] at hEvents
  unfold fileEvents at hEvents
  rw [List.filter_append, List.filter_cons_of_pos (by exact hStep)] at hEvents
  change fileEvents (share i pre) ++ _ = _ at hEvents
  rcases append_cons_eq_triple hEvents with ⟨hPre, hx⟩ | ⟨hPre, hy⟩ | ⟨hPre, hz⟩
  · exact .inl ⟨congrArg Prod.fst hx, hPre⟩
  · refine .inr (.inl ⟨s1, congrArg Prod.fst hy, List.mem_of_mem_filter (?_ : _ ∈ fileEvents _)⟩)
    rw [hPre]
    exact List.mem_singleton_self _
  · refine .inr (.inr ⟨congrArg Prod.fst hz, mem_fileSteps.mpr
      ⟨(.writeReviewsTmp flowId runId (edit i (s1.reviews flowId runId)), s2), ?_, rfl⟩⟩)
    rw [hPre]
    exact List.mem_cons_of_mem _ (List.mem_singleton_self _)

theorem state (h : Edited flowId runId edit w es) {pre post : List (ι × Act × FlowRuntime)}
    {e : ι × Act × FlowRuntime} (hes : es = pre ++ e :: post) :
    e.2.2 = Prog.after w (pre.map (·.2)) := by
  have hChained := h.chained
  rw [hes, List.map_append, List.map_cons] at hChained
  exact hChained.state

theorem matches_step (h : Edited flowId runId edit w es) {pre post : List (ι × Act × FlowRuntime)}
    {i : ι} {a : Act} {t : FlowRuntime} (hes : es = pre ++ (i, a, t) :: post) {f : Files ι Reviews}
    (hf : Matches flowId runId f t pre) :
    Matches flowId runId (Files.run edit f (fileSteps [(i, a, t)])) (a.apply t)
      (pre ++ [(i, a, t)]) := by
  have hHealthy : t.Healthy := h.healthy (i, a, t) (by simp [hes])
  have hSteps : fileSteps (pre ++ [(i, a, t)]) = fileSteps pre ++ fileSteps [(i, a, t)] :=
    List.filterMap_append
  -- a step other than a read leaves the copies alone
  have hCopy (hNot : a ≠ .readReviews flowId runId) (j : ι) (s : FlowRuntime)
      (hs : (.readReviews flowId runId, s) ∈ share j (pre ++ [(i, a, t)])) :
      f.copy j = s.reviews flowId runId := by
    refine hf.copy j s ?_
    rcases List.mem_append.mp (mem_share.mp hs) with hs | hs
    · exact mem_share.mpr hs
    · exact absurd (Prod.mk.inj (Prod.mk.inj (List.mem_singleton.mp hs)).2).1 hNot.symm
  cases hStep : a.fileStep with
  | none =>
    have hNone : fileSteps [(i, a, t)] = [] := by simp [fileSteps, hStep]
    obtain ⟨hReviews, hTmps⟩ := reviews_apply (.inl hStep) t flowId runId
    rw [hNone]
    refine ⟨hf.file.trans hReviews.symm, ?_, hCopy (by rintro rfl; cases hStep)⟩
    rw [hTmps, hSteps, hNone, List.append_nil]
    exact hf.tmp
  | some step =>
    rcases h.position hes (by rw [hStep]; rfl) with ⟨rfl, hPre⟩ | ⟨s1, rfl, hRead⟩ | ⟨rfl, hWrite⟩
    · obtain ⟨hReviews, hTmps⟩ :=
        reviews_apply (a := .readReviews flowId runId) (.inr rfl) t flowId runId
      refine ⟨hf.file.trans hReviews.symm, ?_, fun j s hs => ?_⟩
      · rw [hTmps, hSteps]
        refine hf.tmp.imp id fun hNone j hj => ?_
        rcases List.mem_append.mp hj with hj | hj
        · exact hNone j hj
        · simp [fileSteps, Act.fileStep] at hj
      · rcases List.mem_append.mp (mem_share.mp hs) with hBefore | hNow
        · by_cases hj : j = i
          · -- an edit reads once
            subst hj
            have hMem : (.readReviews flowId runId, s) ∈ fileEvents (share j pre) :=
              List.mem_filter.mpr ⟨mem_share.mpr hBefore, rfl⟩
            rw [hPre] at hMem
            cases hMem
          · exact (Function.update_of_ne hj _ _).trans (hf.copy j s (mem_share.mpr hBefore))
        · obtain ⟨rfl, hState⟩ := Prod.mk.inj (List.mem_singleton.mp hNow)
          obtain rfl : s = t := (Prod.mk.inj hState).2
          exact (Function.update_self _ _ _).trans hf.file
    · obtain ⟨hReviews, hTmp⟩ :=
        reviews_apply_write hHealthy flowId runId (edit i (s1.reviews flowId runId))
      refine ⟨hf.file.trans hReviews.symm, .inl ?_, hCopy (by simp)⟩
      rw [hTmp, ← hf.copy i s1 hRead]
      rfl
    · obtain ⟨hReviews, hTmp⟩ := reviews_apply_rename hHealthy flowId runId
      refine ⟨?_, .inl hTmp.symm, hCopy (by simp)⟩
      have hTmpBefore := hf.tmp.resolve_right fun hNone => hNone i hWrite
      rw [hReviews, ← hTmpBefore, ← hf.file]
      rfl

theorem reviews_eq (h : Edited flowId runId edit w es) :
    (Prog.after w (es.map (·.2))).reviews flowId runId =
      (Files.lineage (fileSteps es)).foldl (fun d i => edit i d) (w.reviews flowId runId) := by
  rw [← Files.file_run]
  suffices hMatches : ∀ pre post, es = pre ++ post → Matches flowId runId
      (Files.run edit (Files.start (w.reviews flowId runId)) (fileSteps pre))
      (Prog.after w (pre.map (·.2))) pre from (hMatches es [] (List.append_nil es).symm).file.symm
  intro pre
  induction pre using List.reverseRecOn with
  | nil => exact fun post _ => ⟨rfl, .inr (by simp [fileSteps]), by simp⟩
  | append_singleton pre e ih =>
    intro post hes
    obtain ⟨i, a, t⟩ := e
    rw [List.append_assoc] at hes
    have hState : t = Prog.after w (pre.map (·.2)) := h.state hes
    have hStep := h.matches_step hes (hState ▸ ih _ hes)
    have hSteps : fileSteps (pre ++ [(i, a, t)]) = fileSteps pre ++ fileSteps [(i, a, t)] :=
      List.filterMap_append
    rw [hSteps, Files.run_append, List.map_append, Prog.after_append, ← hState]
    exact hStep

theorem lineage_nodup (h : Edited flowId runId edit w es) :
    (Files.lineage (fileSteps es)).Nodup := by
  refine Files.lineage_nodup fun i => ?_
  obtain ⟨s1, s2, s3, hEvents⟩ := h.events i
  rw [count_fileSteps, hEvents]
  rfl

end Edited

theorem edited_of_ok {edits : ι → ReviewEdit} {w : FlowRuntime} {turns : List ι} (hw : w.Healthy)
    (hOk : ∀ i, (((reviewEdits flowId runId edits w).play turns).prog i).result = some (.ok ())) :
    ∃ now : ι → String, Edited flowId runId (fun i => (edits i).edit (now i)) w
      ((reviewEdits flowId runId edits w).events turns) := by
  have hChained := Pool.events_chained turns (reviewEdits flowId runId edits w)
  have hHealthy : ∀ e ∈ (reviewEdits flowId runId edits w).events turns, e.2.2.Healthy :=
    fun e he => hChained.forall (fun a _ h => h.apply a) hw _ (List.mem_map_of_mem he)
  have hShare (i : ι) : ∀ e ∈ share i ((reviewEdits flowId runId edits w).events turns), e.2.Healthy :=
    fun e he => hHealthy (i, e) (mem_share.mp he)
  have hEvents (i : ι) := (edits i).op_events flowId runId (Pool.yields_of_result (hOk i)) (hShare i)
  choose now hEvents using hEvents
  exact ⟨now, hChained, hHealthy, hEvents⟩

/-- What `read_review_comments` returns. -/
def FlowRuntime.commentsRead (w : FlowRuntime) (flowId runId port : String) : List ReviewComment :=
  match ((readReviewComments flowId runId port).run w).1 with
  | .ok comments => comments
  | .error _ => []

theorem commentsRead_eq {w : FlowRuntime} (hw : w.Healthy) (flowId runId port : String) :
    w.commentsRead flowId runId port = (w.reviews flowId runId).commentsAt port := by
  simp only [commentsRead, readReviewComments, readReviews, Prog.perform_bind, Prog.act_bind,
    Prog.run, hw.fault]
  rfl

variable [Fintype ι]

/-- The comments of all edits for a port, each of them once, those of one edit in order. -/
structure Collects (edits : ι → ReviewEdit) (port : String) (added : List ReviewComment) :
    Prop where
  once : (added : Multiset ReviewComment) = ∑ i, ((edits i).commentsFor port : Multiset ReviewComment)
  order : ∀ i, ((edits i).commentsFor port).Sublist added

/-- For each port, the comments of all edits are read after those that were there, and for each
document the file has all revisions that were submitted. -/
structure NothingLost (flowId runId : String) (edits : ι → ReviewEdit) (before after : FlowRuntime) :
    Prop where
  comments : ∀ port, ∃ added, after.commentsRead flowId runId port =
    before.commentsRead flowId runId port ++ added ∧ Collects edits port added
  revisions : ∀ doc, ∃ added, (after.reviews flowId runId).submissionsOf doc =
    (before.reviews flowId runId).submissionsOf doc ++ added ∧
      (added : Multiset (UInt32 × String × String)) = ∑ i, ((edits i).revisionsFor doc : Multiset _)

/-- The comments that the calls named have written for the port. -/
def reachedComments (edits : ι → ReviewEdit) (names : List ι) (port : String) :
    List ReviewComment :=
  ((Reviews.pointed port).map fun doc => names.flatMap fun i => (edits i).commentsFor doc).getD []

/-- Every edit that submits a revision is among `names`, and so is every edit with comments for a
port, where the pointer of the port reaches the document of the port. -/
structure Survive (edits : ι → ReviewEdit) (names : List ι) : Prop where
  comments : ∀ port, if Reviews.pointed port = some port then
      ∀ i, (edits i).commentsFor port ≠ [] → i ∈ names
    else Collects edits port (reachedComments edits names port)
  revisions : ∀ doc i, (edits i).revisionsFor doc ≠ [] → i ∈ names

theorem collects_flatMap_iff {edits : ι → ReviewEdit} {names : List ι} (hNodup : names.Nodup)
    (port : String) : Collects edits port (names.flatMap fun i => (edits i).commentsFor port) ↔
      ∀ i, (edits i).commentsFor port ≠ [] → i ∈ names := by
  rw [← Files.coe_flatMap_eq_sum_iff hNodup]
  refine ⟨Collects.once, fun h => ⟨h, fun i => ?_⟩⟩
  by_cases hNil : (edits i).commentsFor port = []
  · simp [hNil]
  · have hMem := (Files.coe_flatMap_eq_sum_iff hNodup _).mp h i hNil
    exact List.sublist_flatten_of_mem (List.mem_map_of_mem hMem)

/-- Edits under way together that all return: nothing is lost exactly when the lineage of the
file has every edit that submits a revision and every edit with comments for a port that its pointer
reaches, and for any other port, what the lineage has put in the document that the pointer reaches
is what the edits have for the port. -/
theorem nothingLost_iff (flowId runId : String) (edits : ι → ReviewEdit) (w : FlowRuntime)
    (turns : List ι) (hw : w.Healthy)
    (hOk : ∀ i, (((reviewEdits flowId runId edits w).play turns).prog i).result = some (.ok ())) :
    NothingLost flowId runId edits w ((reviewEdits flowId runId edits w).play turns).state ↔
      Survive edits (Files.lineage (fileSteps ((reviewEdits flowId runId edits w).events turns))) := by
  obtain ⟨now, hEdited⟩ := edited_of_ok hw hOk
  have hNodup := hEdited.lineage_nodup
  have hReviews := hEdited.reviews_eq
  have hFinal : ((reviewEdits flowId runId edits w).play turns).state =
      Prog.after w (((reviewEdits flowId runId edits w).events turns).map (·.2)) :=
    Pool.play_state turns (reviewEdits flowId runId edits w)
  have hAfter : ((reviewEdits flowId runId edits w).play turns).state.Healthy := by
    rw [hFinal]
    exact Prog.after_preserves (fun e _ t ht => ht.apply e.1) hw
  rw [← hFinal] at hReviews
  generalize ((reviewEdits flowId runId edits w).play turns).state = after at hReviews hAfter ⊢
  generalize Files.lineage (fileSteps ((reviewEdits flowId runId edits w).events turns)) = names
    at hNodup hReviews ⊢
  have hComments (port : String) : after.commentsRead flowId runId port =
      w.commentsRead flowId runId port ++ reachedComments edits names port := by
    rw [commentsRead_eq hAfter, commentsRead_eq hw, Reviews.commentsAt_eq, Reviews.commentsAt_eq,
      hReviews, reachedComments]
    cases Reviews.pointed port with
    | none => rfl
    | some doc =>
      exact Files.foldl_view (·.commentsOf doc)
        (fun i r => Reviews.commentsOf_edit r (now i) (edits i) doc) names _
  have hRevisions (doc : String) : (after.reviews flowId runId).submissionsOf doc =
      (w.reviews flowId runId).submissionsOf doc ++
        names.flatMap fun i => (edits i).revisionsFor doc := by
    rw [hReviews]
    exact Files.foldl_view (·.submissionsOf doc)
      (fun i r => Reviews.submissionsOf_edit r (now i) (edits i) doc) names _
  have hPort (port : String) : (∃ added, after.commentsRead flowId runId port =
      w.commentsRead flowId runId port ++ added ∧ Collects edits port added) ↔
        if Reviews.pointed port = some port then ∀ i, (edits i).commentsFor port ≠ [] → i ∈ names
        else Collects edits port (reachedComments edits names port) := by
    rw [hComments port]
    simp only [List.append_cancel_left_eq, exists_eq_left']
    split
    · rename_i hPointed
      rw [reachedComments, hPointed]
      exact collects_flatMap_iff hNodup port
    · exact Iff.rfl
  have hDoc (doc : String) : (∃ added, (after.reviews flowId runId).submissionsOf doc =
      (w.reviews flowId runId).submissionsOf doc ++ added ∧
        (added : Multiset (UInt32 × String × String)) = ∑ i, ((edits i).revisionsFor doc : Multiset _)) ↔
          ∀ i, (edits i).revisionsFor doc ≠ [] → i ∈ names := by
    rw [hRevisions doc]
    simp only [List.append_cancel_left_eq, exists_eq_left']
    exact Files.coe_flatMap_eq_sum_iff hNodup _
  exact ⟨fun h => ⟨fun port => (hPort port).mp (h.comments port),
      fun doc => (hDoc doc).mp (h.revisions doc)⟩,
    fun h => ⟨fun port => (hPort port).mpr (h.comments port),
      fun doc => (hDoc doc).mpr (h.revisions doc)⟩⟩

def twoReviews (first : Bool) : ReviewEdit :=
  if first then .write "draft" "critic" [⟨"major", "shorten it", none⟩]
  else .write "draft" "editor" [⟨"minor", "fix the title", none⟩]

def oneByOne : List Bool := List.replicate 4 true ++ List.replicate 4 false

/-- Two reviewers write one after the other. -/
theorem draft_nothing_lost : NothingLost "flow" "run" twoReviews emptyRuntime
    ((reviewEdits "flow" "run" twoReviews emptyRuntime).play oneByOne).state := by
  refine (nothingLost_iff "flow" "run" twoReviews emptyRuntime oneByOne (by decide)
    (fun i => by cases i <;> rfl)).mpr ?_
  have hLineage : Files.lineage (fileSteps
      ((reviewEdits "flow" "run" twoReviews emptyRuntime).events oneByOne)) = [true, false] := by
    decide
  rw [hLineage]
  refine ⟨fun port => ?_, fun doc i _ => by cases i <;> decide⟩
  split
  · exact fun i _ => by cases i <;> decide
  · rename_i hOther
    -- no comment is for a port whose pointer leads elsewhere
    have hNone {doc : String} (h : "draft" ≠ doc) (i : Bool) : (twoReviews i).commentsFor doc = [] := by
      cases i <;> simp [twoReviews, ReviewEdit.commentsFor, h]
    have hDraft : Reviews.pointed port = some "draft" ↔ port = "draft" :=
      Reviews.pointed_eq_some_iff (by decide) (by decide) port
    have hPort : "draft" ≠ port := fun h => hOther (h ▸ hDraft.mpr h.symm)
    have hReached : reachedComments twoReviews [true, false] port = [] := by
      unfold reachedComments
      cases hPointed : Reviews.pointed port with
      | none => rfl
      | some doc =>
        have hDoc : "draft" ≠ doc := fun h => hPort (hDraft.mp (h ▸ hPointed)).symm
        simp [hNone hDoc]
    exact ⟨by simp [hReached, hNone hPort], fun i => by simp [hNone hPort]⟩

def bothReadFirst : List Bool := [true, false, true, true, true, false, false, false]

/-- Both calls return without an error, and the first comment is gone. -/
theorem draft_comment_lost :
    (∀ i, (((reviewEdits "flow" "run" twoReviews emptyRuntime).play bothReadFirst).prog i).result =
      some (.ok ())) ∧
    ¬NothingLost "flow" "run" twoReviews emptyRuntime
      ((reviewEdits "flow" "run" twoReviews emptyRuntime).play bothReadFirst).state := by
  refine ⟨fun i => by cases i <;> rfl, fun h => ?_⟩
  obtain ⟨added, hRead, hAdded⟩ := h.comments "draft"
  have hFound : ((reviewEdits "flow" "run" twoReviews emptyRuntime).play
      bothReadFirst).state.commentsRead "flow" "run" "draft" =
        [⟨"minor", "fix the title", none⟩] := by decide
  have hBefore : emptyRuntime.commentsRead "flow" "run" "draft" = [] := by decide
  rw [hFound, hBefore, List.nil_append] at hRead
  have hOrder := hAdded.order true
  rw [← hRead] at hOrder
  revert hOrder
  decide

end Cronymax.Flow
