import Cronymax.Authority.Completion
import Cronymax.Authority.Reviews

/-! Whether the decision on a review reaches its waiter.  `open_review_with_completion` opens the review
in one section and keeps the sender in another, while the host learns of the review in between.  A
decision that is accepted there is sent to nobody, and the sender that is kept afterwards is never
used.  Every accepted decision reaches the waiter exactly when none comes so early. -/

namespace Cronymax.Authority

open Atomic

/-- A call of `resolve_review`. -/
structure ReviewAnswer where
  runId : RunId
  decision : PermissionState
  notes : Option String
deriving DecidableEq

namespace ReviewAnswer

def call (a : ReviewAnswer) (reviewId : ReviewId) : Section :=
  .operation (.resolveReview a.runId reviewId a.decision a.notes)

def resolution (a : ReviewAnswer) : ReviewResolution := ⟨a.decision, a.notes⟩

end ReviewAnswer

namespace RuntimeAuthority

variable (w : RuntimeAuthority) (reviewId : ReviewId)

/-- The sender that waits for the review. -/
@[grind =] def sender? : Option Completion := w.inner.pendingResolutions.lookup reviewId

/-- The review is pending. -/
def isOpen : Bool := (w.review? reviewId).any (·.state = .pending)

/-- What the sender has been sent since. -/
def receivedSince (before : RuntimeAuthority) (tx : Completion) : List ReviewResolution :=
  ((w.resolutions.drop before.resolutions.length).filter (·.1 = tx)).map (·.2)

end RuntimeAuthority

/-- The section resolves its review. -/
def Section.isGranted (w : RuntimeAuthority) : Section → Bool
  | .operation (.resolveReview runId reviewId decision _) => w.grants runId reviewId decision
  | _ => false

variable {ι : Type}

/-- A call that opens a review and waits, beside calls that resolve it. -/
def answering (runId : RunId) (request : Value) (drawn : ReviewId) (answers : ι → ReviewAnswer)
    (w : RuntimeAuthority) : Pool (Option ι) Section RuntimeAuthority AuthorityError Reply :=
  ⟨w, fun thread => thread.elim (openReviewWithCompletion runId request drawn) fun i =>
    lock ((answers i).call drawn)⟩

/-- The identifier of a review is not yet in use. -/
structure Unopened (w : RuntimeAuthority) (drawn : ReviewId) : Prop where
  review : w.review? drawn = none
  sender : w.sender? drawn = none

/-- The answer that is accepted, and no other, has reached the call that waits. -/
def Reaches [DecidableEq ι] (answers : ι → ReviewAnswer)
    (c : Pool (Option ι) Section RuntimeAuthority AuthorityError Reply) (turns : List (Option ι))
    (handle : ReviewHandle) : Prop :=
  ∀ i, ((c.play turns).prog (some i)).result = some (.ok .unit) →
    (c.play turns).state.receivedSince c.state handle.completion = [(answers i).resolution] ∧
      (c.play turns).state.sender? handle.id = none

/-- Where a call resolves the review, its sender has been registered. -/
def Registered [DecidableEq ι] (drawn : ReviewId)
    (c : Pool (Option ι) Section RuntimeAuthority AuthorityError Reply)
    (turns : List (Option ι)) : Prop :=
  ∀ e ∈ c.events turns, e.2.1.isGranted e.2.2 → (e.2.2.sender? drawn).isSome

section Decision

variable {w : RuntimeAuthority} {drawn : ReviewId} (a : ReviewAnswer)

theorem isOpen_of_decides (h : w.decides a.runId drawn a.decision) : w.isOpen drawn := by
  unfold RuntimeAuthority.decides RuntimeAuthority.awaits at h
  unfold RuntimeAuthority.isOpen
  cases hReview : w.review? drawn with
  | none => simp [hReview] at h
  | some review => simp_all

theorem isOpen_of_granted (h : (a.call drawn).isGranted w) : w.isOpen drawn := by
  have h : w.grants a.runId drawn a.decision := h
  simp only [RuntimeAuthority.grants, Bool.and_eq_true] at h
  exact isOpen_of_decides a h.1.1

variable (w drawn)

theorem isOpen_call :
    ((a.call drawn).apply w).isOpen drawn =
      (w.isOpen drawn && !w.decides a.runId drawn a.decision) := by
  unfold RuntimeAuthority.isOpen RuntimeAuthority.review?
  rw [Section.reviews_apply]
  dsimp only [ReviewAnswer.call, Section.reviews]
  split
  · rename_i hDecides
    have hDecision : a.decision ≠ .pending := by
      unfold RuntimeAuthority.decides at hDecides
      simp_all
    rw [Table.lookup_modify, if_pos rfl, hDecides]
    cases w.inner.snapshot.reviews.lookup drawn <;> simp [PendingReview.resolve, hDecision]
  · rename_i hDecides
    rw [eq_false_of_ne_true hDecides, Bool.not_false, Bool.and_true]

theorem sender_call : ((a.call drawn).apply w).sender? drawn =
    if (a.call drawn).isGranted w then none else w.sender? drawn := by
  rw [RuntimeAuthority.sender?, Section.senders_apply]
  by_cases hGranted : (a.call drawn).isGranted w
  · have hSenders : (a.call drawn).senders w = w.inner.pendingResolutions.erase drawn :=
      if_pos hGranted
    rw [if_pos hGranted, hSenders, Finmap.lookup_erase]
  · have hSenders : (a.call drawn).senders w = w.inner.pendingResolutions := if_neg hGranted
    rw [if_neg hGranted, hSenders, RuntimeAuthority.sender?]

theorem resolutions_call : ((a.call drawn).apply w).resolutions = w.resolutions ++
    if (a.call drawn).isGranted w then (w.sender? drawn).toList.map (·, a.resolution) else [] :=
  Section.resolutions_apply _

variable {w drawn}

theorem answer_call : w.answer ((a.call drawn).decide w) = .ok .unit ↔ (a.call drawn).isGranted w := by
  have h := resolveReview_answer (w := w) a.runId drawn a.decision a.notes
  dsimp only [ReviewAnswer.call, Section.decide, Operation.decide, Section.isGranted]
  split at h
  · rename_i hGrants
    exact iff_of_true h hGrants
  · rename_i hGrants
    obtain ⟨e, h⟩ := h
    exact iff_of_false (by rw [h]; exact fun h => nomatch h) hGrants

end Decision

section Decisions

variable {answers : ι → ReviewAnswer} {drawn : ReviewId}

/-- The sections of the call that resolves the review, if there is one. -/
def grantedEvents (answers : ι → ReviewAnswer) (drawn : ReviewId)
    (granted : Option (ι × RuntimeAuthority)) : List (Option ι × Section × RuntimeAuthority) :=
  granted.toList.map fun g => (some g.1, (answers g.1).call drawn, g.2)

/-- What calls of `resolve_review` do one after the other from the state `w`: at most one is granted,
and it takes the sender that is kept at the start. -/
structure Answered (answers : ι → ReviewAnswer) (drawn : ReviewId) (w : RuntimeAuthority)
    (es : List (Option ι × Section × RuntimeAuthority))
    (granted : Option (ι × RuntimeAuthority)) : Prop where
  events : es.filter (fun e => e.2.1.isGranted e.2.2) = grantedEvents answers drawn granted
  finds : ∀ g ∈ granted, g.2.sender? drawn = w.sender? drawn
  isOpen : granted.isSome → w.isOpen drawn
  closed : w.isOpen drawn = false ∨ granted.isSome →
    (Prog.after w (es.map (·.2))).isOpen drawn = false
  sender : (Prog.after w (es.map (·.2))).sender? drawn =
    if granted.isSome then none else w.sender? drawn
  sent : (Prog.after w (es.map (·.2))).resolutions = w.resolutions ++
    granted.toList.flatMap fun g => (w.sender? drawn).toList.map (·, (answers g.1).resolution)

theorem Answered.none_of_closed {w : RuntimeAuthority}
    {es : List (Option ι × Section × RuntimeAuthority)} {granted : Option (ι × RuntimeAuthority)}
    (h : Answered answers drawn w es granted) (hClosed : w.isOpen drawn = false) :
    granted = none := by
  cases granted with
  | none => rfl
  | some g =>
    rw [h.isOpen rfl] at hClosed
    cases hClosed

theorem answered_chained {w : RuntimeAuthority}
    {es : List (Option ι × Section × RuntimeAuthority)} (hc : Prog.Chained w (es.map (·.2)))
    (hEvents : ∀ e ∈ es, ∃ i, e.1 = some i ∧ e.2.1 = (answers i).call drawn) :
    ∃ granted, Answered answers drawn w es granted := by
  induction es generalizing w with
  | nil => exact ⟨none, rfl, nofun, nofun, by simp, rfl, (List.append_nil _).symm⟩
  | cons e es ih =>
    obtain ⟨i, hThread, hSection⟩ := hEvents e List.mem_cons_self
    obtain ⟨thread, x, w'⟩ := e
    obtain ⟨rfl, hc⟩ := hc
    obtain rfl : thread = some i := hThread
    obtain rfl : x = (answers i).call drawn := hSection
    have hc : Prog.Chained (((answers i).call drawn).apply w') (es.map (·.2)) := hc
    have hOpen := isOpen_call w' drawn (answers i)
    have hSender := sender_call w' drawn (answers i)
    have hSent := resolutions_call w' drawn (answers i)
    obtain ⟨granted, h⟩ := ih hc fun e he => hEvents e (List.mem_cons_of_mem _ he)
    by_cases hGranted : ((answers i).call drawn).isGranted w'
    · -- the review is decided, so no later call is granted
      have hDecides : w'.decides (answers i).runId drawn (answers i).decision := by
        have hGrants : w'.grants (answers i).runId drawn (answers i).decision := hGranted
        simp only [RuntimeAuthority.grants, Bool.and_eq_true] at hGrants
        exact hGrants.1.1
      have hClosed : (((answers i).call drawn).apply w').isOpen drawn = false := by
        rw [hOpen, hDecides, Bool.not_true, Bool.and_false]
      obtain rfl := h.none_of_closed hClosed
      rw [if_pos hGranted] at hSender hSent
      refine ⟨some (i, w'), ?_, ?_, fun _ => isOpen_of_granted _ hGranted,
        fun _ => h.closed (.inl hClosed), h.sender.trans hSender, ?_⟩
      · rw [List.filter_cons_of_pos (by exact hGranted), h.events]
        rfl
      · rintro g ⟨⟩
        rfl
      · refine h.sent.trans ?_
        rw [hSent]
        simp
    · rw [if_neg hGranted] at hSender hSent
      rw [List.append_nil] at hSent
      refine ⟨granted, ?_, fun g hg => (h.finds g hg).trans hSender, fun hSome => ?_, fun hClosed => ?_,
        ?_, ?_⟩
      · rw [List.filter_cons_of_neg (by exact hGranted), h.events]
      · have hAfter := h.isOpen hSome
        rw [hOpen, Bool.and_eq_true] at hAfter
        exact hAfter.1
      · refine h.closed (hClosed.imp_left fun hClosed => ?_)
        rw [hOpen, hClosed, Bool.false_and]
      · exact h.sender.trans (by rw [hSender])
      · refine h.sent.trans ?_
        rw [hSent, hSender]

end Decisions

section Threads

variable [DecidableEq ι] {turns : List ι}
  {c : Pool ι Section RuntimeAuthority AuthorityError Reply} {i : ι} {x : Section}

theorem lock_ended (hProg : c.prog i = lock x) {e : Section × RuntimeAuthority}
    (he : (i, e) ∈ c.events turns) :
    e.1 = x ∧ ((c.play turns).prog i).result = some (e.2.answer (x.decide e.2)) := by
  have hShare : e ∈ share i (c.events turns) := mem_share.mpr he
  obtain ⟨rest, result, hRest, hYields⟩ := Pool.share_completes turns c i
  rw [hProg] at hYields
  obtain ⟨w, hTr, rfl⟩ := lock_yields hYields
  rcases List.append_eq_singleton_iff.mp hTr with ⟨hNil, -⟩ | ⟨hOne, rfl⟩
  · rw [hNil] at hShare
    cases hShare
  · rw [hOne] at hShare
    obtain rfl := List.mem_singleton.mp hShare
    exact ⟨rfl, hRest.result⟩

theorem lock_result (hProg : c.prog i = lock x) {result : Except AuthorityError Reply}
    (h : ((c.play turns).prog i).result = some result) :
    ∃ w, (i, x, w) ∈ c.events turns ∧ result = w.answer (x.decide w) := by
  have hYields := Pool.yields_of_result h
  rw [hProg] at hYields
  obtain ⟨w, hTr, rfl⟩ := lock_yields hYields
  exact ⟨w, mem_share.mp (by rw [hTr]; exact List.mem_singleton_self _), rfl⟩

end Threads

theorem openReviewWithCompletion_yields {runId : RunId} {request : Value} {drawn : ReviewId}
    {tr : List (Section × RuntimeAuthority)} {handle : ReviewHandle}
    (h : Prog.Yields (openReviewWithCompletion runId request drawn) tr (.ok (.handle handle))) :
    ∃ w₁ w₂, tr = [(.operation (.openReview runId request drawn), w₁),
        (.registerCompletion drawn, w₂)] ∧ handle = ⟨drawn, ⟨w₂.completions⟩⟩ := by
  rcases Prog.yields_bind.mp h with ⟨reply, tr₁, tr₂, rfl, hOpen, hRegister⟩ | ⟨e, hError, -⟩
  · obtain ⟨w₁, rfl, -⟩ := lock_yields hOpen
    obtain ⟨w₂, rfl, hAnswer⟩ := lock_yields hRegister
    cases hAnswer
    exact ⟨w₁, w₂, rfl, rfl⟩
  · cases hError

section Opening

variable (w : RuntimeAuthority) (drawn : ReviewId)

theorem handoff_openReview (runId : RunId) (request : Value) :
    let x := Section.operation (.openReview runId request drawn)
    (x.apply w).sender? drawn = w.sender? drawn ∧ (x.apply w).resolutions = w.resolutions := by
  intro x
  rw [RuntimeAuthority.sender?, x.senders_apply, x.resolutions_apply]
  exact ⟨rfl, List.append_nil _⟩

theorem handoff_registerCompletion :
    let x := Section.registerCompletion drawn
    (x.apply w).sender? drawn = some ⟨w.completions⟩ ∧ (x.apply w).resolutions = w.resolutions ∧
      (x.apply w).isOpen drawn = w.isOpen drawn := by
  intro x
  rw [RuntimeAuthority.sender?, x.senders_apply, x.resolutions_apply]
  exact ⟨Finmap.lookup_insert _, List.append_nil _, rfl⟩

end Opening

section Schedules

variable [DecidableEq ι] {runId : RunId} {request : Value} {drawn : ReviewId}
  {answers : ι → ReviewAnswer} {w : RuntimeAuthority} {turns : List (Option ι)}
  {handle : ReviewHandle}

theorem answering_events
    (hHandle : (((answering runId request drawn answers w).play turns).prog none).result =
      some (.ok (.handle handle))) :
    ∃ pre mid post w₁ w₂, (answering runId request drawn answers w).events turns =
        pre ++ (none, .operation (.openReview runId request drawn), w₁) ::
          (mid ++ (none, .registerCompletion drawn, w₂) :: post) ∧
      handle = ⟨drawn, ⟨w₂.completions⟩⟩ ∧
      ∀ es, es = pre ∨ es = mid ∨ es = post →
        ∀ e ∈ es, ∃ i, e.1 = some i ∧ e.2.1 = (answers i).call drawn := by
  obtain ⟨w₁, w₂, hShare, rfl⟩ := openReviewWithCompletion_yields (Pool.yields_of_result hHandle)
  obtain ⟨pre, rest, hEvents, hPre, hRest⟩ := share_eq_cons hShare
  obtain ⟨mid, post, rfl, hMid, hPost⟩ := share_eq_cons hRest
  refine ⟨pre, mid, post, w₁, w₂, hEvents, rfl, fun es hes e he => ?_⟩
  have hMem : e ∈ (answering runId request drawn answers w).events turns ∧ e.1 ≠ none := by
    rw [hEvents]
    rcases hes with rfl | rfl | rfl
    · exact ⟨by simp [he], hPre e he⟩
    · exact ⟨by simp [he], hMid e he⟩
    · exact ⟨by simp [he], share_eq_nil.mp hPost e he⟩
  obtain ⟨thread, e⟩ := e
  obtain ⟨i, rfl⟩ := Option.ne_none_iff_exists'.mp hMem.2
  exact ⟨i, rfl, (lock_ended rfl hMem.1).1⟩

/-- How the calls fare in a schedule in which the review is opened.  One decision at most is granted:
early, before the sender is kept, or late. -/
structure Handed (answers : ι → ReviewAnswer)
    (c : Pool (Option ι) Section RuntimeAuthority AuthorityError Reply) (turns : List (Option ι))
    (handle : ReviewHandle) (early late : Option (ι × RuntimeAuthority)) : Prop where
  events : (c.events turns).filter (fun e => e.2.1.isGranted e.2.2) =
    grantedEvents answers handle.id early ++ grantedEvents answers handle.id late
  one : early.isSome → late = none
  missed : ∀ g ∈ early, g.2.sender? handle.id = none
  found : ∀ g ∈ late, g.2.sender? handle.id = some handle.completion
  sender : (c.play turns).state.sender? handle.id =
    if late.isSome then none else some handle.completion
  sent : (c.play turns).state.resolutions = c.state.resolutions ++
    late.toList.map fun g => (handle.completion, (answers g.1).resolution)

theorem answering_handed (hFresh : Unopened w drawn)
    (hHandle : (((answering runId request drawn answers w).play turns).prog none).result =
      some (.ok (.handle handle))) :
    ∃ early late, Handed answers (answering runId request drawn answers w) turns handle early late := by
  obtain ⟨pre, mid, post, w₁, w₂, hEvents, rfl, hAnswers⟩ := answering_events hHandle
  have hc : Prog.Chained w _ := Pool.events_chained turns (answering runId request drawn answers w)
  have hPlay : _ = Prog.after w _ := Pool.play_state turns (answering runId request drawn answers w)
  simp only [hEvents, List.map_append, List.map_cons] at hc hPlay
  obtain ⟨hPre, hW₁, hc⟩ := Prog.chained_append.mp hc
  obtain ⟨hMid, hW₂, hPost⟩ := Prog.chained_append.mp hc
  simp only [Prog.after_append, Prog.after_cons, ← hW₁, ← hW₂] at hPlay
  obtain ⟨before, hBefore⟩ := answered_chained hPre (hAnswers pre (by simp))
  obtain ⟨early, hEarly⟩ := answered_chained hMid (hAnswers mid (by simp))
  obtain ⟨late, hLate⟩ := answered_chained hPost (hAnswers post (by simp))
  -- nothing is granted before the review is there
  obtain rfl := hBefore.none_of_closed (by rw [RuntimeAuthority.isOpen, hFresh.review]; rfl)
  obtain ⟨hOpenSender, hOpenSent⟩ := handoff_openReview w₁ drawn runId request
  have hSender₁ : (Acts.apply (Section.operation (.openReview runId request drawn)) w₁).sender? drawn =
      none := by
    refine hOpenSender.trans ?_
    rw [hW₁, hBefore.sender]
    exact hFresh.sender
  have hSent₁ : (Acts.apply (Section.operation (.openReview runId request drawn)) w₁).resolutions =
      w.resolutions := by
    refine hOpenSent.trans ?_
    rw [hW₁, hBefore.sent]
    exact List.append_nil _
  -- what is granted before the sender is kept is sent to nobody
  have hSent₂ : w₂.resolutions = w.resolutions := by
    rw [hW₂, hEarly.sent, hSender₁, hSent₁]
    simp
  have hSender₂ : w₂.sender? drawn = none := by
    rw [hW₂, hEarly.sender, hSender₁, ite_self]
  obtain ⟨hKept, hKeptSent, hKeptOpen⟩ := handoff_registerCompletion w₂ drawn
  refine ⟨early, late, ?_, fun hSome => ?_, fun g hg => (hEarly.finds g hg).trans hSender₁,
    fun g hg => (hLate.finds g hg).trans hKept, ?_, ?_⟩
  · rw [hEvents, List.filter_append, List.filter_cons_of_neg (by exact Bool.false_ne_true),
      List.filter_append, List.filter_cons_of_neg (by exact Bool.false_ne_true), hBefore.events,
      hEarly.events, hLate.events]
    rfl
  · refine hLate.none_of_closed (hKeptOpen.trans ?_)
    rw [hW₂]
    exact hEarly.closed (.inr hSome)
  · rw [hPlay, hLate.sender]
    exact congrArg _ hKept
  · have hSender₃ : (Acts.apply (Section.registerCompletion drawn) w₂).sender? drawn =
        some ⟨w₂.completions⟩ := hKept
    have hSent₃ : (Acts.apply (Section.registerCompletion drawn) w₂).resolutions = w.resolutions :=
      hKeptSent.trans hSent₂
    rw [hPlay, hLate.sent, hSender₃, hSent₃]
    cases late <;> rfl

theorem Handed.mem {c : Pool (Option ι) Section RuntimeAuthority AuthorityError Reply}
    {early late : Option (ι × RuntimeAuthority)} (h : Handed answers c turns handle early late)
    {e : Option ι × Section × RuntimeAuthority} (he : e ∈ c.events turns)
    (hGranted : e.2.1.isGranted e.2.2) :
    ∃ i w, (early = some (i, w) ∨ late = some (i, w)) ∧
      e = (some i, (answers i).call handle.id, w) := by
  have hMem : e ∈ (c.events turns).filter fun e => e.2.1.isGranted e.2.2 :=
    List.mem_filter.mpr ⟨he, hGranted⟩
  rw [h.events] at hMem
  have hOne {granted : Option (ι × RuntimeAuthority)}
      (h : e ∈ grantedEvents answers handle.id granted) :
      ∃ i w, granted = some (i, w) ∧ e = (some i, (answers i).call handle.id, w) := by
    obtain ⟨⟨i, w⟩, hSome, rfl⟩ := List.mem_map.mp h
    exact ⟨i, w, Option.mem_toList.mp hSome, rfl⟩
  rcases List.mem_append.mp hMem with hMem | hMem
  · obtain ⟨i, w, hSome, rfl⟩ := hOne hMem
    exact ⟨i, w, .inl hSome, rfl⟩
  · obtain ⟨i, w, hSome, rfl⟩ := hOne hMem
    exact ⟨i, w, .inr hSome, rfl⟩

/-- Every accepted decision reaches the waiter exactly when none is accepted before the sender is
kept. -/
theorem reaches_iff (hFresh : Unopened w drawn)
    (hHandle : (((answering runId request drawn answers w).play turns).prog none).result =
      some (.ok (.handle handle))) :
    Reaches answers (answering runId request drawn answers w) turns handle ↔
      Registered handle.id (answering runId request drawn answers w) turns := by
  obtain ⟨early, late, h⟩ := answering_handed hFresh hHandle
  have hId : handle.id = drawn := by
    obtain ⟨-, -, -, -, w₂, -, rfl, -⟩ := answering_events hHandle
    rfl
  constructor
  · intro hReaches e he hGranted
    obtain ⟨i, w', rfl | rfl, rfl⟩ := h.mem he hGranted
    · -- a decision that is granted early leaves the sender behind
      have hOk := (lock_ended (x := (answers i).call drawn) rfl he).2
      rw [hId] at hGranted
      rw [(answer_call _).mpr hGranted] at hOk
      have hSender := (hReaches i hOk).2
      rw [h.sender, h.one rfl] at hSender
      cases hSender
    · rw [h.found _ rfl]
      rfl
  · intro hRegistered i hOk
    obtain ⟨w', he, hAnswer⟩ := lock_result (x := (answers i).call drawn) rfl hOk
    have hGranted := (answer_call _).mp hAnswer.symm
    obtain ⟨i', w'', rfl | rfl, hSame⟩ := h.mem he hGranted
    · cases hSame
      have hSome := hRegistered _ he hGranted
      rw [h.missed _ rfl] at hSome
      cases hSome
    · cases hSame
      refine ⟨?_, h.sender⟩
      rw [RuntimeAuthority.receivedSince, h.sent, List.drop_left]
      simp

end Schedules

def promptAndApproval : Pool (Option Unit) Section RuntimeAuthority AuthorityError Reply :=
  answering coder .null shellPrompt (fun _ => ⟨coder, .approved, none⟩)
    (History.play Call.step (inMemory []) started)

/-- The approval comes when the sender is kept, and reaches the waiter. -/
theorem approval_reaches :
    Registered shellPrompt promptAndApproval [none, none, some ()] ∧
      Reaches (fun _ => ⟨coder, .approved, none⟩) promptAndApproval [none, none, some ()]
        ⟨shellPrompt, ⟨0⟩⟩ := by
  have hRegistered : Registered shellPrompt promptAndApproval [none, none, some ()] := by
    unfold Registered
    decide
  exact ⟨hRegistered, (reaches_iff ⟨rfl, rfl⟩ rfl).mpr hRegistered⟩

/-- The approval comes before the sender is kept.  It returns without an error, the waiter receives
nothing, and its sender is still kept. -/
theorem approval_lost :
    let c := promptAndApproval
    let turns := [none, some (), none]
    let handle : ReviewHandle := ⟨shellPrompt, ⟨0⟩⟩
    ((c.play turns).prog none).result = some (.ok (.handle handle)) ∧
    ((c.play turns).prog (some ())).result = some (.ok .unit) ∧
    (c.play turns).state.receivedSince c.state handle.completion = [] ∧
    (c.play turns).state.sender? handle.id = some handle.completion ∧
    ¬Reaches (fun _ => ⟨coder, .approved, none⟩) c turns handle := by
  intro c turns handle
  have hOk : ((c.play turns).prog (some ())).result = some (.ok .unit) := rfl
  have hSender : (c.play turns).state.sender? handle.id = some handle.completion := by decide
  refine ⟨rfl, hOk, by decide, hSender, fun h => ?_⟩
  rw [(h () hOk).2] at hSender
  cases hSender

end Cronymax.Authority
