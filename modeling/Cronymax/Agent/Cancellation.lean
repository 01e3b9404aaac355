import Cronymax.Atomic.Interleaving
import Cronymax.Agent.Conversation
import Cronymax.Authority.Absorbing

/-! Tools of a run that has ended.  A loop looks at the status of its run before each turn, and in the
turn it does not look again.  So it starts no tool of an ended run unless the run ends in the middle of
a turn, or an approval brings the run back to life. -/

namespace Cronymax.Agent

open Atomic Authority

/-- The action starts a tool of the run. -/
def StartsTool (runId : RunId) (x : Act) : Prop :=
  match x with
  | .dispatch r _ | .dispatchApproved r _ => r = runId
  | _ => False

/-- The look at the status of the run with which a turn begins. -/
def check (runId : RunId) : Act := .locked (.runStatus runId)

/-- The last look at the status has found the run to go on. -/
def Checked (runId : RunId) (past : List (Act × World)) : Prop :=
  ∃ earlier v mid, past = earlier ++ (check runId, v) :: mid ∧ v.authority.ended runId = false ∧
    ∀ u, (check runId, u) ∉ mid

/-- The section makes an ended run run again. -/
def Reopens (w : RuntimeAuthority) (runId : RunId) (x : Section) : Prop :=
  match x with
  | .operation (.resolveReview r reviewId decision _) =>
    r = runId ∧ decision = .approved ∧ w.awaits r reviewId
  | .operation (.startRunWithSession spaceId agentId _ _ drawn) =>
    drawn = runId ∧ w.accepts spaceId agentId
  | _ => False

/-- The section of the authority that an access is. -/
def Act.locks : Act → Option Section
  | .locked x | .tool (.authority x) => some x
  | _ => none

section Events

variable {ι : Type} (runId : RunId) (i : ι) (es : List (ι × Act × World))

/-- The thread starts no tool of the run once the run has ended. -/
def NoToolAfterEnd : Prop :=
  ∀ pre x w post, es = pre ++ (i, x, w) :: post → StartsTool runId x →
    ∀ e ∈ pre ++ [(i, x, w)], e.2.2.authority.ended runId = false

/-- No action reopens the run once it has ended. -/
def NotReopened : Prop :=
  ∀ e ∈ es, e.2.2.authority.ended runId →
    ∀ x, e.2.1.locks = some x → ¬Reopens e.2.2.authority runId x

/-- The run does not end between a turn's look at the status and the start of a tool of that turn. -/
def EndsBetweenTurns : Prop :=
  ∀ pre v mid x w post, es = pre ++ (i, check runId, v) :: (mid ++ (i, x, w) :: post) →
    StartsTool runId x → (∀ u, (i, check runId, u) ∉ mid) → v.authority.ended runId = false →
      ∀ e ∈ mid ++ [(i, x, w)], e.2.2.authority.ended runId = false

end Events

/-- Remembers the trace, and demands that a tool starts only after a look at the status. -/
def checks (runId : RunId) : Watch (List (Act × World)) Act World where
  assumes _ _ _ := True
  demands past x _ := StartsTool runId x → Checked runId past
  next past x w := past ++ [(x, w)]

theorem checks_after {runId : RunId} (past tr : List (Act × World)) :
    (checks runId).after past tr = past ++ tr := by
  induction tr generalizing past with
  | nil => exact (List.append_nil past).symm
  | cons e tr ih => exact (ih _).trans (List.append_assoc _ _ _)

theorem Checked.append {runId : RunId} {past : List (Act × World)} (h : Checked runId past) {x : Act}
    (hx : x ≠ check runId) (w : World) : Checked runId (past ++ [(x, w)]) := by
  obtain ⟨earlier, v, mid, rfl, hLive, hMid⟩ := h
  refine ⟨earlier, v, mid ++ [(x, w)], by simp, hLive, fun u hu => ?_⟩
  obtain hu | hu := List.mem_append.mp hu
  · exact hMid u hu
  · obtain ⟨rfl, -⟩ := Prod.mk.inj (List.mem_singleton.mp hu)
    exact hx rfl

theorem checked_passes {runId : RunId} {x : Act} (hx : x ≠ check runId) :
    Passes (checks runId) (Checked runId) x :=
  fun _ w hChecked => ⟨fun _ => hChecked, hChecked.append hx w⟩

theorem run_checks {runId : RunId} {config : LoopConfig} {l : ReactLoop} {past : List (Act × World)}
    (hLoop : IsLoop runId config l) : l.run.Meets (checks runId) (fun _ _ => True) past := by
  have hStep : ∀ x, ReactLoop.ToolStep runId x → Passes (checks runId) (Checked runId) x := fun x hx =>
    checked_passes (by cases hx <;> nofun)
  have hKept := isLoop_kept runId config
  refine ReactLoop.run_rule hKept (fun _ ctx call _ hLoop hm =>
    ReactLoop.runOneTool_rule hStep hKept hLoop ctx call hm) (fun _ _ => checked_passes nofun)
    (fun _ _ _ hFalse => hFalse.elim) (fun past w status hStatus hLive => ?_) hLoop
  refine ⟨past, w, [], rfl, ?_, fun _ hu => nomatch hu⟩
  rw [RuntimeAuthority.ended, hStatus, Option.any_some, hLive]

theorem ended_apply {w : RuntimeAuthority} {runId : RunId} {x : Section} (hEnded : w.ended runId)
    (hNot : ¬Reopens w runId x) : (x.apply w).ended runId := by
  obtain ⟨status, hStatus, hTerminal⟩ := ended_iff.mp hEnded
  have hMoves : ∀ next, x.moves w runId = some next → next.isTerminal := by
    intro next hNext
    have hRefused : ∀ t ∈ [.cancel, .pause, .resume, .markRunning], ∀ r,
        w.moved r t runId ≠ some next := by
      intro t ht r hMoved
      rw [moved_of_ended r (next_of_terminal ht) hEnded] at hMoved
      cases hMoved
    cases x with
    | operation o =>
      cases o with
      | cancelRun r => exact absurd hNext (hRefused .cancel (by simp) r)
      | pauseRun r => exact absurd hNext (hRefused .pause (by simp) r)
      | resumeRun r => exact absurd hNext (hRefused .resume (by simp) r)
      | startRunWithSession spaceId agentId spec sessionId drawn =>
        simp only [Section.moves, Operation.moves, Option.ite_none_right_eq_some] at hNext
        exact absurd ⟨hNext.1.1.symm, hNext.1.2⟩ hNot
      | openReview r request drawn =>
        simp only [Section.moves, Operation.moves, hStatus, Option.any_some, hTerminal,
          Bool.not_true, Bool.false_eq_true, and_false, if_false] at hNext
        cases hNext
      | resolveReview r reviewId decision notes =>
        simp only [Section.moves, Operation.moves, Option.ite_none_right_eq_some] at hNext
        obtain ⟨⟨rfl, hDecision, hAwaits, -⟩, -⟩ := hNext
        exact absurd ⟨rfl, hDecision, hAwaits⟩ hNot
      | _ => cases hNext
    | markRunning r => exact absurd hNext (hRefused .markRunning (by simp) r)
    | complete r | fail r message =>
      simp only [Section.moves, RuntimeAuthority.moved, Option.ite_none_right_eq_some, hStatus,
        Option.bind_some, Transition.next, Option.some_inj] at hNext
      rw [← hNext.2]
      rfl
    | _ => cases hNext
  refine ended_iff.mpr ?_
  rw [x.status_after]
  cases hMove : x.moves w runId with
  | none => exact ⟨status, hStatus, hTerminal⟩
  | some next => exact ⟨next, rfl, hMoves next hMove⟩

theorem act_ended {w : World} {runId : RunId} {x : Act} (hEnded : w.authority.ended runId)
    (hNot : ∀ y, x.locks = some y → ¬Reopens w.authority runId y) :
    (Acts.apply x w).authority.ended runId := by
  cases x with
  | locked y => exact ended_apply hEnded (hNot y rfl)
  | tool t =>
    cases t with
    | authority y => exact ended_apply hEnded (hNot y rfl)
    | handle handler arguments => exact hEnded
  | _ => exact hEnded

section Interleavings

variable {ι : Type} [DecidableEq ι] {c : Pool ι Act World LoopError Unit} {i : ι} {runId : RunId}
  {config : LoopConfig} {l : ReactLoop}

/-- Unless an ended run is reopened, the loop starts no tool of it exactly when the run never ends
between the look of the loop at its status and a tool of the same turn. -/
theorem no_tool_after_end (hProg : c.prog i = l.run) (hLoop : IsLoop runId config l) (turns : List ι)
    (hReopened : NotReopened runId (c.events turns)) :
    NoToolAfterEnd runId i (c.events turns) ↔ EndsBetweenTurns runId i (c.events turns) := by
  have hSticky : Prog.Sticky (fun w : World => w.authority.ended runId = true)
      ((c.events turns).map (·.2)) := by
    intro e he hEnded
    obtain ⟨e', he', rfl⟩ := List.mem_map.mp he
    exact act_ended hEnded fun y hy => hReopened e' he' hEnded y hy
  constructor
  · intro hNone pre v mid x w post hSplit hStarts _ _ e he
    refine hNone (pre ++ (i, check runId, v) :: mid) x w post ?_ hStarts e ?_
    · rw [hSplit, List.append_assoc, List.cons_append]
    · rw [List.append_assoc, List.cons_append]
      exact List.mem_append_right _ (List.mem_cons_of_mem _ he)
  · intro hBetween pre x w post hSplit hStarts e he
    obtain ⟨rest, r, -, hRun⟩ := Pool.share_completes turns c i
    rw [hProg, hSplit, share_append, share_cons, if_pos rfl, List.append_assoc] at hRun
    have hAlong := ((@run_checks _ _ _ [] hLoop).sound hRun
      (Watch.along_of_forall fun _ _ _ => trivial)).1
    have hChecked := hAlong.at hStarts
    rw [checks_after, List.nil_append] at hChecked
    obtain ⟨earlier, v, mid, hShare, hLive, hMid⟩ := hChecked
    obtain ⟨before, after, rfl, -, rfl⟩ := share_eq_append hShare
    have hAfter := hBetween before v after x w post (by rw [hSplit]; simp) hStarts
      (fun u hu => hMid u (mem_share.mpr hu)) hLive
    -- what has ended before the look would still have ended when the loop looks
    have hBefore : ∀ e ∈ before ++ [(i, check runId, v)], e.2.2.authority.ended runId = false := by
      have hLook := hSticky.pairwise (Pool.events_chained turns c)
      rw [hSplit, List.append_assoc, List.cons_append, List.map_append] at hLook
      intro e he
      obtain he | he := List.mem_append.mp he
      · have hKept := (List.pairwise_append.mp hLook).2.2 e.2 (List.mem_map_of_mem he)
          (check runId, v) List.mem_cons_self
        rw [← Bool.not_eq_true]
        intro hEnded
        exact Bool.false_ne_true (hLive.symm.trans (hKept hEnded))
      · obtain rfl := List.mem_singleton.mp he
        exact hLive
    rw [List.append_assoc, List.cons_append, ← List.singleton_append, ← List.append_assoc] at he
    obtain he | he := List.mem_append.mp he
    · exact hBefore e he
    · exact hAfter e he

end Interleavings

def callsTwice : World :=
  streaming [.toolCallDelta 0 (some "first") (some "ls") (some "\x7b\x7d"),
    .toolCallDelta 1 (some "second") (some "ls") (some "\x7b\x7d"), .done .toolCalls]

def loopAndHost : Pool Bool Act World LoopError Unit where
  state := callsTwice
  prog isLoop :=
    if isLoop then (ReactLoop.new chatRun chatConfig).run
    else do
      let _ ← ask (lock (.operation (.cancelRun chatRun)))
      pure ()

/-- The run is cancelled after the first tool; the second one is started all the same. -/
theorem tool_after_cancel :
    ¬∀ (c : Pool Bool Act World LoopError Unit) (i : Bool) (runId : RunId) (config : LoopConfig)
      (turns : List Bool), c.prog i = (ReactLoop.new runId config).run →
        NoToolAfterEnd runId i (c.events turns) := by
  intro h
  have hNone := h loopAndHost true chatRun chatConfig [true, true, true, true, false, true] rfl
  let before := [true, true, true, true, false]
  let w := (loopAndHost.play before).state
  have hSplit : loopAndHost.events (before ++ [true]) = loopAndHost.events before ++
      (true, .dispatch chatRun ⟨"second", "ls", "\x7b\x7d"⟩, w) :: [] := by
    rw [Pool.events_append]
    rfl
  have hEnded : w.authority.ended chatRun = true := by decide
  have hLive := hNone _ _ w [] hSplit rfl _ (List.mem_append_right _ List.mem_cons_self)
  exact Bool.false_ne_true (hLive.symm.trans hEnded)

/-- The condition and the property for a loop whose run is cancelled after its first tool. -/
theorem loopAndHost_iff :
    let es := loopAndHost.events [true, true, true, true, false, true]
    NoToolAfterEnd chatRun true es ↔ EndsBetweenTurns chatRun true es := by
  have hQuiet : ∀ e ∈ loopAndHost.events [true, true, true, true, false, true],
      ∀ x, e.2.1.locks = some x → ¬Reopens e.2.2.authority chatRun x := by
    refine List.forall_iff_forall_mem.mp (.intro ?_ (.intro ?_ (.intro ?_ (.intro ?_ (.intro ?_ ?_)))))
    all_goals
      rintro _ ⟨⟩
      try exact id
  exact @no_tool_after_end Bool _ loopAndHost true chatRun chatConfig (.new chatRun chatConfig) rfl
    ⟨rfl, rfl⟩ _ fun e he _ => hQuiet e he

end Cronymax.Agent
