import Cronymax.Agent.Conversation
import Cronymax.Atomic.Rely

/-! How far the loop goes: the requests that it makes to the provider, the revisions that its critic
asks for, and its counters.  The loop is modelled once more with the events that report the critic's
passes, whose `revision` is a difference of `u32` numbers; `drive_reporting` says that nothing else is
added. -/

namespace Cronymax.Agent

open Atomic Authority

/-- A conversion to `u32`. -/
def asU32 (n : Nat) : Nat := n % 2 ^ 32

/-- `-` on `u32`: `none` where it underflows. -/
def subU32 (a b : Nat) : Option Nat := if b ≤ a then some (a - b) else none

/-- `+` on `u32`: `none` where it overflows. -/
def addU32 (a b : Nat) : Option Nat := if a + b < 2 ^ 32 then some (a + b) else none

/-- What the loop emits of a critic's verdict. -/
structure CriticResult where
  passed : Bool
  summary : String
  revision : Option Nat
  maxRevisions : Nat

def passedResult (maxRevisions remaining : Nat) : CriticResult where
  passed := true
  summary := ""
  revision := (subU32 (asU32 maxRevisions) (asU32 remaining)).bind (addU32 · 1)
  maxRevisions := asU32 maxRevisions

def revisionResult (maxRevisions remaining : Nat) (issues : List String) : CriticResult where
  passed := false
  summary := "; ".intercalate issues
  revision := subU32 (asU32 maxRevisions) (asU32 remaining)
  maxRevisions := asU32 maxRevisions

namespace ReactLoop

variable (l : ReactLoop)

/-- `finish` with its report. -/
def finishReporting : AgentOp (TurnEnd × List CriticResult) :=
  match l.config.critic with
  | some cfg =>
    if 0 < l.criticRevisionsRemaining then do
      match ← l.runCriticPass cfg with
      | .passed =>
        pure (.stop l (.ok ()), [passedResult cfg.maxRevisions l.criticRevisionsRemaining])
      | .needsRevision issues =>
        let l' := { l with criticRevisionsRemaining := l.criticRevisionsRemaining - 1 }
        pure (.next (l'.push (user ("[CRITIC] Your output has the following issues. " ++
            "Please revise:\n- " ++ "\n- ".intercalate issues))),
          [revisionResult cfg.maxRevisions l'.criticRevisionsRemaining issues])
      | .malformedResponse => pure (.stop l (.ok ()), [])
    else pure (.stop l (.ok ()), [])
  | none => pure (.stop l (.ok ()), [])

/-- `converse` with its report. -/
def converseReporting : AgentOp (TurnEnd × List CriticResult) := do
  let w ← Prog.perform (.stream l.runId .turn l.request)
  match w.stream.bind Reply.empty.read with
  | .error e => pure (.stop l (.error (.provider e)), [])
  | .ok reply =>
    let l' := l.push reply.message
    match reply.finishReason with
    | .toolCalls => (fun e => (e, [])) <$> l'.actOn reply.toolCalls
    | _ => l'.finishReporting

/-- `takeTurn` with its report. -/
def takeTurnReporting : AgentOp (TurnEnd × List CriticResult) := do
  match ← (ask (runStatus l.runId)).attempt with
  | .error e => pure (.stop l (.error e), [])
  | .ok .cancelled | .ok .paused => pure (.stop l (.error .cancelled), [])
  | .ok .succeeded | .ok (.failed _) => pure (.stop l (.ok ()), [])
  | .ok _ => do
    let l' ← reflect { l with turn := l.turn + 1 }
    l'.converseReporting

/-- `drive` with its reports. -/
@[grind =] def driveReporting : Nat → ReactLoop → AgentOp ((ReactLoop × Except LoopError Unit) × List CriticResult)
  | 0, l => pure ((l, .error (.maxTurnsExceeded l.config.maxTurns)), [])
  | turns + 1, l => do
    let (e, results) ← l.takeTurnReporting
    match e with
    | .next l' => (fun r => (r.1, results ++ r.2)) <$> driveReporting turns l'
    | .stop l' result => pure ((l', result), results)

end ReactLoop

section Reporting

variable (l : ReactLoop)

end Reporting

/-- What a stream is asked for. -/
def Act.purpose : Act → Option Purpose
  | .stream _ purpose _ => some purpose
  | _ => none

def Act.isDispatch : Act → Bool
  | .dispatch _ _ => true
  | _ => false

/-- What the streams of a run are asked for, in order. -/
def purposes (tr : List (Act × World)) : List Purpose := tr.filterMap fun e => e.1.purpose

/-- How many tool calls a run dispatches. -/
def dispatches (tr : List (Act × World)) : Nat := tr.countP fun e => e.1.isDispatch

@[simp] theorem purposes_nil : purposes [] = [] := rfl

@[simp] theorem purposes_append (tr tr' : List (Act × World)) :
    purposes (tr ++ tr') = purposes tr ++ purposes tr' := List.filterMap_append

@[simp] theorem dispatches_nil : dispatches [] = 0 := rfl

@[simp] theorem dispatches_append (tr tr' : List (Act × World)) :
    dispatches (tr ++ tr') = dispatches tr + dispatches tr' := List.countP_append

theorem purposes_stream (runId : RunId) (purpose : Purpose) (request : LlmRequest) (w : World)
    (tr : List (Act × World)) :
    purposes ((.stream runId purpose request, w) :: tr) = purpose :: purposes tr := rfl

theorem purposes_silent {x : Act} (h : x.purpose = none) (w : World) (tr : List (Act × World)) :
    purposes ((x, w) :: tr) = purposes tr := List.filterMap_cons_none h

theorem purposes_of_forall {tr : List (Act × World)} (h : ∀ e ∈ tr, e.1.purpose = none) :
    purposes tr = [] := List.filterMap_eq_nil_iff.mpr h

theorem dispatches_cons_le (e : Act × World) (tr : List (Act × World)) :
    dispatches tr ≤ dispatches (e :: tr) := List.Sublist.countP_le (List.sublist_cons_self e tr)

/-- At most so many turns: each is one stream, perhaps after a reflection and before a critic. -/
def Turns (n : Nat) (ps : List Purpose) : Prop :=
  ∃ turns : List (List Purpose), ps = turns.flatten ∧ turns.length ≤ n ∧
    ∀ t ∈ turns, .turn ∈ t ∧ t.Sublist [.reflection, .turn, .critic]

theorem turns_nil (n : Nat) : Turns n [] := ⟨[], rfl, Nat.zero_le n, nofun⟩

theorem turns_one {ps : List Purpose} (hTurn : .turn ∈ ps)
    (hParts : ps.Sublist [.reflection, .turn, .critic]) : Turns 1 ps :=
  ⟨[ps], by simp, Nat.le_refl 1, fun t ht => by
    obtain rfl := List.mem_singleton.mp ht
    exact ⟨hTurn, hParts⟩⟩

theorem Turns.append {n m : Nat} {ps qs : List Purpose} (h : Turns n ps) (h' : Turns m qs) :
    Turns (n + m) (ps ++ qs) := by
  obtain ⟨turns, rfl, hLength, hTurns⟩ := h
  obtain ⟨turns', rfl, hLength', hTurns'⟩ := h'
  refine ⟨turns ++ turns', List.flatten_append.symm, ?_, fun t ht => ?_⟩
  · rw [List.length_append]
    exact Nat.add_le_add hLength hLength'
  · exact (List.mem_append.mp ht).elim (hTurns t) (hTurns' t)

theorem Turns.mono {n m : Nat} {ps : List Purpose} (h : Turns n ps) (hLe : n ≤ m) : Turns m ps := by
  obtain ⟨turns, hFlatten, hLength, hTurns⟩ := h
  exact ⟨turns, hFlatten, hLength.trans hLe, hTurns⟩

theorem Turns.count_le {n : Nat} {ps : List Purpose} (h : Turns n ps) (purpose : Purpose) :
    ps.count purpose ≤ n := by
  obtain ⟨turns, rfl, hLength, hTurns⟩ := h
  refine Nat.le_trans ?_ hLength
  clear hLength
  induction turns with
  | nil => exact Nat.le_refl 0
  | cons t turns ih =>
    have hOnce : t.count purpose ≤ 1 := by
      refine ((hTurns t List.mem_cons_self).2.count_le purpose).trans ?_
      cases purpose <;> decide
    rw [List.flatten_cons, List.count_append, List.length_cons, Nat.add_comm]
    exact Nat.add_le_add (ih fun t ht => hTurns t (List.mem_cons_of_mem _ ht)) hOnce

theorem Turns.length_le {n : Nat} {ps : List Purpose} (h : Turns n ps) : ps.length ≤ 3 * n := by
  obtain ⟨turns, rfl, hLength, hTurns⟩ := h
  refine Nat.le_trans ?_ (Nat.mul_le_mul_left 3 hLength)
  clear hLength
  induction turns with
  | nil => exact Nat.le_refl 0
  | cons t turns ih =>
    have hThree : t.length ≤ 3 := (hTurns t List.mem_cons_self).2.length_le
    have hRest := ih fun t ht => hTurns t (List.mem_cons_of_mem _ ht)
    rw [List.flatten_cons, List.length_append, List.length_cons]
    omega

/-- What tool calls leave of the loop: its counters, save that of the failures, which grows by at most
one for each dispatch. -/
structure Carries (l l' : ReactLoop) (tr : List (Act × World)) : Prop where
  config : l'.config = l.config
  turn : l'.turn = l.turn
  remaining : l'.criticRevisionsRemaining = l.criticRevisionsRemaining
  failures : l'.consecutiveFailures ≤ l.consecutiveFailures + dispatches tr

theorem Carries.refl (l : ReactLoop) (tr : List (Act × World)) : Carries l l tr :=
  ⟨rfl, rfl, rfl, Nat.le_add_right _ _⟩

theorem Carries.trans {l l' l'' : ReactLoop} {tr tr' : List (Act × World)} (h : Carries l l' tr)
    (h' : Carries l' l'' tr') : Carries l l'' (tr ++ tr') where
  config := h'.config.trans h.config
  turn := h'.turn.trans h.turn
  remaining := h'.remaining.trans h.remaining
  failures := by
    have := h.failures
    have := h'.failures
    rw [dispatches_append]
    omega

/-- The operation never fails, asks for no stream, and ends with such a trace and result. -/
def Silent {α : Type} (p : AgentOp α) (Q : List (Act × World) → α → Prop) : Prop :=
  p.Achieves (fun _ => True) fun tr a => purposes tr = [] ∧ Q tr a

section Tools

variable {α β : Type} {l : ReactLoop}

theorem Silent.done {a : α} {Q : List (Act × World) → α → Prop} (h : Q [] a) :
    Silent (.done a : AgentOp α) Q := Prog.Achieves.done ⟨rfl, h⟩

theorem Silent.perform {x : Act} (hx : x.purpose = none) {f : World → AgentOp α}
    {Q : List (Act × World) → α → Prop} (h : ∀ w, Silent (f w) fun tr => Q ((x, w) :: tr)) :
    Silent (Prog.perform x >>= f) Q :=
  Prog.Achieves.perform fun w _ => (h w).mono fun tr _ hTr =>
    ⟨(purposes_silent hx w tr).trans hTr.1, hTr.2⟩

theorem Silent.bind {p : AgentOp α} {f : α → AgentOp β} {P : List (Act × World) → α → Prop}
    {Q : List (Act × World) → β → Prop} (hp : Silent p P)
    (hf : ∀ tr a, P tr a → Silent (f a) fun tr' => Q (tr ++ tr')) : Silent (p >>= f) Q :=
  Prog.Achieves.bind hp fun tr a hTr => (hf tr a hTr.2).mono fun tr' _ hTr' => by
    rw [purposes_append, hTr.1, hTr'.1]
    exact ⟨rfl, hTr'.2⟩

theorem Silent.mono {p : AgentOp α} {P Q : List (Act × World) → α → Prop} (h : Silent p P)
    (hPQ : ∀ tr a, P tr a → Q tr a) : Silent p Q :=
  Prog.Achieves.mono h fun tr a hTr => ⟨hTr.1, hPQ tr a hTr.2⟩

theorem useTool_silent (op : Prog ToolAct World Empty ToolOutcome) :
    Silent (useTool op) fun _ _ => True := by
  rw [useTool]
  induction op with
  | done outcome => exact .done trivial
  | fail e => exact e.elim
  | act x next ih => exact Silent.perform rfl fun w => (ih w).mono fun _ _ _ => trivial

theorem beforeToolCall_silent (ctx : TurnContext) (call : ToolCall) (chain : List Middleware) :
    Silent (ReactLoop.beforeToolCall ctx call chain) fun _ _ => True := by
  induction chain with
  | nil => exact .done trivial
  | cons mw chain ih =>
    refine Silent.perform rfl fun w => ?_
    split
    · exact .done trivial
    · exact ih

theorem resume_silent (call : ToolCall) (resolution : ReviewResolution) :
    Silent (l.resume call resolution) fun _ _ => True := by
  unfold ReactLoop.resume
  split
  · exact Silent.perform rfl fun w => (useTool_silent _).bind fun _ _ _ => .done trivial
  · exact .done trivial
  · exact .done trivial
  · exact .done trivial

theorem review_silent (call : ToolCall) (request : Value) :
    Silent (l.review call request) fun _ _ => True := by
  refine Silent.perform rfl fun drawn => ?_
  have hOpened : Silent (ask (openReviewWithCompletion l.runId (ReactLoop.reviewRequest call request)
      drawn.reviewId)).attempt fun _ _ => True :=
    (ask_isLocked _).attempt_achieves.mono fun tr _ hLocked =>
      ⟨purposes_of_forall fun e he => by
        obtain ⟨y, hy⟩ := hLocked e he
        rw [hy]
        rfl, trivial⟩
  refine hOpened.bind fun _ opened _ => ?_
  split
  · exact .done trivial
  · refine Silent.perform rfl fun w => ?_
    split
    · exact .done trivial
    · exact resume_silent call _
  · exact .done trivial

theorem dispatch_silent (call : ToolCall) :
    Silent (l.dispatch call) fun tr _ => 1 ≤ dispatches tr := by
  refine Silent.perform rfl fun w => (useTool_silent _).bind fun tr outcome _ => ?_
  have hOnce : ∀ tr', 1 ≤ dispatches ((.dispatch l.runId call, w) :: (tr ++ tr')) := fun tr' =>
    Nat.succ_le_of_lt (List.countP_pos_iff.mpr ⟨_, List.mem_cons_self, rfl⟩)
  split
  · exact (review_silent call _).mono fun tr' _ _ => hOnce tr'
  · exact .done (hOnce [])

theorem record_silent (call : ToolCall) (outcome : ToolOutcome) {tr : List (Act × World)}
    (hDispatched : 1 ≤ dispatches tr) :
    Silent (l.record call outcome) fun tr' r => Carries l r.1 (tr ++ tr') := by
  have hReset : ∀ v tr', Carries l ({ l with consecutiveFailures := 0 }.pushResult call v) tr' :=
    fun v tr' => ⟨rfl, rfl, rfl, Nat.zero_le _⟩
  cases outcome with
  | output v => exact .done (hReset v _)
  | terminal v => exact .done (hReset v _)
  | error message =>
    refine .done ⟨rfl, rfl, rfl, ?_⟩
    rw [List.append_nil]
    exact Nat.add_le_add_left hDispatched _
  | needsApproval request => exact .done ⟨rfl, rfl, rfl, Nat.le_add_right _ _⟩
  | spawnsAgent taskId => exact Silent.perform rfl fun w => .done (hReset _ _)

theorem runOneTool_silent (ctx : TurnContext) (call : ToolCall) :
    Silent (l.runOneTool ctx call) fun tr r => Carries l r.1 tr := by
  refine (beforeToolCall_silent ctx call _).bind fun tr gate _ => ?_
  cases gate with
  | block reason => exact .done ⟨rfl, rfl, rfl, Nat.le_add_right _ _⟩
  | allow =>
    refine (dispatch_silent call).bind fun tr' r hDispatched => ?_
    cases r with
    | error e => exact .done (Carries.refl l _)
    | ok outcome =>
      have hBoth : 1 ≤ dispatches (tr ++ tr') := by
        rw [dispatches_append]
        exact hDispatched.trans (Nat.le_add_left _ _)
      refine (record_silent call outcome hBoth).mono fun tr'' _ h => ?_
      rw [← List.append_assoc]
      exact h

theorem runTools_silent (ctx : TurnContext) (terminalSeen : Bool) (calls : List ToolCall) :
    Silent (ReactLoop.runTools ctx l terminalSeen calls) fun tr e => Carries l e.loop tr := by
  induction calls generalizing l terminalSeen with
  | nil =>
    rw [ReactLoop.runTools]
    cases terminalSeen <;> exact .done (Carries.refl l _)
  | cons call calls ih =>
    rw [ReactLoop.runTools]
    refine (runOneTool_silent ctx call).bind fun tr r hFirst => ?_
    obtain ⟨l', step⟩ := r
    have hStops : ∀ tr', tr' = [] → Carries l l' (tr ++ tr') := fun tr' h => by
      rw [h, List.append_nil]
      exact hFirst
    cases step with
    | error e => exact .done (hStops [] rfl)
    | ok step =>
      cases step with
      | «continue» => exact (ih terminalSeen).mono fun _ _ h => hFirst.trans h
      | terminal => exact (ih true).mono fun _ _ h => hFirst.trans h
      | cancelled => exact .done (hStops [] rfl)

theorem actOn_silent (calls : List ToolCall) :
    Silent (l.actOn calls) fun tr e => Carries l e.loop tr := by
  unfold ReactLoop.actOn
  split
  · exact .done (Carries.refl l _)
  · split
    · exact .done (Carries.refl l _)
    · exact runTools_silent _ _ _

end Tools

/-- The bound of the critic, zero without one. -/
def LoopConfig.maxRevisions (config : LoopConfig) : Nat := config.critic.elim 0 (·.maxRevisions)

/-- How many verdicts ask for a revision. -/
def revisions (results : List CriticResult) : Nat := results.countP (!·.passed)

/-- The bound keeps its value as a `u32`, or is not reached. -/
def Fits (maxRevisions revised : Nat) : Prop :=
  maxRevisions < 2 ^ 32 ∨ revised ≤ maxRevisions % 2 ^ 32

/-- What `n` turns make of the loop. -/
structure Advances (n : Nat) (l l' : ReactLoop) (tr : List (Act × World))
    (results : List CriticResult) : Prop where
  config : l'.config = l.config
  turns : Turns n (purposes tr)
  turn : l'.turn ≤ l.turn + n
  failures : l'.consecutiveFailures ≤ l.consecutiveFailures + dispatches tr
  remaining : l'.criticRevisionsRemaining + revisions results = l.criticRevisionsRemaining
  revised : revisions results ≤ n
  numbers : l.criticRevisionsRemaining ≤ l.config.maxRevisions →
    Fits l.config.maxRevisions (l.config.maxRevisions - l.criticRevisionsRemaining + n) →
    ∀ result ∈ results, result.revision.isSome

theorem Advances.mono {n m : Nat} {l l' : ReactLoop} {tr : List (Act × World)}
    {results : List CriticResult} (h : Advances n l l' tr results) (hLe : n ≤ m) :
    Advances m l l' tr results where
  config := h.config
  turns := h.turns.mono hLe
  turn := h.turn.trans (Nat.add_le_add_left hLe _)
  failures := h.failures
  remaining := h.remaining
  revised := h.revised.trans hLe
  numbers := fun hRemaining hFits => h.numbers hRemaining
    (hFits.imp_right fun hLow => (Nat.add_le_add_left hLe _).trans hLow)

theorem Advances.append {n m : Nat} {l l' l'' : ReactLoop} {tr tr' : List (Act × World)}
    {results results' : List CriticResult} (h : Advances n l l' tr results)
    (h' : Advances m l' l'' tr' results') :
    Advances (n + m) l l'' (tr ++ tr') (results ++ results') where
  config := h'.config.trans h.config
  turns := by
    rw [purposes_append]
    exact h.turns.append h'.turns
  turn := by
    have := h.turn
    have := h'.turn
    omega
  failures := by
    have := h.failures
    have := h'.failures
    rw [dispatches_append]
    omega
  remaining := by
    have := h.remaining
    have := h'.remaining
    rw [revisions, List.countP_append]
    simp only [revisions] at *
    omega
  revised := by
    rw [revisions, List.countP_append]
    exact Nat.add_le_add h.revised h'.revised
  numbers := fun hRemaining hFits result hResult => by
    have hLess := h.remaining
    have hFew := h.revised
    rcases List.mem_append.mp hResult with hResult | hResult
    · exact (h.mono (Nat.le_add_right n m)).numbers hRemaining hFits result hResult
    · refine h'.numbers ?_ ?_ result hResult
      · rw [h.config]
        omega
      · rw [h.config]
        refine hFits.imp_right fun hLow => Nat.le_trans ?_ hLow
        omega

theorem subU32_of_fits {maxRevisions remaining : Nat} (hRemaining : remaining ≤ maxRevisions)
    (hFits : Fits maxRevisions (maxRevisions - remaining)) :
    subU32 (asU32 maxRevisions) (asU32 remaining) = some (maxRevisions - remaining) := by
  unfold Fits at hFits
  unfold subU32 asU32
  have hLe : remaining % 2 ^ 32 ≤ maxRevisions % 2 ^ 32 := by omega
  have hDifference : maxRevisions % 2 ^ 32 - remaining % 2 ^ 32 = maxRevisions - remaining := by omega
  rw [if_pos hLe, hDifference]

theorem revisionResult_fits {maxRevisions remaining : Nat} (issues : List String)
    (hRemaining : remaining ≤ maxRevisions) (hFits : Fits maxRevisions (maxRevisions - remaining)) :
    (revisionResult maxRevisions remaining issues).revision.isSome := by
  rw [revisionResult, subU32_of_fits hRemaining hFits]
  rfl

theorem passedResult_fits {maxRevisions remaining : Nat} (hPositive : 0 < remaining)
    (hRemaining : remaining ≤ maxRevisions) (hFits : Fits maxRevisions (maxRevisions - remaining + 1)) :
    (passedResult maxRevisions remaining).revision.isSome := by
  have hBefore : Fits maxRevisions (maxRevisions - remaining) :=
    hFits.imp_right fun hLow => (Nat.le_succ _).trans hLow
  have hSmall : maxRevisions - remaining + 1 < 2 ^ 32 := by
    unfold Fits at hFits
    omega
  rw [passedResult, subU32_of_fits hRemaining hBefore, Option.bind_some, addU32, if_pos hSmall]
  rfl

section Turn

variable {l : ReactLoop}

theorem finishReporting_advances :
    l.finishReporting.Achieves (fun _ => True) fun tr r =>
      (purposes tr = [] ∨ purposes tr = [.critic]) ∧ r.1.loop.turn = l.turn ∧
        Advances 1 l r.1.loop [] r.2 := by
  have hSame : Advances 1 l l [] [] :=
    ⟨rfl, turns_nil 1, Nat.le_succ _, Nat.le_add_right _ _, rfl, Nat.zero_le 1, nofun⟩
  unfold ReactLoop.finishReporting
  cases hCritic : l.config.critic with
  | none => exact .done ⟨.inl rfl, rfl, hSame⟩
  | some cfg =>
    have hMax : l.config.maxRevisions = cfg.maxRevisions := by rw [LoopConfig.maxRevisions, hCritic]; rfl
    dsimp only
    split
    · rename_i hPositive
      have hPass : (l.runCriticPass cfg).Achieves (fun _ => True) fun tr _ => purposes tr = [.critic] := by
        refine .perform fun w _ => ?_
        split
        · exact .done rfl
        · split
          · split <;> exact .done rfl
          · exact .done rfl
      refine hPass.bind fun tr decision hTr => ?_
      have hAsked : ∀ tr', tr' = [] → purposes (tr ++ tr') = [.critic] := fun tr' h => by
        rw [h, List.append_nil, hTr]
      cases decision with
      | passed =>
        refine .done ⟨.inr (hAsked [] rfl), rfl, { hSame with
          remaining := rfl, numbers := fun hRemaining hFits result hResult => ?_ }⟩
        rw [List.mem_singleton.mp hResult]
        rw [hMax] at hRemaining hFits
        exact passedResult_fits hPositive hRemaining hFits
      | needsRevision issues =>
        refine .done ⟨.inr (hAsked [] rfl), rfl, rfl, turns_nil 1, Nat.le_succ _,
          Nat.le_add_right _ _, Nat.sub_add_cancel hPositive, Nat.le_refl 1,
          fun hRemaining hFits result hResult => ?_⟩
        rw [List.mem_singleton.mp hResult]
        rw [hMax] at hRemaining hFits
        refine revisionResult_fits issues ((Nat.sub_le _ _).trans hRemaining) ?_
        refine hFits.imp_right fun hLow => Nat.le_trans ?_ hLow
        omega
      | malformedResponse => exact .done ⟨.inr (hAsked [] rfl), rfl, hSame⟩
    · exact .done ⟨.inl rfl, rfl, hSame⟩

theorem converseReporting_advances :
    l.converseReporting.Achieves (fun _ => True) fun tr r =>
      (purposes tr = [.turn] ∨ purposes tr = [.turn, .critic]) ∧ r.1.loop.turn = l.turn ∧
        ∃ tr', dispatches tr' ≤ dispatches tr ∧ purposes tr' = [] ∧ Advances 1 l r.1.loop tr' r.2 := by
  refine .perform fun w _ => ?_
  have hCarried : ∀ {l' : ReactLoop} {tr : List (Act × World)}, purposes tr = [] → Carries l l' tr →
      Advances 1 l l' tr [] := fun {l' tr} hSilent h =>
    ⟨h.config, hSilent ▸ turns_nil 1, h.turn ▸ Nat.le_succ _, h.failures, h.remaining, Nat.zero_le 1, nofun⟩
  split
  · exact .done ⟨.inl rfl, rfl, [], Nat.zero_le _, rfl, hCarried rfl (Carries.refl l [])⟩
  · rename_i reply _
    have hPushed : Carries l (l.push reply.message) [] := ⟨rfl, rfl, rfl, Nat.le_refl _⟩
    have hFinish : (l.push reply.message).finishReporting.Achieves (fun _ => True) fun tr r =>
        (purposes ((.stream l.runId .turn l.request, w) :: tr) = [.turn] ∨
          purposes ((.stream l.runId .turn l.request, w) :: tr) = [.turn, .critic]) ∧
          r.1.loop.turn = l.turn ∧ ∃ tr', dispatches tr' ≤
            dispatches ((.stream l.runId .turn l.request, w) :: tr) ∧ purposes tr' = [] ∧
              Advances 1 l r.1.loop tr' r.2 :=
      finishReporting_advances.mono fun tr r ⟨hAsked, hTurn, hAdvances⟩ => by
        refine ⟨hAsked.imp (fun h => ?_) (fun h => ?_), hTurn, [], Nat.zero_le _, rfl,
          hAdvances.config, hAdvances.turns, hAdvances.turn, hAdvances.failures, hAdvances.remaining,
          hAdvances.revised, hAdvances.numbers⟩
        · rw [purposes_stream, h]
        · rw [purposes_stream, h]
    cases reply.finishReason with
    | toolCalls =>
      dsimp only
      rw [map_eq_pure_bind]
      refine Prog.Achieves.bind (actOn_silent reply.toolCalls) fun tr e h => .done ?_
      rw [List.append_nil]
      refine ⟨.inl ?_, (hPushed.trans h.2).turn, tr, dispatches_cons_le _ _, h.1,
        hCarried h.1 (hPushed.trans h.2)⟩
      rw [purposes_stream, h.1]
    | stop | length | other _ => exact hFinish

theorem reflect_advances :
    l.reflect.Achieves (fun _ => True) fun tr l' =>
      (purposes tr = [] ∨ purposes tr = [.reflection]) ∧ Carries l l' tr := by
  unfold ReactLoop.reflect
  split
  · split
    · refine .perform fun w _ => ?_
      split
      · exact .done ⟨.inr rfl, Carries.refl l _⟩
      · split
        · exact .done ⟨.inr rfl, Carries.refl l _⟩
        · exact .done ⟨.inr rfl, rfl, rfl, rfl, Nat.zero_le _⟩
    · exact .done ⟨.inl rfl, Carries.refl l _⟩
  · exact .done ⟨.inl rfl, Carries.refl l _⟩

theorem takeTurnReporting_advances :
    l.takeTurnReporting.Achieves (fun _ => True) fun tr r => Advances 1 l r.1.loop tr r.2 := by
  have hStatus : (ask (runStatus l.runId)).attempt.Achieves (fun _ => True) fun tr _ =>
      purposes tr = [] :=
    (ask_isLocked _).attempt_achieves.mono fun tr _ hLocked => purposes_of_forall fun e he => by
      obtain ⟨y, hy⟩ := hLocked e he
      rw [hy]
      rfl
  refine hStatus.bind fun tr status hTr => ?_
  have hStop : ∀ tr', tr' = [] → Advances 1 l l (tr ++ tr') [] := fun tr' h => by
    rw [h, List.append_nil]
    exact ⟨rfl, hTr ▸ turns_nil 1, Nat.le_succ _, Nat.le_add_right _ _, rfl, Nat.zero_le 1, nofun⟩
  have hGoesOn : ((ReactLoop.reflect { l with turn := l.turn + 1 }) >>= fun l' =>
      l'.converseReporting).Achieves (fun _ => True) fun tr' r =>
        Advances 1 l r.1.loop (tr ++ tr') r.2 := by
    refine reflect_advances.bind fun tr1 l1 ⟨hReflected, hCarries⟩ =>
      converseReporting_advances.mono fun tr2 r ⟨hAsked, hTurn, tr3, hFewer, _, hAdvances⟩ => ?_
    refine ⟨hAdvances.config.trans hCarries.config, turns_one ?_ ?_, ?_, ?_, ?_, hAdvances.revised, ?_⟩
    · rw [purposes_append, purposes_append]
      refine List.mem_append_right _ (List.mem_append_right _ ?_)
      rcases hAsked with h | h <;> rw [h] <;> exact List.mem_cons_self
    · rw [purposes_append, purposes_append, hTr]
      rcases hReflected with h | h <;> rcases hAsked with h' | h' <;> rw [h, h'] <;> decide
    · exact Nat.le_of_eq (hTurn.trans hCarries.turn)
    · have := hAdvances.failures
      have := hCarries.failures
      simp only [dispatches_append] at *
      omega
    · exact hAdvances.remaining.trans hCarries.remaining
    · intro hRemaining hFits
      refine hAdvances.numbers ?_ ?_
      · rw [hCarries.config, hCarries.remaining]
        exact hRemaining
      · rw [hCarries.config, hCarries.remaining]
        exact hFits
  cases status with
  | error e => exact .done (hStop [] rfl)
  | ok status =>
    cases status with
    | cancelled | paused | succeeded | failed _ => exact .done (hStop [] rfl)
    | _ => exact hGoesOn

end Turn

/-- What one turn does, `n` turns do at most `n` times. -/
theorem driveReporting_advances (n : Nat) (l : ReactLoop) :
    (ReactLoop.driveReporting n l).Achieves (fun _ => True) fun tr r =>
      Advances n l r.1.1 tr r.2 := by
  induction n generalizing l with
  | zero =>
    exact .done ⟨rfl, turns_nil 0, Nat.le_refl _, Nat.le_add_right _ _, rfl, Nat.le_refl 0, nofun⟩
  | succ n ih =>
    rw [ReactLoop.driveReporting]
    refine takeTurnReporting_advances.bind fun tr r hTurn => ?_
    obtain ⟨e, results⟩ := r
    cases e with
    | next l' =>
      dsimp only
      rw [map_eq_pure_bind]
      refine (ih l').bind fun tr' r hRest => .done ?_
      rw [List.append_nil, Nat.add_comm]
      exact hTurn.append hRest
    | stop l' result =>
      refine .done ?_
      rw [List.append_nil]
      exact hTurn.mono (Nat.le_add_left 1 n)

/-- What a run of the loop may cost and count. -/
structure Bounded (config : LoopConfig) (l : ReactLoop) (tr : List (Act × World))
    (results : List CriticResult) : Prop where
  requests : (purposes tr).count .turn ≤ config.maxTurns
  turns : Turns config.maxTurns (purposes tr)
  total : (purposes tr).length ≤ 3 * config.maxTurns
  revisions : revisions results ≤ config.maxRevisions
  remaining : l.criticRevisionsRemaining + Agent.revisions results = config.maxRevisions
  turn : l.turn ≤ config.maxTurns
  failures : l.consecutiveFailures ≤ dispatches tr
  numbers : ∀ result ∈ results, result.revision.isSome

theorem Advances.bounded {runId : RunId} {config : LoopConfig} {l : ReactLoop}
    {tr : List (Act × World)} {results : List CriticResult}
    (h : Advances config.maxTurns (.new runId config) l tr results)
    (hFits : Fits config.maxRevisions config.maxTurns) : Bounded config l tr results where
  requests := h.turns.count_le .turn
  turns := h.turns
  total := h.turns.length_le
  revisions := (Nat.le_add_left _ _).trans (Nat.le_of_eq h.remaining)
  remaining := h.remaining
  turn := h.turn.trans (Nat.le_of_eq (Nat.zero_add _))
  failures := h.failures.trans (Nat.le_of_eq (Nat.zero_add _))
  numbers := by
    refine h.numbers (Nat.le_refl _) ?_
    have hNone : (ReactLoop.new runId config).config.maxRevisions -
        (ReactLoop.new runId config).criticRevisionsRemaining = 0 := Nat.sub_self config.maxRevisions
    rw [hNone, Nat.zero_add]
    exact hFits

def refusalReply : String := "\x7b\"passed\": false, \"issues\": [\"Too short.\"]\x7d"

def approvalReply : String := "\x7b\"passed\": true, \"issues\": []\x7d"

/-- Two replies of a critic, as the reader of JSON reads them. -/
structure ReadsReplies (fromStr : String → Option Value) : Prop where
  refuses : fromStr refusalReply =
    some (.object [("passed", .bool false), ("issues", .array [.string "Too short."])])
  approves : fromStr approvalReply = some (.object [("passed", .bool true), ("issues", .array [])])

def answering (runId : RunId) (answer : Except String (List LlmEvent)) : World where
  authority :=
    let run := Run.new runId ⟨"home"⟩ none none .null 0
    .start (Snapshot.empty.setRun runId { run with status := .running }) .empty [] []
  streams := [answer]
  gates := []
  outcomes := []
  children := []
  reviewIds := []

theorem ReadsReplies.refused {fromStr : String → Option Value} (h : ReadsReplies fromStr) :
    CriticOutput.fromJson fromStr refusalReply = some ⟨false, ["Too short."]⟩ := by
  have hBlock : jsonBlock refusalReply = some refusalReply := by decide
  rw [CriticOutput.fromJson, hBlock, Option.bind_eq_bind, Option.bind_some, h.refuses]
  rfl

theorem ReadsReplies.approved {fromStr : String → Option Value} (h : ReadsReplies fromStr) :
    CriticOutput.fromJson fromStr approvalReply = some ⟨true, []⟩ := by
  have hBlock : jsonBlock approvalReply = some approvalReply := by decide
  rw [CriticOutput.fromJson, hBlock, Option.bind_eq_bind, Option.bind_some, h.approves]
  rfl

section Unbounded

variable {l : ReactLoop} {cfg : CriticConfig}

theorem answering_status (runId : RunId) (answer : Except String (List LlmEvent)) :
    (answering runId answer).authority.status? runId = some .running := by
  have hRun : (answering runId answer).authority.inner.snapshot.runs.lookup runId =
      some { Run.new runId ⟨"home"⟩ none none .null 0 with status := .running } :=
    AList.lookup_insert _
  rw [RuntimeAuthority.status?, Snapshot.status?, hRun]
  rfl

theorem reflect_skipped (l : ReactLoop) : ∃ tr, Prog.Yields l.reflect tr (.ok l) := by
  unfold ReactLoop.reflect
  split
  · split
    · exact ⟨_, .act (s := answering l.runId (.error "")) (.done _)⟩
    · exact ⟨_, .done _⟩
  · exact ⟨_, .done _⟩

def replied (l : ReactLoop) : ReactLoop :=
  { l with turn := l.turn + 1 }.push Reply.empty.message

theorem turn_yields {tr : List (Act × World)} {r : TurnEnd × List CriticResult}
    (h : Prog.Yields (replied l).finishReporting tr (.ok r)) :
    ∃ tr', Prog.Yields l.takeTurnReporting tr' (.ok r) := by
  obtain ⟨tr1, hReflect⟩ := reflect_skipped { l with turn := l.turn + 1 }
  have hStatus : Prog.Yields (ask (runStatus l.runId)).attempt
      [(.locked (.runStatus l.runId), answering l.runId (.ok []))] (.ok (.ok .running)) := by
    refine Prog.yields_attempt.mpr ⟨.ok .running, rfl, ?_⟩
    rw [ask_runStatus]
    refine .act ?_
    rw [answering_status]
    exact .done _
  have hAnswer : Prog.Yields (ReactLoop.converseReporting { l with turn := l.turn + 1 })
      ((.stream l.runId .turn (ReactLoop.request { l with turn := l.turn + 1 }),
        answering l.runId (.ok [])) :: tr) (.ok r) := .act h
  have hGoesOn : Prog.Yields (ReactLoop.reflect { l with turn := l.turn + 1 } >>= fun l' =>
      l'.converseReporting) _ (.ok r) :=
    Prog.yields_bind.mpr (.inl ⟨_, _, _, rfl, hReflect, hAnswer⟩)
  exact ⟨_, Prog.yields_bind.mpr (.inl ⟨_, _, _, rfl, hStatus, hGoesOn⟩)⟩

theorem answering_text (runId : RunId) (text : String) :
    (answering runId (.ok [.delta text])).stream.bind (collectText "") = .ok text :=
  congrArg Except.ok String.empty_append

theorem criticPass_refuses (h : ReadsReplies l.config.texts.fromStr) :
    ∃ tr, Prog.Yields (l.runCriticPass cfg) tr (.ok (.needsRevision ["Too short."])) := by
  refine ⟨_, Prog.yields_perform.mpr ⟨answering l.runId (.ok [.delta refusalReply]), [], rfl, ?_⟩⟩
  simp only [answering_text, h.refused]
  exact .done _

theorem criticPass_approves (h : ReadsReplies l.config.texts.fromStr) :
    ∃ tr, Prog.Yields (l.runCriticPass cfg) tr (.ok .passed) := by
  refine ⟨_, Prog.yields_perform.mpr ⟨answering l.runId (.ok [.delta approvalReply]), [], rfl, ?_⟩⟩
  simp only [answering_text, h.approved]
  exact .done _

variable (hCritic : l.config.critic = some cfg) (hPositive : 0 < l.criticRevisionsRemaining)
  (hReads : ReadsReplies l.config.texts.fromStr)

include hCritic hPositive hReads

theorem refused_turn : ∃ tr l', Prog.Yields l.takeTurnReporting tr (.ok (.next l',
      [revisionResult cfg.maxRevisions (l.criticRevisionsRemaining - 1) ["Too short."]])) ∧
    l'.config = l.config ∧ l'.criticRevisionsRemaining = l.criticRevisionsRemaining - 1 := by
  obtain ⟨tr, hPass⟩ : ∃ tr, Prog.Yields ((replied l).runCriticPass cfg) tr
      (.ok (.needsRevision ["Too short."])) := criticPass_refuses hReads
  have hCritic' : (replied l).config.critic = some cfg := hCritic
  have hPositive' : 0 < (replied l).criticRevisionsRemaining := hPositive
  have hFinish : ∃ l', Prog.Yields (replied l).finishReporting tr (.ok (.next l',
      [revisionResult cfg.maxRevisions (l.criticRevisionsRemaining - 1) ["Too short."]])) ∧
      l'.config = l.config ∧ l'.criticRevisionsRemaining = l.criticRevisionsRemaining - 1 := by
    unfold ReactLoop.finishReporting
    simp only [hCritic', if_pos hPositive']
    refine ⟨_, Prog.yields_bind.mpr (.inl ⟨_, tr, [], (List.append_nil _).symm, hPass, .done _⟩),
      rfl, rfl⟩
  obtain ⟨l', hYields, hSame⟩ := hFinish
  obtain ⟨tr', hTurn⟩ := turn_yields hYields
  exact ⟨tr', l', hTurn, hSame⟩

theorem approved_turn : ∃ tr l', Prog.Yields l.takeTurnReporting tr (.ok (.stop l' (.ok ()),
      [passedResult cfg.maxRevisions l.criticRevisionsRemaining])) := by
  obtain ⟨tr, hPass⟩ : ∃ tr, Prog.Yields ((replied l).runCriticPass cfg) tr (.ok .passed) :=
    criticPass_approves hReads
  have hCritic' : (replied l).config.critic = some cfg := hCritic
  have hPositive' : 0 < (replied l).criticRevisionsRemaining := hPositive
  have hFinish : Prog.Yields (replied l).finishReporting tr (.ok (.stop (replied l) (.ok ()),
      [passedResult cfg.maxRevisions l.criticRevisionsRemaining])) := by
    unfold ReactLoop.finishReporting
    simp only [hCritic', if_pos hPositive']
    exact Prog.yields_bind.mpr (.inl ⟨_, tr, [], (List.append_nil _).symm, hPass, .done _⟩)
  obtain ⟨tr', hTurn⟩ := turn_yields hFinish
  exact ⟨tr', _, hTurn⟩

omit hCritic hPositive hReads in
theorem drive_next {n : Nat} {l' : ReactLoop} {tr tr' : List (Act × World)}
    {results results' : List CriticResult} {r : ReactLoop × Except LoopError Unit}
    (hTurn : Prog.Yields l.takeTurnReporting tr (.ok (.next l', results)))
    (hRest : Prog.Yields (ReactLoop.driveReporting n l') tr' (.ok (r, results'))) :
    Prog.Yields (ReactLoop.driveReporting (n + 1) l) (tr ++ tr') (.ok (r, results ++ results')) := by
  rw [ReactLoop.driveReporting]
  refine Prog.yields_bind.mpr (.inl ⟨_, tr, tr', rfl, hTurn, ?_⟩)
  dsimp only
  rw [map_eq_pure_bind]
  exact Prog.yields_bind.mpr (.inl ⟨_, tr', [], (List.append_nil _).symm, hRest, .done _⟩)

omit hCritic hPositive hReads in
theorem drive_stop {n : Nat} {l' : ReactLoop} {tr : List (Act × World)} {results : List CriticResult}
    {result : Except LoopError Unit}
    (hTurn : Prog.Yields l.takeTurnReporting tr (.ok (.stop l' result, results))) :
    Prog.Yields (ReactLoop.driveReporting (n + 1) l) tr (.ok ((l', result), results)) := by
  rw [ReactLoop.driveReporting]
  exact Prog.yields_bind.mpr (.inl ⟨_, tr, [], (List.append_nil _).symm, hTurn, .done _⟩)

omit hPositive in
theorem overflows (hLarge : 2 ^ 32 ≤ cfg.maxRevisions) (j n : Nat) (hTurns : j < n)
    (hLow : j ≤ cfg.maxRevisions % 2 ^ 32)
    (hRemaining : l.criticRevisionsRemaining = cfg.maxRevisions - (cfg.maxRevisions % 2 ^ 32 - j)) :
    ∃ tr l' result results, Prog.Yields (ReactLoop.driveReporting n l) tr (.ok ((l', result), results)) ∧
      ∃ report ∈ results, report.revision = none := by
  obtain ⟨n, rfl⟩ : ∃ m, n = m + 1 := ⟨n - 1, by omega⟩
  have hPositive : 0 < l.criticRevisionsRemaining := by omega
  induction j generalizing l n with
  | zero =>
    by_cases hTop : cfg.maxRevisions % 2 ^ 32 = 2 ^ 32 - 1
    · -- the number of the accepted reply is one too large
      obtain ⟨tr, l', hTurn⟩ := approved_turn hCritic hPositive hReads
      refine ⟨_, l', .ok (), _, drive_stop hTurn, _, List.mem_singleton.mpr rfl, ?_⟩
      have hZero : l.criticRevisionsRemaining % 2 ^ 32 = 0 := by omega
      rw [passedResult, asU32, asU32, hZero, hTop]
      rfl
    · obtain ⟨tr, l', hTurn, _⟩ := refused_turn hCritic hPositive hReads
      obtain ⟨tr', r, hRest⟩ := (ReactLoop.driveReporting n l').exists_yields
      obtain ⟨⟨r, results⟩, rfl, _⟩ := driveReporting_advances n l' tr' r hRest fun _ _ => trivial
      refine ⟨_, r.1, r.2, _, drive_next hTurn hRest, _,
        List.mem_append_left _ (List.mem_singleton.mpr rfl), ?_⟩
      have hBelow : ¬ (l.criticRevisionsRemaining - 1) % 2 ^ 32 ≤ cfg.maxRevisions % 2 ^ 32 := by omega
      rw [revisionResult, asU32, asU32, subU32, if_neg hBelow]
  | succ j ih =>
    obtain ⟨tr, l', hTurn, hConfig, hLess⟩ := refused_turn hCritic hPositive hReads
    obtain ⟨m, rfl⟩ : ∃ m, n = m + 1 := ⟨n - 1, by omega⟩
    obtain ⟨tr', l'', result, results, hRest, report, hReport, hNone⟩ := ih (l := l')
      (by rw [hConfig]; exact hCritic) (by rw [hConfig]; exact hReads) (by omega) (by omega) m
      (by omega) (by omega)
    exact ⟨_, l'', result, _, drive_next hTurn hRest, report, List.mem_append_right _ hReport, hNone⟩

end Unbounded

/-- Every run of the loop keeps the bounds if and only if the limit of the critic fits `u32`, or the
turns do not exceed what a conversion leaves of it. -/
theorem bounded_iff (runId : RunId) (config : LoopConfig) (hReads : ReadsReplies config.texts.fromStr) :
    (∀ tr r, Prog.Yields (ReactLoop.driveReporting config.maxTurns (.new runId config)) tr r →
      ∃ l result results, r = .ok ((l, result), results) ∧ Bounded config l tr results) ↔
      ∀ cfg ∈ config.critic,
        cfg.maxRevisions < 2 ^ 32 ∨ config.maxTurns ≤ cfg.maxRevisions % 2 ^ 32 := by
  constructor
  · intro h cfg hCritic
    by_contra hUnfit
    rw [not_or, Nat.not_lt, Nat.not_le] at hUnfit
    have hRemaining : (ReactLoop.new runId config).criticRevisionsRemaining = cfg.maxRevisions := by
      rw [ReactLoop.new, Option.mem_def.mp hCritic]
      rfl
    obtain ⟨tr, l, result, results, hYields, report, hReport, hNone⟩ :=
      overflows (l := ReactLoop.new runId config) hCritic hReads hUnfit.1
        (cfg.maxRevisions % 2 ^ 32) config.maxTurns hUnfit.2 (Nat.le_refl _)
        (by rw [hRemaining, Nat.sub_self, Nat.sub_zero])
    obtain ⟨_, _, _, hEq, hBounded⟩ := h tr _ hYields
    cases hEq
    have hSome := hBounded.numbers report hReport
    rw [hNone] at hSome
    cases hSome
  · intro hFits tr r hYields
    obtain ⟨⟨⟨l, result⟩, results⟩, rfl, hAdvances⟩ :=
      driveReporting_advances config.maxTurns (.new runId config) tr r hYields fun _ _ => trivial
    refine ⟨l, result, results, rfl, hAdvances.bounded ?_⟩
    unfold LoopConfig.maxRevisions
    cases hCritic : config.critic with
    | none => exact .inl (by decide)
    | some cfg => exact hFits cfg hCritic

def readReply (text : String) : Option Value :=
  if text = refusalReply then
    some (.object [("passed", .bool false), ("issues", .array [.string "Too short."])])
  else if text = approvalReply then some (.object [("passed", .bool true), ("issues", .array [])])
  else none

theorem readReply_reads : ReadsReplies readReply where
  refuses := by rw [readReply, if_pos rfl]
  approves := by rw [readReply, if_neg (by decide), if_pos rfl]

def criticConfig (maxTurns maxRevisions : Nat) : LoopConfig :=
  { chatConfig with
    maxTurns
    critic := some ⟨"model", [], maxRevisions, none⟩
    texts := ⟨fun _ => "null", readReply, fun _ => "", ""⟩ }

/-- Three turns, with two revisions at most. -/
theorem bounded_three_turns : ReadsReplies readReply ∧ ∀ tr r,
    Prog.Yields (ReactLoop.driveReporting 3 (.new chatRun (criticConfig 3 2))) tr r →
    ∃ l result results, r = .ok ((l, result), results) ∧ Bounded (criticConfig 3 2) l tr results := by
  refine ⟨readReply_reads, (bounded_iff chatRun (criticConfig 3 2) readReply_reads).mpr fun cfg hCritic =>
    .inl ?_⟩
  obtain rfl := Option.some.inj hCritic
  decide

/-- A limit of `2 ^ 32` is converted to zero, and one turn is enough. -/
theorem large_limit_overflows : ¬ ∀ tr r,
    Prog.Yields (ReactLoop.driveReporting 1 (.new chatRun (criticConfig 1 (2 ^ 32)))) tr r →
    ∃ l result results, r = .ok ((l, result), results) ∧
      Bounded (criticConfig 1 (2 ^ 32)) l tr results := by
  intro h
  have hCritic : (ReactLoop.new chatRun (criticConfig 1 (2 ^ 32))).config.critic =
      some ⟨"model", [], 2 ^ 32, none⟩ := rfl
  obtain ⟨tr, l, result, results, hYields, report, hReport, hNone⟩ :=
    overflows hCritic readReply_reads (Nat.le_refl _) 0 1 Nat.zero_lt_one (Nat.zero_le _) rfl
  obtain ⟨_, _, _, hEq, hBounded⟩ := h tr _ hYields
  cases hEq
  have hSome := hBounded.numbers report hReport
  rw [hNone] at hSome
  cases hSome

end Cronymax.Agent
