import Cronymax.Atomic.Interleaving
import Cronymax.Flow.Footprint
import Mathlib.Algebra.Group.Nat.Defs
import Mathlib.Data.List.Dedup

/-! The cycle budget of a port.  A submission is counted in one section and the new count is compared
with `max_cycles` once the run is persisted; the counter has 32 bits, is shared by all calls that are
under way, and is read again from `state.json` after a restart. -/

namespace Cronymax.Flow

open Atomic FlowRuntime

variable {flow : FlowDefinition} {runId node port : String}

namespace FlowRuntime

/-- A run comes back from its state file. -/
def loadRun (state : FlowRunState) (w : FlowRuntime) : FlowRuntime :=
  { w with
    chatSessions := match state.originatingSessionId with
      | some sessionId => w.chatSessions.insert state.runId sessionId
      | none => w.chatSessions
    runs := w.runs.insert state.runId state }

/-- One turn of the loop of `rehydrate_from_disk`: a file that cannot be read is passed over. -/
def loadFile (w : FlowRuntime) (state : FlowRunState) : FlowRuntime :=
  let found := { w with faults := w.faults.tail }
  if w.fault.isSome then found
  else if state.status = .running then
    loadRun { state with status := .paused }
      ((Act.persistRun { state with status := .paused }).apply found)
  else loadRun state found

/-- `rehydrate_from_disk` after the process has died. -/
def restart (w : FlowRuntime) : FlowRuntime :=
  (w.stateFiles.entries.map (·.2)).foldl loadFile { w with runs := ∅, chatSessions := ∅ }

/-- The counter of the port, if the run is there. -/
def cycles (w : FlowRuntime) (runId node port : String) : Option UInt32 :=
  (w.getRun runId).map (·.portCycles node port)

theorem getRun_loadRun (state : FlowRunState) (w : FlowRuntime) (runId : String) :
    (loadRun state w).getRun runId =
      if runId = state.runId then some state else w.getRun runId := by
  show AList.lookup runId (w.runs.insert state.runId state) = _
  split
  · subst runId
    exact AList.lookup_insert _
  · exact AList.lookup_insert_ne ‹_›

theorem getRun_loadFile (state : FlowRunState) (w : FlowRuntime) (runId : String) :
    (w.loadFile state).getRun runId = w.getRun runId ∨
      runId = state.runId ∧ ∃ status, (w.loadFile state).getRun runId = some { state with status } := by
  have hFound : ({ w with faults := w.faults.tail } : FlowRuntime).getRun runId = w.getRun runId := rfl
  simp only [loadFile]
  split
  · exact .inl hFound
  · split
    · rw [getRun_loadRun]
      split
      · exact .inr ⟨‹_›, .paused, rfl⟩
      · exact .inl ((Act.getRun_of_quiet (a := .persistRun _) rfl _ runId).trans hFound)
    · rw [getRun_loadRun]
      split
      · exact .inr ⟨‹_›, state.status, rfl⟩
      · exact .inl hFound

theorem cycles_restart {w : FlowRuntime} {count : UInt32}
    (hFiles : ∀ file ∈ w.stateFiles.entries, file.2.runId = runId →
      file.2.portCycles node port = count) :
    w.restart.cycles runId node port = none ∨ w.restart.cycles runId node port = some count := by
  suffices h : ∀ (files : List FlowRunState) (t : FlowRuntime),
      (∀ file ∈ files, file.runId = runId → file.portCycles node port = count) →
      t.cycles runId node port = none ∨ t.cycles runId node port = some count →
      (files.foldl loadFile t).cycles runId node port = none ∨
        (files.foldl loadFile t).cycles runId node port = some count by
    refine h _ _ (fun file hFile hRun => ?_) (.inl rfl)
    obtain ⟨entry, hEntry, rfl⟩ := List.mem_map.mp hFile
    exact hFiles entry hEntry hRun
  intro files
  induction files with
  | nil => exact fun _ _ h => h
  | cons file files ih =>
    intro t hAll ht
    refine ih _ (fun file' h => hAll file' (List.mem_cons_of_mem _ h)) ?_
    rcases getRun_loadFile file t runId with hSame | ⟨hId, status, hLoaded⟩
    · rwa [cycles, hSame]
    · refine .inr ?_
      rw [cycles, hLoaded, ← hAll file List.mem_cons_self hId.symm]
      rfl

end FlowRuntime

/-- The section counts a submission of the port. -/
def Act.counts (runId node port : String) : Act → Bool
  | .incrementPortCycles runId' node' port' => runId' = runId && node' = node && port' = port
  | _ => false

/-- The section counts a submission that still fits the limit. -/
def withinLimit (runId node port : String) (limit : UInt32) (e : Act × FlowRuntime) : Bool :=
  e.1.counts runId node port && (e.2.cycles runId node port).any (· + 1 ≤ limit)

/-- The check of the cycle limit has let the submission pass. -/
def passes (flow : FlowDefinition) (runId node port : String) (tr : List (Act × FlowRuntime)) : Bool :=
  match (checkCycleLimit runId node port flow).follow tr with
  | some (.ok none) => true
  | _ => false

theorem cycles_apply {a : Act} (ha : ∀ state, a ≠ .register state) (w : FlowRuntime) :
    (a.apply w).cycles runId node port =
      (w.cycles runId node port).map fun count =>
        if a.counts runId node port then count + 1 else count := by
  unfold FlowRuntime.cycles
  cases hRun : w.getRun runId with
  | none => simp [Act.getRun_apply_none ha hRun]
  | some s =>
    rw [a.getRun_apply hRun, Option.map_some, Option.map_some, Option.map_some]
    congr 1
    cases a with
    | incrementPortCycles runId' node' port' =>
      by_cases hRun : runId' = runId
      · subst hRun
        simp only [Act.onRun, Act.target, if_true, Act.change,
          FlowRunState.portCycles_incrementPortCycles, Act.counts, decide_true, Bool.true_and,
          Bool.and_eq_true, decide_eq_true_eq]
        by_cases hPort : node' = node ∧ port' = port
        · simp [hPort]
        · rw [if_neg hPort, if_neg fun h => hPort ⟨h.1.symm, h.2.symm⟩]
      · simp [Act.onRun, Act.target, Act.counts, hRun]
    | register state => exact absurd rfl (ha state)
    | _ => simpa [Act.counts] using Act.portCycles_onRun rfl runId w.now s node port

theorem countP_withinLimit {tr : List (Act × FlowRuntime)} {w : FlowRuntime} {count : Nat}
    (limit : UInt32) (hc : Prog.Chained w tr) (hTrace : ∀ e ∈ tr, ∀ state, e.1 ≠ .register state)
    (hCount : w.cycles runId node port = some (.ofNat count)) :
    (Prog.after w tr).cycles runId node port =
        some (.ofNat (count + tr.countP (·.1.counts runId node port))) ∧
      (count + tr.countP (·.1.counts runId node port) < 2 ^ 32 →
        tr.countP (withinLimit runId node port limit) + min limit.toNat count =
          min limit.toNat (count + tr.countP (·.1.counts runId node port))) := by
  induction tr generalizing w count with
  | nil => exact ⟨by simpa using hCount, fun _ => by simp⟩
  | cons e tr ih =>
    obtain ⟨a, t⟩ := e
    obtain ⟨rfl, hc⟩ := hc
    have hApply : (Acts.apply a t : FlowRuntime).cycles runId node port =
        (t.cycles runId node port).map fun count =>
          if a.counts runId node port then count + 1 else count :=
      cycles_apply (hTrace (a, t) List.mem_cons_self) t
    rw [hCount, Option.map_some] at hApply
    have hRest (e : Act × FlowRuntime) (he : e ∈ tr) := hTrace e (List.mem_cons_of_mem _ he)
    rw [Prog.after_cons]
    simp only [List.countP_cons]
    by_cases hCounts : a.counts runId node port = true
    · rw [if_pos hCounts, show (UInt32.ofNat count + 1 : UInt32) = .ofNat (count + 1) by simp] at hApply
      obtain ⟨hAfter, hWithin⟩ := ih hc hRest hApply
      have hAdd : count + 1 + tr.countP (·.1.counts runId node port) =
          count + (tr.countP (·.1.counts runId node port) + 1) := by omega
      rw [hAdd] at hAfter hWithin
      rw [if_pos hCounts]
      refine ⟨hAfter, fun hBound => ?_⟩
      have hTail := hWithin hBound
      have hNat : (UInt32.ofNat count + 1 : UInt32).toNat = count + 1 := by
        rw [show (UInt32.ofNat count + 1 : UInt32) = .ofNat (count + 1) by simp,
          UInt32.toNat_ofNat_of_lt' (by simp only [UInt32.size]; omega)]
      have hHead : withinLimit runId node port limit (a, t) = true ↔ count + 1 ≤ limit.toNat := by
        simp only [withinLimit, hCounts, hCount, Bool.true_and, Option.any_some, decide_eq_true_eq,
          UInt32.le_iff_toNat_le, hNat]
      by_cases hLimit : count + 1 ≤ limit.toNat
      · rw [if_pos (hHead.mpr hLimit)]
        omega
      · rw [if_neg fun h => hLimit (hHead.mp h)]
        omega
    · rw [if_neg hCounts] at hApply
      obtain ⟨hAfter, hWithin⟩ := ih hc hRest hApply
      have hHead : ¬withinLimit runId node port limit (a, t) = true := by simp [withinLimit, hCounts]
      rw [if_neg hCounts, if_neg hHead]
      exact ⟨hAfter, hWithin⟩

section Limit

variable {limit : UInt32}

theorem checkCycleLimit_acts (hLimit : cycleLimit flow node port = some limit) :
    ∃ action, checkCycleLimit runId node port flow =
      .act (.incrementPortCycles runId node port) fun w =>
        match w.getRun runId with
        | none => .fail (.runNotFound runId)
        | some s => .act (.persistRun (s.incrementPortCycles node port)) fun w' =>
          match w'.fault with
          | some e => .fail (.io e)
          | none => .done (if s.portCycles node port + 1 > limit then some action else none) := by
  obtain ⟨action, hCheck⟩ := checkCycleLimit_eq runId flow node port
  rw [hLimit] at hCheck
  refine ⟨action, hCheck.trans ?_⟩
  simp only [incrementPortCycles, updateRun, persistRun, Prog.perform_bind, Prog.act_bind]
  congr 1
  funext w
  cases w.getRun runId with
  | none => rfl
  | some s =>
    simp only [Prog.act_bind]
    congr 1
    funext w'
    cases w'.fault with
    | some e => rfl
    | none => simp [FlowRunState.portCycles_incrementPortCycles]

theorem submitted_head (hLimit : cycleLimit flow node port = some limit) (sha : String)
    (revision : UInt32) : ∃ next, (Call.submitted node port sha revision).op flow runId =
      .act (.incrementPortCycles runId node port) next := by
  obtain ⟨action, hCheck⟩ := @checkCycleLimit_acts _ runId _ _ _ hLimit
  have hOp : (Call.submitted node port sha revision).op flow runId =
      onDocumentSubmitted runId node port flow sha revision := rfl
  rw [hOp, onDocumentSubmitted, hCheck, Prog.act_bind]
  exact ⟨_, rfl⟩

theorem passes_iff (hLimit : cycleLimit flow node port = some limit)
    {tr : List (Act × FlowRuntime)} : passes flow runId node port tr = true ↔
      ∃ a w s a' w' rest, tr = (a, w) :: (a', w') :: rest ∧ w.getRun runId = some s ∧
        w'.fault = none ∧ s.portCycles node port + 1 ≤ limit := by
  obtain ⟨action, hCheck⟩ := @checkCycleLimit_acts _ runId _ _ _ hLimit
  unfold passes
  rw [hCheck]
  constructor
  · intro h
    rcases tr with _ | ⟨⟨a, w⟩, tr⟩
    · simp [Prog.follow] at h
    cases hRun : w.getRun runId with
    | none => simp [Prog.follow, hRun] at h
    | some s =>
      rcases tr with _ | ⟨⟨a', w'⟩, tr⟩
      · simp [Prog.follow, hRun] at h
      cases hFault : w'.fault with
      | some e => simp [Prog.follow, hRun, hFault] at h
      | none =>
        refine ⟨a, w, s, a', w', tr, rfl, hRun, hFault, ?_⟩
        by_contra hNot
        simp [Prog.follow, hRun, hFault, UInt32.not_le.mp hNot] at h
  · rintro ⟨a, w, s, a', w', rest, rfl, hRun, hFault, hCount⟩
    simp [Prog.follow, hRun, hFault, UInt32.not_lt.mpr hCount]

/-- The call fails and leaves the status of every port as it was. -/
def Call.Refused (flow : FlowDefinition) (runId : String) (w : FlowRuntime) (c : Call) : Prop :=
  (∃ e, ((c.op flow runId).run w).1 = .error e) ∧
    ∀ node port, (c.step flow runId w).portStatus runId node port = w.portStatus runId node port

theorem submitted_alone (hLimit : cycleLimit flow node port = some limit) {w : FlowRuntime}
    {s : FlowRunState} (hRun : w.getRun runId = some s) (sha : String) (revision : UInt32) :
    (passes flow runId node port ((Call.submitted node port sha revision).trace flow runId w) = true ↔
      w.fault = none ∧ s.portCycles node port + 1 ≤ limit) ∧
    (¬(w.fault = none ∧ s.portCycles node port + 1 ≤ limit) →
      (Call.submitted node port sha revision).Refused flow runId w) := by
  obtain ⟨action, hCheck⟩ := @checkCycleLimit_acts _ runId _ _ _ hLimit
  -- the counted run, and the call's own write of it
  generalize hFirst : Act.apply (.incrementPortCycles runId node port) w = w1
  have hFault : w1.fault = w.fault := by
    rw [← hFirst]
    simp only [Act.apply, modifyRun, hRun]
    rfl
  have hStatus (node' port' : String) :
      ((Act.persistRun (s.incrementPortCycles node port)).apply w1).portStatus runId node' port' =
        w.portStatus runId node' port' := by
    rw [Act.portStatus_apply_of_not_deed rfl, ← hFirst, Act.portStatus_apply_of_not_deed rfl]
  obtain ⟨next, hStart, hRefused⟩ : ∃ next : Option String → Op (List InvocationContext),
      (Call.submitted node port sha revision).op flow runId =
        checkCycleLimit runId node port flow >>= next ∧
      ∀ action, next (some action) = .fail (.cycleLimit node port action) := ⟨_, rfl, fun _ => rfl⟩
  have hTrace : ∃ rest, (Call.submitted node port sha revision).trace flow runId w =
      (.incrementPortCycles runId node port, w) ::
        (.persistRun (s.incrementPortCycles node port), w1) :: rest := by
    simp only [Call.trace, hStart, hCheck, Prog.act_bind, Prog.trace, hRun]
    rw [← hFirst]
    exact ⟨_, rfl⟩
  obtain ⟨rest, hTrace⟩ := hTrace
  refine ⟨?_, fun hNot => ?_⟩
  · rw [passes_iff hLimit, hTrace, ← hFault]
    constructor
    · rintro ⟨_, _, s', _, _, _, h, hRun', hOk, hCount⟩
      cases h
      obtain rfl := Option.some.inj (hRun.symm.trans hRun')
      exact ⟨hOk, hCount⟩
    · rintro ⟨hOk, hCount⟩
      exact ⟨_, _, s, _, _, _, rfl, hRun, hOk, hCount⟩
  · have hEnd : ∃ e, ((Call.submitted node port sha revision).op flow runId).run w =
        (.error e, (Act.persistRun (s.incrementPortCycles node port)).apply w1) := by
      simp only [hStart, hCheck, Prog.act_bind, Prog.run, hRun]
      have hWrite : (Acts.apply (Act.incrementPortCycles runId node port) w : FlowRuntime) = w1 :=
        hFirst
      rw [hWrite, hFault]
      cases hOwn : w.fault with
      | some e => exact ⟨_, rfl⟩
      | none =>
        have hOver : s.portCycles node port + 1 > limit :=
          UInt32.not_le.mp fun h => hNot ⟨hOwn, h⟩
        simp only [hOver, if_true, Prog.done_bind, hRefused]
        exact ⟨_, rfl⟩
    obtain ⟨e, hEnd⟩ := hEnd
    refine ⟨⟨e, by rw [hEnd]⟩, fun node' port' => ?_⟩
    rw [Call.step, hEnd]
    exact hStatus node' port'

end Limit

/-- What happens to a run: one call, calls that interleave, or a restart. -/
inductive Phase (ι : Type) where
  | call (c : Call)
  | together (calls : ι → Call) (turns : List ι)
  | restart

/-- Calls whose sections interleave. -/
def callsTogether {ι : Type} (flow : FlowDefinition) (runId : String) (calls : ι → Call)
    (w : FlowRuntime) : Pool ι Act FlowRuntime FlowError (List InvocationContext) where
  state := w
  prog i := (calls i).op flow runId

namespace Phase

variable {ι : Type} [DecidableEq ι] (flow : FlowDefinition) (runId node port : String)
  (w : FlowRuntime)

@[grind =] def step : Phase ι → FlowRuntime
  | .call c => c.step flow runId w
  | .together calls turns => ((callsTogether flow runId calls w).play turns).state
  | .restart => w.restart

/-- The submissions of the port in a phase. -/
def counted : Phase ι → Nat
  | .call c => if c.submits node port then 1 else 0
  | .together calls turns =>
    ((callsTogether flow runId calls w).events turns).countP fun e => e.2.1.counts runId node port
  | .restart => 0

/-- The submissions of the port that pass the check in a phase. -/
def passed : Phase ι → Nat
  | .call c =>
    if c.submits node port && passes flow runId node port (c.trace flow runId w) then 1 else 0
  | .together calls turns =>
    (turns.dedup.filter fun i => (calls i).submits node port &&
      passes flow runId node port (share i ((callsTogether flow runId calls w).events turns))).length
  | .restart => 0

end Phase

/-- The runtime with a count of the submissions since the run began. -/
structure Ledger where
  runtime : FlowRuntime
  counted : Nat := 0
  passed : Nat := 0

@[grind =] def Ledger.step {ι : Type} [DecidableEq ι] (flow : FlowDefinition) (runId node port : String)
    (l : Ledger) (phase : Phase ι) : Ledger where
  runtime := phase.step flow runId l.runtime
  counted := l.counted + phase.counted flow runId node port l.runtime
  passed := l.passed + phase.passed flow runId node port l.runtime

/-- A restart finds the counter of the port as it is in memory. -/
def Saved {ι : Type} (runId node port : String) (l : Ledger) : Phase ι → Prop
  | .restart =>
    (∀ file ∈ l.runtime.stateFiles.entries, file.2.runId = runId →
      some (file.2.portCycles node port) = l.runtime.cycles runId node port) ∧
    (l.runtime.restart.getRun runId).isSome = true
  | _ => True

section Bound

variable {ι : Type} [DecidableEq ι] {limit : UInt32}

theorem callsTogether_not_register {calls : ι → Call} {w : FlowRuntime} (turns : List ι) :
    ∀ e ∈ ((callsTogether flow runId calls w).events turns).map (·.2), ∀ state,
      e.1 ≠ .register state := by
  intro e he
  obtain ⟨e', he', rfl⟩ := List.mem_map.mp he
  exact Pool.events_only (P := fun a => ∀ state, a ≠ .register state)
    (c := callsTogether flow runId calls w)
    (fun i => ((calls i).op_only flow runId).mono fun a ha => ha.not_register) turns e' he'

theorem passed_together_le (hLimit : cycleLimit flow node port = some limit) (calls : ι → Call)
    (w : FlowRuntime) (turns : List ι) :
    (Phase.together calls turns).passed flow runId node port w ≤
      (((callsTogether flow runId calls w).events turns).map (·.2)).countP
        (withinLimit runId node port limit) := by
  rw [List.countP_map]
  refine length_le_countP_of_share ((List.nodup_dedup turns).filter _) fun i hi => ?_
  obtain ⟨hSubmits, hPasses⟩ := Bool.and_eq_true_iff.mp (List.mem_filter.mp hi).2
  obtain ⟨a, t, s, a', t', rest, hShare, hRun, -, hCount⟩ := (passes_iff hLimit).mp hPasses
  refine ⟨(a, t), by rw [hShare]; exact List.mem_cons_self, ?_⟩
  obtain ⟨tail, r, -, hYields⟩ := Pool.share_completes turns (callsTogether flow runId calls w) i
  cases hCall : calls i with
  | submitted node' port' sha revision =>
    rw [hCall] at hSubmits
    obtain ⟨rfl, rfl⟩ : node' = node ∧ port' = port := by simpa [Call.submits] using hSubmits
    obtain ⟨next, hHead⟩ := @submitted_head _ runId _ _ _ hLimit sha revision
    have hProg : (callsTogether flow runId calls w).prog i =
        .act (.incrementPortCycles runId node' port') next := by
      rw [← hHead, ← hCall]
      rfl
    rw [hProg, hShare] at hYields
    obtain ⟨_, _, hTrace, -⟩ := Prog.yields_act.mp hYields
    obtain ⟨h, -⟩ := List.cons.inj hTrace
    obtain ⟨rfl, -⟩ := Prod.mk.inj h
    simp [withinLimit, Act.counts, cycles, hRun, hCount]
  | _ =>
    rw [hCall] at hSubmits
    cases hSubmits

/-- The counter is the number of submissions, and those that passed stay within the limit. -/
def WithinBudget (runId node port : String) (limit : UInt32) (l : Ledger) : Prop :=
  l.runtime.cycles runId node port = some (.ofNat l.counted) ∧
    (l.counted < 2 ^ 32 → l.passed ≤ min limit.toNat l.counted)

theorem withinBudget_step (hLimit : cycleLimit flow node port = some limit) {l : Ledger}
    {phase : Phase ι} (h : WithinBudget runId node port limit l)
    (hSaved : Saved runId node port l phase) :
    WithinBudget runId node port limit (l.step flow runId node port phase) := by
  obtain ⟨w, count, passed⟩ := l
  obtain ⟨hCount, hPassed⟩ := h
  simp only at hCount hPassed
  cases phase with
  | restart =>
    obtain ⟨hFiles, hLoaded⟩ := hSaved
    refine ⟨?_, by simpa [Ledger.step, Phase.counted, Phase.passed] using hPassed⟩
    simp only at hFiles hLoaded
    rw [hCount] at hFiles
    refine (cycles_restart fun file h hRun => Option.some.inj (hFiles file h hRun)).resolve_left ?_
    simpa [cycles, Option.isSome_iff_ne_none] using hLoaded
  | together calls turns =>
    have hTrace := countP_withinLimit limit
      (Pool.events_chained turns (callsTogether flow runId calls w))
      (callsTogether_not_register turns) hCount
    obtain ⟨hAfter, hWithin⟩ := hTrace
    have hLe := @passed_together_le _ runId _ _ _ _ _ hLimit calls w turns
    rw [← Pool.play_state] at hAfter
    rw [List.countP_map] at hAfter hWithin
    refine ⟨hAfter, fun hBound => ?_⟩
    have hBefore := hPassed (Nat.lt_of_le_of_lt (Nat.le_add_right _ _) hBound)
    have hAdd := hWithin hBound
    simp only [Ledger.step, Phase.counted]
    simp only [Function.comp_def] at hAdd
    omega
  | call c =>
    obtain ⟨s, hRun, hCycles⟩ := Option.map_eq_some_iff.mp hCount
    obtain ⟨s', hRun', hAfter⟩ := portCycles_call flow node port c hRun
    simp only [WithinBudget, Ledger.step, Phase.step, Phase.counted, Phase.passed]
    rw [hLimit, Option.isSome_some, Bool.and_true, hCycles] at hAfter
    by_cases hSubmits : c.submits node port = true
    · rw [if_pos hSubmits] at hAfter ⊢
      refine ⟨?_, fun hBound => ?_⟩
      · rw [cycles, hRun', Option.map_some, hAfter]
        simp
      · have hBefore := hPassed (by omega)
        cases c with
        | submitted node' port' sha revision =>
          obtain ⟨rfl, rfl⟩ : node' = node ∧ port' = port := by simpa [Call.submits] using hSubmits
          split
          · rename_i hPasses
            have hPasses := ((submitted_alone hLimit hRun sha revision).1.mp
              (Bool.and_eq_true_iff.mp hPasses).2).2
            rw [hCycles, UInt32.le_iff_toNat_le,
              show (UInt32.ofNat count + 1 : UInt32) = .ofNat (count + 1) by simp,
              UInt32.toNat_ofNat_of_lt' (by simp only [UInt32.size]; omega)] at hPasses
            omega
          · omega
        | _ => cases hSubmits
    · rw [if_neg hSubmits] at hAfter ⊢
      refine ⟨?_, fun hBound => ?_⟩
      · rw [cycles, hRun', Option.map_some, hAfter]
        simp
      · simp only [hSubmits, Bool.false_and, Bool.false_eq_true, if_false]
        simpa using hPassed (by omega)

/-- A submission passes if and only if the ledger has not yet counted the limit. -/
def InTurn (flow : FlowDefinition) (runId node port : String) (limit : UInt32) (l : Ledger) :
    Phase ι → Prop
  | .call c => c.submits node port = true →
    if l.counted < limit.toNat then
      passes flow runId node port (c.trace flow runId l.runtime) = true
    else passes flow runId node port (c.trace flow runId l.runtime) = false ∧
      c.Refused flow runId l.runtime
  | _ => True

/-- A submission within the limit is saved; one over it is not, or its counter is still over the limit.
-/
def InRange (node port : String) (limit : UInt32) (l : Ledger) : Phase ι → Prop
  | .call c => c.submits node port = true →
    if l.counted < limit.toNat then l.runtime.fault = none
    else l.runtime.fault ≠ none ∨ limit.toNat < (l.counted + 1) % 2 ^ 32
  | _ => True

omit [DecidableEq ι] in
theorem inTurn_iff (hLimit : cycleLimit flow node port = some limit) {l : Ledger}
    (h : WithinBudget runId node port limit l) (phase : Phase ι) :
    InTurn flow runId node port limit l phase ↔ InRange node port limit l phase := by
  obtain ⟨w, count, passed⟩ := l
  cases phase with
  | restart | together => exact Iff.rfl
  | call c =>
    refine imp_congr_right fun hSubmits => ?_
    cases c with
    | submitted node' port' sha revision =>
      obtain ⟨rfl, rfl⟩ : node' = node ∧ port' = port := by simpa [Call.submits] using hSubmits
      obtain ⟨s, hRun, hCycles⟩ := Option.map_eq_some_iff.mp h.1
      obtain ⟨hPasses, hRefused⟩ := submitted_alone hLimit hRun sha revision
      have hNext : s.portCycles node' port' + 1 ≤ limit ↔ (count + 1) % 2 ^ 32 ≤ limit.toNat := by
        rw [hCycles, UInt32.le_iff_toNat_le]
        simp
      have hSmall : limit.toNat < 2 ^ 32 := limit.toNat_lt
      simp only
      by_cases hCount : count < limit.toNat
      · rw [if_pos hCount, if_pos hCount, hPasses, hNext, Nat.mod_eq_of_lt (by omega)]
        exact and_iff_left hCount
      · rw [if_neg hCount, if_neg hCount, ← Bool.not_eq_true, hPasses]
        rw [and_iff_left_of_imp hRefused, hNext, not_and_or, Nat.not_le]
    | _ => cases hSubmits

variable {w : FlowRuntime}

theorem withinBudget_start (hStart : w.cycles runId node port = some 0) :
    WithinBudget runId node port limit ⟨w, 0, 0⟩ :=
  ⟨hStart, fun _ => Nat.zero_le _⟩

theorem each_inTurn_iff (hLimit : cycleLimit flow node port = some limit)
    (hStart : w.cycles runId node port = some 0) {phases : List (Phase ι)}
    (hSaved : History.Each (Ledger.step flow runId node port) (Saved runId node port) ⟨w, 0, 0⟩ phases) :
    History.Each (Ledger.step flow runId node port) (InTurn flow runId node port limit) ⟨w, 0, 0⟩
        phases ↔
      History.Each (Ledger.step flow runId node port) (InRange node port limit) ⟨w, 0, 0⟩ phases := by
  have hBoth := @History.each_congr _ _ (Ledger.step flow runId node port)
    (fun l phase => Saved runId node port l phase ∧ InTurn flow runId node port limit l phase) _
    (fun l phase => Saved runId node port l phase ∧ InRange node port limit l phase)
    (WithinBudget runId node port limit)
    (withinBudget_start hStart) (fun l phase h hP => withinBudget_step hLimit h hP.1)
    (fun l phase h => and_congr_right fun _ => inTurn_iff hLimit h phase) phases
  rw [History.each_and, History.each_and] at hBoth
  exact ⟨fun h => (hBoth.mp ⟨hSaved, h⟩).2, fun h => (hBoth.mpr ⟨hSaved, h⟩).2⟩

/-- In the life of a run, with any calls alone or together and with restarts from files that are up
to date: while fewer than 2^32 submissions of a port have been counted, no more of them pass the
check than the limit allows; and the submissions that run alone pass in turn up to the limit and are
refused from then on if and only if their counts stay in range. -/
theorem submissions_within_budget (flow : FlowDefinition) (runId node port : String) (limit : UInt32)
    (w : FlowRuntime) (phases : List (Phase ι)) (hLimit : cycleLimit flow node port = some limit)
    (hStart : w.cycles runId node port = some 0)
    (hSaved : History.Each (Ledger.step flow runId node port) (Saved runId node port) ⟨w, 0, 0⟩
      phases) :
    ((History.play (Ledger.step flow runId node port) ⟨w, 0, 0⟩ phases).counted < 2 ^ 32 →
      (History.play (Ledger.step flow runId node port) ⟨w, 0, 0⟩ phases).passed ≤ limit.toNat) ∧
    (History.Each (Ledger.step flow runId node port) (InTurn flow runId node port limit) ⟨w, 0, 0⟩
        phases ↔
      History.Each (Ledger.step flow runId node port) (InRange node port limit) ⟨w, 0, 0⟩
        phases) := by
  refine ⟨fun hBound => ?_, each_inTurn_iff hLimit hStart hSaved⟩
  have hEnd := History.preserves (I := WithinBudget runId node port limit)
    (fun l phase h hPhase => withinBudget_step hLimit h hPhase) hSaved (withinBudget_start hStart)
  exact Nat.le_trans (hEnd.2 hBound) (Nat.min_le_left _ _)

end Bound

theorem play_calls (ι : Type) [DecidableEq ι] (flow : FlowDefinition) (runId node port : String)
    (calls : List Call) (l : Ledger) (hHealthy : l.runtime.Healthy) :
    let after := History.play (Ledger.step flow runId node port) l (calls.map (Phase.call (ι := ι)))
    after.counted = l.counted + calls.countP (·.submits node port) ∧ after.runtime.Healthy := by
  induction calls generalizing l with
  | nil => exact ⟨rfl, hHealthy⟩
  | cons c calls ih =>
    obtain ⟨hCounted, hHealthy⟩ :=
      ih (l.step flow runId node port (Phase.call (ι := ι) c)) (healthy_run _ hHealthy)
    refine ⟨hCounted.trans ?_, hHealthy⟩
    simp only [Ledger.step, Phase.counted, List.countP_cons]
    omega

def cappedNodes : List FlowNode :=
  [{ id := "writer", owner := "writer",
     outputs := [{ port := "draft", routesTo := some "critic", maxCycles := some 2 }] },
   { id := "critic", owner := "critic",
     outputs := [{ port := "notes", routesTo := some "writer" }] }]

def cappedFlow : FlowDefinition := .ofNodes "capped" [] cappedNodes "flow.yaml" (by decide)

def cappedStart : FlowRuntime := afterCalls cappedFlow "run" "brief" emptyRuntime []

def draftSubmitted : Call := .submitted "writer" "draft" "" 1

def draftPhases : List (Phase Bool) :=
  [.call draftSubmitted, .restart, .together (fun _ => draftSubmitted) [true, false, true, false]]

instance {ι : Type} (runId node port : String) (l : Ledger) (phase : Phase ι) :
    Decidable (Saved runId node port l phase) := by
  cases phase <;> unfold Saved <;> infer_instance

/-- A submission, a restart and two submissions at once. -/
theorem draft_within_budget :
    ((History.play (Ledger.step cappedFlow "run" "writer" "draft") ⟨cappedStart, 0, 0⟩
        draftPhases).counted < 2 ^ 32 →
      (History.play (Ledger.step cappedFlow "run" "writer" "draft") ⟨cappedStart, 0, 0⟩
        draftPhases).passed ≤ (2 : UInt32).toNat) ∧
    (History.Each (Ledger.step cappedFlow "run" "writer" "draft")
        (InTurn cappedFlow "run" "writer" "draft" 2) ⟨cappedStart, 0, 0⟩ draftPhases ↔
      History.Each (Ledger.step cappedFlow "run" "writer" "draft") (InRange "writer" "draft" 2)
        ⟨cappedStart, 0, 0⟩ draftPhases) :=
  submissions_within_budget cappedFlow "run" "writer" "draft" 2 cappedStart draftPhases (by decide)
    (by decide) (by decide)

/-- Of 2^32 submissions the last one is counted as 0, and passes the check. -/
theorem draft_passes_again :
    ¬History.Each (Ledger.step cappedFlow "run" "writer" "draft")
      (InTurn cappedFlow "run" "writer" "draft" 2) ⟨cappedStart, 0, 0⟩
      ((List.replicate (2 ^ 32) draftSubmitted).map (Phase.call (ι := Unit))) := by
  have hSaved (calls : List Call) (l : Ledger) :
      History.Each (Ledger.step cappedFlow "run" "writer" "draft") (Saved "run" "writer" "draft") l
        (calls.map (Phase.call (ι := Unit))) := by
    induction calls generalizing l with
    | nil => trivial
    | cons c calls ih => exact ⟨trivial, ih _⟩
  rw [each_inTurn_iff (by decide) (by decide) (hSaved _ _)]
  obtain ⟨n, hn⟩ : ∃ n, 2 ^ 32 = n + 1 := ⟨2 ^ 32 - 1, by omega⟩
  rw [hn, List.replicate_succ', List.map_append, History.each_append]
  rintro ⟨-, hLast, -⟩
  have hHealthy : cappedStart.Healthy := by decide
  obtain ⟨hCounted, hHealthy⟩ := play_calls Unit cappedFlow "run" "writer" "draft"
    (List.replicate n draftSubmitted) ⟨cappedStart, 0, 0⟩ hHealthy
  have hAll : (List.replicate n draftSubmitted).countP (·.submits "writer" "draft") = n := by
    rw [List.countP_replicate, if_pos (by decide)]
  rw [hAll, Nat.zero_add] at hCounted
  have hRange := hLast (by decide)
  rw [hCounted, ← hn, if_neg (by change ¬n < 2; omega), Nat.mod_self] at hRange
  rcases hRange with hFault | hOver
  · exact hFault hHealthy.fault
  · exact Nat.not_lt_zero _ hOver

end Cronymax.Flow
