import Cronymax.Flow.Effects

/-! What a submission and a verdict do, run alone.  Each of them splits into a part that leaves every
port alone (it counts, and writes files) and the part that its decision leads to. -/

namespace Cronymax.Flow

open Atomic FlowRuntime

variable {flow : FlowDefinition} {runId node port : String} {w : FlowRuntime} {s : FlowRunState}

/-- No section of the trace changes a port or records an invocation. -/
def Idle (tr : List (Act × FlowRuntime)) : Prop := ∀ e ∈ tr, e.1.isDeed = false

@[simp] theorem idle_nil : Idle [] := by simp [Idle]

@[simp] theorem idle_append {tr tr' : List (Act × FlowRuntime)} :
    Idle (tr ++ tr') ↔ Idle tr ∧ Idle tr' := by
  simp [Idle, or_imp, forall_and]

@[simp] theorem idle_cons {a : Act} {t : FlowRuntime} {tr : List (Act × FlowRuntime)} :
    Idle ((a, t) :: tr) ↔ a.isDeed = false ∧ Idle tr := by
  simp [Idle]

theorem idle_of_quiet {α : Type} {p : Op α} (hp : p.Only Act.Quiet) (w : FlowRuntime) :
    Idle (p.trace w) :=
  fun e he => Act.Quiet.not_deed (hp.trace w e he)

theorem getRun_run_of_quiet {α : Type} {p : Op α} (hp : p.Only Act.Quiet) (w : FlowRuntime)
    (runId : String) : (p.run w).2.getRun runId = w.getRun runId :=
  hp.run_preserves (I := fun t => t.getRun runId = w.getRun runId)
    (fun _ ha t ht => (Act.getRun_of_quiet ha t runId).trans ht) rfl

theorem healthy_run {α : Type} (p : Op α) (h : w.Healthy) : (p.run w).2.Healthy := by
  rw [Prog.run_snd]
  exact Prog.after_preserves (fun e _ t ht => ht.apply e.1) h

theorem isSome_run {α : Type} (p : Op α) (h : (w.getRun runId).isSome = true) :
    ((p.run w).2.getRun runId).isSome = true := by
  rw [Prog.run_snd]
  exact Prog.after_preserves (P := fun t : FlowRuntime => (t.getRun runId).isSome = true)
    (fun e _ _ ht => e.1.isSome_apply ht) h

/-- Run from `w`, the program `p` leaves the ports alone until it goes on as `q` from `w'`. -/
structure Leads {α : Type} (w : FlowRuntime) (p : Op α) (w' : FlowRuntime) (q : Op α) : Prop where
  run : p.run w = q.run w'
  trace : ∃ pre, Idle pre ∧ p.trace w = pre ++ q.trace w'
  healthy : w.Healthy → w'.Healthy

namespace Leads

variable {α β : Type} {w1 w2 w3 : FlowRuntime} {p q r : Op α}

theorem trans (h1 : Leads w1 p w2 q) (h2 : Leads w2 q w3 r) : Leads w1 p w3 r := by
  obtain ⟨pre1, hPre1, hTrace1⟩ := h1.trace
  obtain ⟨pre2, hPre2, hTrace2⟩ := h2.trace
  refine ⟨h1.run.trans h2.run, ⟨pre1 ++ pre2, idle_append.mpr ⟨hPre1, hPre2⟩, ?_⟩,
    h2.healthy ∘ h1.healthy⟩
  rw [hTrace1, hTrace2, List.append_assoc]

theorem bind {p : Op α} {a : α} (hOk : (p.run w).1 = .ok a) (hIdle : Idle (p.trace w))
    (f : α → Op β) : Leads w (p >>= f) (p.run w).2 (f a) :=
  ⟨Prog.run_bind_of_ok hOk f, ⟨p.trace w, hIdle, Prog.trace_bind_of_ok hOk f⟩, healthy_run p⟩

theorem bind_fail {p : Op α} {e : FlowError} (hError : (p.run w).1 = .error e)
    (hIdle : Idle (p.trace w)) (f : α → Op β) : Leads w (p >>= f) (p.run w).2 (.fail e) := by
  refine ⟨Prog.run_bind_of_error hError f, ⟨p.trace w, hIdle, ?_⟩, healthy_run p⟩
  rw [Prog.trace_bind_of_error hError]
  exact (List.append_nil _).symm

theorem map {w w' : FlowRuntime} {p q : Op α} (h : Leads w p w' q) (f : α → Op β) :
    Leads w (p >>= f) w' (q >>= f) := by
  obtain ⟨pre, hPre, hTrace⟩ := h.trace
  refine ⟨by rw [Prog.run_bind, Prog.run_bind, h.run], ⟨pre, hPre, ?_⟩, h.healthy⟩
  rw [Prog.trace_bind, Prog.trace_bind, h.run, hTrace, List.append_assoc]

end Leads

theorem FlowRuntime.portStatus_of_getRun (h : w.getRun runId = some s) (node port : String) :
    w.portStatus runId node port = s.portStatus node port := by
  rw [FlowRuntime.portStatus, h]

theorem Leads.exists_deed {α : Type} {w' : FlowRuntime} {p q : Op α} (h : Leads w p w' q)
    {P : Act × FlowRuntime → Prop} (hDeed : ∀ e, P e → e.1.isDeed = true) :
    (∃ e ∈ p.trace w, P e) ↔ ∃ e ∈ q.trace w', P e := by
  obtain ⟨pre, hPre, hTrace⟩ := h.trace
  rw [hTrace]
  refine exists_congr fun e => and_congr_left fun hP => ?_
  rw [List.mem_append]
  refine or_iff_right fun he => ?_
  have hIdle := hPre e he
  rw [hDeed e hP] at hIdle
  cases hIdle

theorem portStatus_run_of_only {α : Type} {P : Act → Prop} {p : Op α} (hp : p.Only P)
    {I : PortStatus → Prop}
    (hStep : ∀ a, P a → ∀ old, I old → I (a.newStatus runId node port old))
    (hRun : (w.getRun runId).isSome = true) (hStart : I (w.portStatus runId node port)) :
    I ((p.run w).2.portStatus runId node port) := by
  refine (hp.run_preserves (I := fun t => (t.getRun runId).isSome = true ∧
    I (t.portStatus runId node port)) (fun a ha t ht => ⟨a.isSome_apply ht.1, ?_⟩)
    ⟨hRun, hStart⟩).2
  exact (a.portStatus_apply ht.1 node port).symm ▸ hStep a ha _ ht.2

theorem view_run_of_only {α δ : Type} (view : FlowRunState → δ) {P : Act → Prop} {p : Op α}
    (hp : p.Only P)
    (hStep : ∀ a, P a → ∀ now s, view (a.onRun runId now s) = view s)
    (hRun : w.getRun runId = some s) :
    ∃ s', (p.run w).2.getRun runId = some s' ∧ view s' = view s := by
  refine hp.run_preserves (I := fun t : FlowRuntime => ∃ s', t.getRun runId = some s' ∧
    view s' = view s) (fun a ha t ht => ?_) ⟨s, hRun, rfl⟩
  obtain ⟨s', hs', hView⟩ := ht
  exact ⟨_, a.getRun_apply hs', (hStep a ha t.now s').trans hView⟩

/-- The verdicts that are kept under the key. -/
def FlowRuntime.verdicts (w : FlowRuntime) (runId key : String) : List (String × ReviewVerdict) :=
  match w.getRun runId with
  | some s => s.verdicts key
  | none => []

theorem FlowRuntime.verdicts_of_getRun (h : w.getRun runId = some s) (key : String) :
    w.verdicts runId key = s.verdicts key := by
  rw [FlowRuntime.verdicts, h]

theorem verdicts_run_of_plain {α : Type} {p : Op α} (hp : p.Only (·.isPlain = true))
    (hRun : (w.getRun runId).isSome = true) (key : String) :
    (p.run w).2.verdicts runId key = w.verdicts runId key := by
  obtain ⟨s, hs⟩ := Option.isSome_iff_exists.mp hRun
  obtain ⟨s', hs', hView⟩ := view_run_of_only (·.verdicts key) hp
    (fun a ha now s => a.verdicts_onRun ((a.isPlain_iff.mp ha).1) runId now s key) hs
  rw [FlowRuntime.verdicts_of_getRun hs', hView, FlowRuntime.verdicts_of_getRun hs]

theorem portStatus_of_recordVerdict {w' : FlowRuntime} {key reviewer : String} {vote : ReviewVerdict}
    (hRun : w.getRun runId = some s)
    (hRun' : w'.getRun runId = some (s.recordVerdict key reviewer vote)) (node port : String) :
    w'.portStatus runId node port = w.portStatus runId node port := by
  rw [FlowRuntime.portStatus_of_getRun hRun', FlowRunState.portStatus_recordVerdict,
    FlowRuntime.portStatus_of_getRun hRun]

theorem keepComments_quiet (flowId runId port reviewer : String) (comments : List ReviewComment) :
    (keepComments flowId runId port reviewer comments).Only Act.Quiet := by
  unfold keepComments
  split
  · trivial
  · exact writeReviewComments_quiet _ _ _ _ _

theorem writeReviews_ok (h : w.Healthy) (flowId runId : String) (reviews : Reviews) :
    ((writeReviews flowId runId reviews).run w).1 = .ok () := by
  have hRename : ((Act.writeReviewsTmp flowId runId reviews).apply w).renameFault flowId runId =
      none := by
    have hFault := (h.apply (.writeReviewsTmp flowId runId reviews)).fault
    unfold renameFault
    rw [hFault]
    simp [Act.apply, h.fault]
  simp only [writeReviews, Prog.perform_bind, Prog.run, h.fault]
  have hRun : (Acts.apply (Act.writeReviewsTmp flowId runId reviews) w : FlowRuntime).renameFault
      flowId runId = none := hRename
  rw [hRun]
  rfl

theorem keepComments_ok (h : w.Healthy) (flowId runId port reviewer : String)
    (comments : List ReviewComment) :
    ((keepComments flowId runId port reviewer comments).run w).1 = .ok () := by
  unfold keepComments
  split
  · rfl
  · simp only [writeReviewComments, readReviews, Prog.perform_bind, Prog.act_bind, Prog.run,
      h.fault, Prog.done_bind, Prog.pure_eq]
    exact writeReviews_ok ((h.apply _).apply _) _ _ _

theorem persistVerdicts_quiet (runId : String) : (persistVerdicts runId).Only Act.Quiet := by
  refine .perform rfl fun w => ?_
  split
  · trivial
  · exact (persistRun_quiet _).attempt.bind fun _ => trivial

theorem persistVerdicts_ok (runId : String) (w : FlowRuntime) :
    ((persistVerdicts runId).run w).1 = .ok () := by
  simp only [persistVerdicts, Prog.perform_bind, Prog.run]
  split
  · rfl
  · rw [Prog.run_bind_of_ok (by rw [Prog.run_attempt])]
    rfl

theorem Requeues.newStatus {a : Act} (h : Requeues runId node port a) (node' port' : String)
    (old : PortStatus) : a.newStatus runId node' port' old = old ∨
      (node' = node ∧ port' = port) ∧ a.newStatus runId node' port' old = .pending := by
  rcases h with h | rfl | rfl
  · exact .inl (Act.newStatus_of_not_deed h.not_deed runId node' port' old)
  · by_cases hPort : node' = node ∧ port' = port <;> simp [hPort]
  · exact .inl (by simp)

theorem Cascades.newStatus {a : Act} (h : Cascades runId node port flow a) (node' port' : String)
    (old : PortStatus) : a.newStatus runId node' port' old = old ∨
      (node' = node ∧ port' = port) ∧ a.newStatus runId node' port' old = .approved ∨
        HumanOwned flow node' port' ∧ a.newStatus runId node' port' old = .awaitingOwner := by
  rcases h with h | rfl | ⟨key, entry, rfl⟩ | ⟨nodeId, trigger, _, h⟩
  · exact .inl (Act.newStatus_of_not_deed h.not_deed runId node' port' old)
  · by_cases hPort : node' = node ∧ port' = port ∧ old ≠ .approved
    · exact .inr (.inl ⟨⟨hPort.1, hPort.2.1⟩, by simp [hPort]⟩)
    · exact .inl (by simp [hPort])
  · exact .inl (Act.newStatus_of_not_deed rfl runId node' port' old)
  · rcases h.newStatus node' port' old with h | ⟨h1, rfl⟩
    · exact .inl h
    · exact .inr (.inr ⟨h1, by simp⟩)

theorem status_requeues {α : Type} {p : Op α} (hp : p.Only (Requeues runId node port))
    (hRun : (w.getRun runId).isSome = true) :
    (p.run w).2.portStatus runId node port = w.portStatus runId node port ∨
      (p.run w).2.portStatus runId node port = .pending := by
  refine portStatus_run_of_only hp (I := fun status => status = w.portStatus runId node port ∨
    status = .pending) (fun a ha old hOld => ?_) hRun (.inl rfl)
  rcases ha.newStatus node port old with h | ⟨_, h⟩
  · rwa [h]
  · exact .inr h

theorem Requeues.plain {a : Act} (h : Requeues runId node port a) : a.isPlain = true := by
  rcases h with h | rfl | rfl
  · exact h.plain
  · rfl
  · rfl

theorem Cascades.plain {a : Act} (h : Cascades runId node port flow a) : a.isPlain = true := by
  rcases h with h | rfl | ⟨_, _, rfl⟩ | ⟨_, _, _, _, _, ⟨_, _, _, rfl⟩ | ⟨_, rfl⟩⟩
  · exact h.plain
  all_goals rfl

theorem countVerdict_run (node port reviewer : String) (vote : ReviewVerdict)
    (hRun : w.getRun runId = some s) :
    (countVerdict runId node port reviewer vote).run w =
        (.ok (Ballot.record (s.verdicts (verdictKey runId node port)) reviewer vote),
          (Act.recordVerdict runId (verdictKey runId node port) reviewer vote).apply w) ∧
      (countVerdict runId node port reviewer vote).trace w =
        [(.recordVerdict runId (verdictKey runId node port) reviewer vote, w)] := by
  simp only [countVerdict, Prog.perform_bind, Prog.run, Prog.trace, hRun]
  exact ⟨rfl, rfl⟩

theorem countVerdict_leads (flow : FlowDefinition) (node port reviewer : String)
    (vote : ReviewVerdict) (hRun : w.getRun runId = some s) :
    ∃ w', w'.getRun runId = some (s.recordVerdict (verdictKey runId node port) reviewer vote) ∧
      Leads w (countVerdict runId node port reviewer vote >>= fun verdicts =>
          persistVerdicts runId >>= fun _ => settleVerdict runId node port flow verdicts) w'
        (settleVerdict runId node port flow
          (Ballot.record (s.verdicts (verdictKey runId node port)) reviewer vote)) := by
  obtain ⟨hCount, hTrace⟩ := countVerdict_run node port reviewer vote hRun
  have hCounted := Leads.bind (congrArg Prod.fst hCount) (by rw [hTrace]; simp [Act.isDeed])
    fun verdicts => persistVerdicts runId >>= fun _ => settleVerdict runId node port flow verdicts
  rw [hCount] at hCounted
  have hRun1 := Act.getRun_apply
    (.recordVerdict runId (verdictKey runId node port) reviewer vote) hRun
  generalize Act.apply (.recordVerdict runId (verdictKey runId node port) reviewer vote) w = w1
    at hRun1 hCounted
  have hPersist := persistVerdicts_quiet runId
  refine ⟨_, ?_, hCounted.trans (.bind (persistVerdicts_ok runId w1) (idle_of_quiet hPersist w1) _)⟩
  rw [getRun_run_of_quiet hPersist, hRun1]
  simp [Act.onRun, Act.target, Act.change]

theorem onReviewerVerdict_leads (reviewer : String) (vote : ReviewVerdict)
    (comments : List ReviewComment) (flow : FlowDefinition) (node port : String)
    (hRun : w.getRun runId = some s) :
    (¬w.Healthy ∧ ∃ e w', w'.getRun runId = some s ∧
        Leads w (onReviewerVerdict runId node port reviewer vote comments flow) w' (.fail e)) ∨
      ∃ w', w'.getRun runId = some (s.recordVerdict (verdictKey runId node port) reviewer vote) ∧
        Leads w (onReviewerVerdict runId node port reviewer vote comments flow) w'
          (settleVerdict runId node port flow
            (Ballot.record (s.verdicts (verdictKey runId node port)) reviewer vote)) := by
  have hStart : Leads w (onReviewerVerdict runId node port reviewer vote comments flow) w
      (keepComments s.flowId runId port reviewer comments >>= fun _ =>
        countVerdict runId node port reviewer vote >>= fun verdicts =>
          persistVerdicts runId >>= fun _ => settleVerdict runId node port flow verdicts) := by
    refine ⟨?_, ⟨[(.getRun runId, w)], idle_cons.mpr ⟨rfl, idle_nil⟩, ?_⟩, id⟩
    · simp only [onReviewerVerdict, Prog.perform_bind, Prog.run, hRun]
      rfl
    · simp only [onReviewerVerdict, Prog.perform_bind, Prog.trace, hRun]
      rfl
  have hKeep := keepComments_quiet s.flowId runId port reviewer comments
  have hRun1 := (getRun_run_of_quiet hKeep w runId).trans hRun
  cases hComments : ((keepComments s.flowId runId port reviewer comments).run w).1 with
  | error e =>
    refine .inl ⟨fun hHealthy => ?_, e, _, hRun1,
      hStart.trans (.bind_fail hComments (idle_of_quiet hKeep w) _)⟩
    rw [keepComments_ok hHealthy] at hComments
    cases hComments
  | ok _ =>
    obtain ⟨w', hRun', hCounted⟩ := countVerdict_leads flow node port reviewer vote hRun1
    exact .inr ⟨w', hRun', hStart.trans
      ((Leads.bind hComments (idle_of_quiet hKeep w) _).trans hCounted)⟩

/-- `max_cycles` where it is more than zero. -/
def cycleLimit (flow : FlowDefinition) (node port : String) : Option UInt32 :=
  ((flow.output node port).bind (·.maxCycles)).filter (· > 0)

/-- The record after a submission has been counted, which happens only where there is a limit. -/
def counted (flow : FlowDefinition) (node port : String) (s : FlowRunState) : FlowRunState :=
  if (cycleLimit flow node port).isSome then s.incrementPortCycles node port else s

/-- One submission more would be over the limit. -/
def exhausted (flow : FlowDefinition) (node port : String) (s : FlowRunState) : Bool :=
  (cycleLimit flow node port).any (s.portCycles node port + 1 > ·)

@[simp] theorem portStatus_counted (flow : FlowDefinition) (node port : String) (s : FlowRunState)
    (node' port' : String) :
    (counted flow node port s).portStatus node' port' = s.portStatus node' port' := by
  unfold counted
  split <;> simp

theorem portStatus_of_counted {w' : FlowRuntime} {node' port' : String}
    (hRun : w.getRun runId = some s) (hRun' : w'.getRun runId = some (counted flow node' port' s))
    (node port : String) : w'.portStatus runId node port = w.portStatus runId node port := by
  rw [FlowRuntime.portStatus_of_getRun hRun', portStatus_counted,
    FlowRuntime.portStatus_of_getRun hRun]

theorem verdicts_counted (flow : FlowDefinition) (node port : String) (s : FlowRunState)
    (key : String) : (counted flow node port s).verdicts key = s.verdicts key := by
  unfold counted
  split <;> rfl

theorem incrementPortCycles_only (runId node port : String) :
    (incrementPortCycles runId node port).Only fun a =>
      a.Quiet ∨ a = .incrementPortCycles runId node port :=
  (updateRun_only _ _ _).bind fun _ => trivial

theorem incrementPortCycles_run (node port : String) (hRun : w.getRun runId = some s) :
    ((incrementPortCycles runId node port).run w).2.getRun runId =
        some (s.incrementPortCycles node port) ∧
      (((incrementPortCycles runId node port).run w).1 = .ok (s.portCycles node port + 1) ∨
        ¬w.Healthy ∧ ∃ e, ((incrementPortCycles runId node port).run w).1 = .error e) := by
  have hCycles : (s.incrementPortCycles node port).portCycles node port =
      s.portCycles node port + 1 := by simp [FlowRunState.portCycles_incrementPortCycles]
  have hRun1 := Act.getRun_apply (.incrementPortCycles runId node port) hRun
  simp only [incrementPortCycles, updateRun, Prog.perform_bind, Prog.act_bind, Prog.run, hRun]
  rw [bind_assoc]
  have hPersist := getRun_run_of_quiet (persistRun_quiet (s.incrementPortCycles node port))
    (Act.apply (.incrementPortCycles runId node port) w) runId
  rw [hRun1] at hPersist
  cases h : ((persistRun (s.incrementPortCycles node port)).run
      (Act.apply (.incrementPortCycles runId node port) w)).1 with
  | ok _ =>
    rw [Prog.run_bind_of_ok (by exact h)]
    refine ⟨hPersist.trans ?_, .inl (congrArg Except.ok hCycles)⟩
    simp [Act.onRun, Act.target, Act.change]
  | error e =>
    rw [Prog.run_bind_of_error (by exact h)]
    refine ⟨hPersist.trans ?_, .inr ⟨fun hHealthy => ?_, e, rfl⟩⟩
    · simp [Act.onRun, Act.target, Act.change]
    · have hGood : (Act.apply (.incrementPortCycles runId node port) w).Good runId :=
        ⟨hHealthy.apply _, by rw [hRun1]; rfl⟩
      obtain ⟨_, hOk, _⟩ := (persistRun_achieves _).run Good.apply hGood
      rw [h] at hOk
      cases hOk

theorem checkCycleLimit_eq (runId : String) (flow : FlowDefinition) (node port : String) :
    ∃ action, checkCycleLimit runId node port flow = match cycleLimit flow node port with
      | none => pure none
      | some limit => incrementPortCycles runId node port >>= fun count =>
        pure (if count > limit then some action else none) := by
  unfold checkCycleLimit cycleLimit
  cases flow.output node port with
  | none => exact ⟨"", rfl⟩
  | some output =>
    refine ⟨output.onCycleExhausted.getD "halt", ?_⟩
    cases hMax : output.maxCycles with
    | none => simp [hMax]
    | some limit =>
      by_cases hPos : limit > 0
      · simp only [Option.bind_some, hMax, hPos, if_true, Option.filter_some, decide_true]
      · simp only [Option.bind_some, hMax, hPos, if_false, Option.filter_some, decide_false,
          Bool.false_eq_true]

theorem checkCycleLimit_run (flow : FlowDefinition) (node port : String)
    (hRun : w.getRun runId = some s) :
    Idle ((checkCycleLimit runId node port flow).trace w) ∧
      ((checkCycleLimit runId node port flow).run w).2.getRun runId =
        some (counted flow node port s) ∧
      ((∃ action, ((checkCycleLimit runId node port flow).run w).1 =
          .ok (if exhausted flow node port s then some action else none)) ∨
        ¬w.Healthy ∧ ∃ e, ((checkCycleLimit runId node port flow).run w).1 = .error e) := by
  obtain ⟨action, hCheck⟩ := checkCycleLimit_eq runId flow node port
  cases hLimit : cycleLimit flow node port with
  | none =>
    rw [hLimit] at hCheck
    rw [hCheck]
    exact ⟨idle_nil, by simpa [counted, hLimit, Prog.run] using hRun,
      .inl ⟨"", by simp [exhausted, hLimit, Prog.run]⟩⟩
  | some limit =>
    rw [hLimit] at hCheck
    obtain ⟨hRun1, hResult⟩ := incrementPortCycles_run node port hRun
    have hCounted : counted flow node port s = s.incrementPortCycles node port := by
      simp [counted, hLimit]
    have hExhausted : exhausted flow node port s = decide (s.portCycles node port + 1 > limit) := by
      simp [exhausted, hLimit]
    have hOnly : (checkCycleLimit runId node port flow).Only fun a =>
        a.Quiet ∨ a = .incrementPortCycles runId node port :=
      hCheck ▸ (incrementPortCycles_only runId node port).bind fun _ => trivial
    refine ⟨fun e he => ?_, ?_⟩
    · rcases hOnly.trace w e he with h | h
      · exact h.not_deed
      · rw [h]
        rfl
    · rw [hCheck, hCounted, hExhausted]
      rcases hResult with hOk | ⟨hUnhealthy, e, hError⟩
      · rw [Prog.run_bind_of_ok hOk]
        exact ⟨hRun1, .inl ⟨action, by simp [Prog.run]⟩⟩
      · rw [Prog.run_bind_of_error hError]
        exact ⟨hRun1, .inr ⟨hUnhealthy, e, rfl⟩⟩

theorem noteReview_ok (runId doc node sha : String) (revision : UInt32) (status : String)
    (w : FlowRuntime) : ((noteReview runId doc node sha revision status).run w).1 = .ok () := by
  simp only [noteReview, Prog.perform_bind, Prog.run]
  split
  · rfl
  · rw [Prog.run_bind_of_ok (by rw [Prog.run_attempt])]
    rfl

theorem onDocumentSubmitted_leads (flow : FlowDefinition) (node port sha : String)
    (revision : UInt32) (hRun : w.getRun runId = some s) :
    ∃ w', w'.getRun runId = some (counted flow node port s) ∧
      ((∃ e, (w.Healthy → exhausted flow node port s = true) ∧
          Leads w (onDocumentSubmitted runId node port flow sha revision) w' (.fail e)) ∨
        exhausted flow node port s = false ∧
          Leads w (onDocumentSubmitted runId node port flow sha revision) w'
            (receiveDocument runId node port flow)) := by
  obtain ⟨next, hStart, hRefused, hAccepted⟩ : ∃ next : Option String → Op (List InvocationContext),
      onDocumentSubmitted runId node port flow sha revision =
        checkCycleLimit runId node port flow >>= next ∧
      (∀ action, next (some action) = .fail (.cycleLimit node port action)) ∧
      next none = noteReview runId port node sha revision "IN_REVIEW" >>= fun _ =>
        receiveDocument runId node port flow := ⟨_, rfl, fun _ => rfl, rfl⟩
  rw [hStart]
  obtain ⟨hIdle, hRun1, ⟨action, hOk⟩ | ⟨hUnhealthy, e, hError⟩⟩ :=
    checkCycleLimit_run flow node port hRun
  · have hFirst := Leads.bind hOk hIdle next
    generalize ((checkCycleLimit runId node port flow).run w).2 = w1 at hRun1 hFirst
    cases hLimit : exhausted flow node port s with
    | true =>
      rw [hLimit, if_pos rfl, hRefused] at hFirst
      exact ⟨w1, hRun1, .inl ⟨_, fun _ => rfl, hFirst⟩⟩
    | false =>
      rw [hLimit, if_neg Bool.false_ne_true, hAccepted] at hFirst
      have hNote := noteReview_quiet runId port node sha revision "IN_REVIEW"
      refine ⟨_, (getRun_run_of_quiet hNote w1 runId).trans hRun1, .inr ⟨rfl, hFirst.trans ?_⟩⟩
      exact .bind (noteReview_ok _ _ _ _ _ _ w1) (idle_of_quiet hNote w1) _
  · exact ⟨_, hRun1, .inl ⟨e, fun h => absurd h hUnhealthy, .bind_fail hError hIdle next⟩⟩

theorem requestReviews_only (runId node port : String) (reviewers : List String) :
    (requestReviews runId node port reviewers).Only fun a =>
      a.Quiet ∨ a = .markPortStatus runId node port .inReview :=
  (markPortStatus_only _ _ _ _).bind fun _ => .perform (.inl rfl) fun _ => trivial

theorem status_requestReviews (node port : String) (reviewers : List String)
    (hRun : (w.getRun runId).isSome = true) (node' port' : String) :
    ((requestReviews runId node port reviewers).run w).2.portStatus runId node' port' =
        w.portStatus runId node' port' ∨
      (node', port') = (node, port) ∧ w.portStatus runId node' port' ≠ .approved ∧
        ((requestReviews runId node port reviewers).run w).2.portStatus runId node' port' =
          .inReview := by
  refine portStatus_run_of_only (requestReviews_only runId node port reviewers) (I := fun status =>
    status = w.portStatus runId node' port' ∨
      (node', port') = (node, port) ∧ w.portStatus runId node' port' ≠ .approved ∧
        status = .inReview)
    (fun a ha old hOld => ?_) hRun (.inl rfl)
  rcases ha with ha | rfl
  · rwa [Act.newStatus_of_not_deed ha.not_deed]
  · rw [Act.newStatus_markPortStatus]
    split
    · rename_i hNot
      refine .inr ⟨by rw [hNot.2.1, hNot.2.2.1], ?_, rfl⟩
      rcases hOld with rfl | hOld
      · exact hNot.2.2.2
      · exact hOld.2.1
    · exact hOld

/-- The reviewers that the output names. -/
def listedReviewers (flow : FlowDefinition) (node port : String) : List String :=
  ((flow.output node port).map (·.reviewers)).getD []

theorem receiveDocument_eq (runId node port : String) (flow : FlowDefinition) :
    receiveDocument runId node port flow =
      if listedReviewers flow node port = [] then onDocumentApproved runId node port flow
      else requestReviews runId node port (listedReviewers flow node port) := by
  unfold receiveDocument listedReviewers
  by_cases h : ((flow.output node port).map (·.reviewers)).getD [] = []
  · simp only [h, List.isEmpty_nil, if_true]
  · simp only [h, List.isEmpty_iff, if_false]

theorem receiveDocument_of_reviewers (runId : String) (h : agentReviewers flow node port ≠ []) :
    ∃ reviewers, receiveDocument runId node port flow =
      requestReviews runId node port reviewers := by
  unfold receiveDocument
  cases hOutput : flow.output node port with
  | none => simp [agentReviewers, hOutput] at h
  | some output =>
    have : output.reviewers ≠ [] := by
      intro hNil
      simp [agentReviewers, hOutput, hNil] at h
    exact ⟨output.reviewers, by simp [this]⟩

theorem receiveDocument_only (runId node port : String) (flow : FlowDefinition) :
    (receiveDocument runId node port flow).Only fun a =>
      Cascades runId node port flow a ∨ a = .markPortStatus runId node port .inReview := by
  simp only [receiveDocument]
  split
  · exact (onDocumentApproved_only runId node port flow).mono fun _ ha => .inl ha
  · exact (requestReviews_only _ _ _ _).mono fun _ ha => ha.imp .inl id

theorem receiveDocument_plain (runId node port : String) (flow : FlowDefinition) :
    (receiveDocument runId node port flow).Only (·.isPlain = true) := by
  refine (receiveDocument_only runId node port flow).mono fun a ha => ?_
  rcases ha with ha | rfl
  · exact ha.plain
  · rfl

/-- The cycle limit stops the submission. -/
@[grind =] def overLimit (flow : FlowDefinition) (runId node port : String) (w : FlowRuntime) : Bool :=
  (w.getRun runId).any (exhausted flow node port)

theorem status_submitted_overLimit {node' port' : String}
    (hLimit : overLimit flow runId node' port' w = true) (sha : String) (revision : UInt32)
    (node port : String) :
    ((Call.submitted node' port' sha revision).step flow runId w).portStatus runId node port =
      w.portStatus runId node port := by
  obtain ⟨s, hRun, hExhausted⟩ : ∃ s, w.getRun runId = some s ∧ exhausted flow node' port' s = true :=
    by simpa [overLimit, Option.any_eq_true] using hLimit
  obtain ⟨w', hRun', ⟨e, _, hLeads⟩ | ⟨hWithin, _⟩⟩ :=
    onDocumentSubmitted_leads flow node' port' sha revision hRun
  · unfold Call.step Call.op
    simp only
    rw [hLeads.run]
    simp only [Prog.run, FlowRuntime.portStatus_of_getRun hRun', portStatus_counted,
      FlowRuntime.portStatus_of_getRun hRun]
  · rw [hExhausted] at hWithin
    cases hWithin

theorem verdicts_submitted (hRun : (w.getRun runId).isSome = true) (flow : FlowDefinition)
    (node port sha : String) (revision : UInt32) (key : String) :
    ((Call.submitted node port sha revision).step flow runId w).verdicts runId key =
      w.verdicts runId key := by
  obtain ⟨s, hRun⟩ := Option.isSome_iff_exists.mp hRun
  obtain ⟨w', hRun', hCases⟩ := onDocumentSubmitted_leads flow node port sha revision hRun
  have hSame : w'.verdicts runId key = w.verdicts runId key := by
    rw [FlowRuntime.verdicts_of_getRun hRun', verdicts_counted, FlowRuntime.verdicts_of_getRun hRun]
  unfold Call.step Call.op
  simp only
  rcases hCases with ⟨e, _, hLeads⟩ | ⟨_, hLeads⟩
  · rw [hLeads.run]
    exact hSame
  · rw [hLeads.run, ← hSame]
    exact verdicts_run_of_plain (receiveDocument_plain runId node port flow) (by rw [hRun']; rfl) key

end Cronymax.Flow
