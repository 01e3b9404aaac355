import Cronymax.Atomic.History
import Cronymax.Atomic.Interleaving
import Cronymax.Atomic.Rely
import Cronymax.Agent.Handlers
import Cronymax.Agent.Conversation

/-! What the history file of a session holds after its runs.  A run goes on from the thread that it loads,
and hands a thread back to the session; in the end it appends to the file.  A turn of `spawn_chat`
appends what it has added.  The other runs append the whole thread, with what they have loaded. -/

namespace Cronymax.Agent

open Atomic Authority

/-- The messages that an access appends to the history file of the session. -/
def HostAct.turnsFor (sid : SessionId) : HostAct → List ChatMessage
  | .appendTurns s turns => if s = sid then turns else []
  | _ => []

/-- All that a run appends to the history file of the session. -/
def appended (sid : SessionId) (tr : List (HostAct × Host)) : List ChatMessage :=
  tr.flatMap fun e => e.1.turnsFor sid

namespace LoopTask

variable (t : LoopTask)

/-- The loop with what it ends with. -/
def driven (config : LoopConfig) (thread : List ChatMessage) :
    HostOp (Except LoopError (ReactLoop × Except LoopError Unit)) :=
  let l := t.loop config thread
  let op : AgentOp (ReactLoop × Except LoopError Unit) := do
    let _ ← ask (markRunRunning t.runId)
    ReactLoop.drive l.config.maxTurns l
  (op.within .act Host.world id).attempt

/-- A task up to the end of its loop: the thread it began with, and the loop. -/
def turns : HostOp (Option (List ChatMessage × ReactLoop)) := do
  let prior ← t.prior
  let _ ← Prog.perform .await
  match t.provider with
  | .error _ => pure none
  | .ok config => do
    let thread ← t.effectiveThread prior config.model
    let result ← t.driven config thread
    pure (result.toOption.map fun r => (thread, r.1))

/-- The messages that the loop has added to its thread. -/
def added : Option (List ChatMessage × ReactLoop) → List ChatMessage
  | some (thread, l) => l.history.drop thread.length
  | none => []

/-- Of a task's thread, the part that its site appends. -/
def share (loaded thread : List ChatMessage) : List ChatMessage :=
  if t.site = .spawnChat then thread.drop loaded.length else thread

/-- If the task takes turns, the authority has the session in the end, and the task is a turn of
`spawn_chat` or has loaded nothing.  If it takes none, the thread of the session is no longer than what
the task leaves out, or the provider cannot be built. -/
def Suits (loaded : List ChatMessage) (taken : Option (List ChatMessage × ReactLoop))
    (last : Option (List ChatMessage)) : Prop :=
  match t.provider, taken with
  | .error _, _ => True
  | .ok _, some _ => last.isSome ∧ (t.site = .spawnChat ∨ loaded = [])
  | .ok _, none => (last.getD []).length ≤ if t.site = .spawnChat then loaded.length else 0

end LoopTask

/-- One request on a session with the task that it spawns, and what both have done. -/
structure SessionRun where
  request : Request
  handled : List (HostAct × Host)
  task : LoopTask
  trace : List (HostAct × Host)

abbrev fileOf (sid : SessionId) : Watch (List Line) HostAct Host := .undisturbed (·.lines sid)

abbrev threadOf (sid : SessionId) : Watch (Option (List ChatMessage)) HostAct Host :=
  .undisturbed (·.thread? sid)

namespace SessionRun

variable (sid : SessionId) (lines : List Line) (run : SessionRun)

/-- The run takes place in the session, which has a chat store, and nobody else changes the history file
or the thread meanwhile. -/
structure Happens : Prop where
  handled : ∃ response, Prog.Yields run.request.prog run.handled response
  spawned : ∃ h, (.spawn run.task, h) ∈ run.handled
  session : run.task.sessionId = some sid
  chatStore : run.task.chatStore
  trace : ∃ result, Prog.Yields run.task.prog run.trace result
  file : (fileOf sid).Along (fileOf sid).assumes lines (run.handled ++ run.trace)
  thread : ∃ thread, (threadOf sid).Along (threadOf sid).assumes thread run.trace

/-- The history file after the run. -/
def after : List Line := (fileOf sid).after lines (run.handled ++ run.trace)

/-- The loop as it has ended, with the thread it began with. -/
def taken : Option (List ChatMessage × ReactLoop) :=
  match run.task.turns.follow run.trace with
  | some (.ok taken) => taken
  | _ => none

/-- The messages that the loop of the run has added. -/
def messages : List ChatMessage := LoopTask.added run.taken

/-- The thread of the session when the task last looked. -/
def lastThread : Option (List ChatMessage) := (threadOf sid).after none run.trace

/-- What the task appends is what its loop has added. -/
def Suited : Prop :=
  run.task.Suits (ChatStore.loadHistory lines) run.taken (run.lastThread sid)

end SessionRun

/-- A loop of the run that goes on from a thread, for a session. -/
structure GoesOn (runId : RunId) (sid : SessionId) (thread : List ChatMessage) (l : ReactLoop) : Prop where
  runId : l.runId = runId
  session : l.config.sessionId = some sid
  history : thread <+: l.history

theorem goesOn_kept (runId : RunId) (sid : SessionId) (thread : List ChatMessage) :
    Kept runId (GoesOn runId sid thread) where
  runId h := h.runId
  push h _ := ⟨h.runId, h.session, h.history.trans (List.prefix_append _ _)⟩
  count h _ _ _ := ⟨h.runId, h.session, h.history⟩

def idleWatch : Watch Unit Act World := ⟨fun _ _ _ => True, fun _ _ _ => True, fun _ _ _ => ()⟩

theorem drive_kept {runId : RunId} {K : ReactLoop → Prop} (hKept : Kept runId K) {l : ReactLoop}
    (hLoop : K l) {turns : Nat} {tr : List (Act × World)}
    {r : Except LoopError (ReactLoop × Except LoopError Unit)}
    (h : Prog.Yields (ReactLoop.drive turns l) tr r) : ∃ l' result, r = .ok (l', result) ∧ K l' := by
  have hPasses : ∀ x, Passes idleWatch (fun _ => True) x := fun _ _ _ _ => ⟨trivial, trivial⟩
  have hMeets := ReactLoop.turns_rule (m := ()) hKept
    (fun _ ctx call _ hLoop hm => ReactLoop.runOneTool_rule (fun x _ => hPasses x) hKept hLoop ctx call hm)
    (fun _ _ => hPasses _) (fun _ _ _ => trivial) (fun _ _ _ _ _ => trivial) hLoop turns
  have hEnd := (hMeets.sound h (Watch.along_of_forall fun _ _ _ => trivial)).2
  cases r with
  | ok r => exact ⟨r.1, r.2, rfl, hEnd⟩
  | error e => exact hEnd.elim

theorem flush_eq {l : ReactLoop} {sid : SessionId} (h : l.config.sessionId = some sid) :
    l.flush = .act (.locked (.operation (.flushThread sid l.history))) fun _ => .done () := by
  rw [ReactLoop.flush, h]
  simp only [ask_lock, Prog.attempt, Prog.act_bind]
  refine congrArg (Prog.act _) (funext fun w => ?_)
  cases w.authority.answer (Section.decide w.authority (.operation (.flushThread sid l.history))) <;> rfl

section Views

variable {sid : SessionId} {x : HostAct} {h : Host}

theorem appendTurns_nil (lines : List Line) : ChatStore.appendTurns [] lines = lines := by
  rw [ChatStore.appendTurns, List.map_nil, List.append_nil]

theorem appendTurns_append (turns turns' : List ChatMessage) (lines : List Line) :
    ChatStore.appendTurns (turns ++ turns') lines =
      ChatStore.appendTurns turns' (ChatStore.appendTurns turns lines) := by
  simp only [ChatStore.appendTurns, List.map_append, List.append_assoc]

theorem appended_append (tr tr' : List (HostAct × Host)) :
    appended sid (tr ++ tr') = appended sid tr ++ appended sid tr' := List.flatMap_append

theorem turnsFor_quiet (hx : x.IsQuiet) : x.turnsFor sid = [] := by
  cases x with
  | appendTurns _ _ => exact hx.elim
  | _ => rfl

theorem appended_quiet {tr : List (HostAct × Host)} (h : ∀ e ∈ tr, e.1.IsQuiet) :
    appended sid tr = [] :=
  List.flatMap_eq_nil_iff.mpr fun e he => turnsFor_quiet (h e he)

theorem lines_apply (x : HostAct) (h : Host) :
    (Acts.apply x h).lines sid = ChatStore.appendTurns (x.turnsFor sid) (h.lines sid) := by
  cases x with
  | appendTurns s turns =>
    simp only [HostAct.turnsFor, Acts.apply, Host.lines, Table.lookup_insert_if, eq_comm (a := sid)]
    split
    · rename_i hSame
      subst hSame
      rfl
    · rw [appendTurns_nil]
  | _ => exact (appendTurns_nil _).symm

theorem file_after {lines : List Line} {tr : List (HostAct × Host)}
    (hFile : (fileOf sid).Along (fileOf sid).assumes lines tr) :
    (fileOf sid).after lines tr = ChatStore.appendTurns (appended sid tr) lines := by
  induction tr generalizing lines with
  | nil => exact (appendTurns_nil lines).symm
  | cons e tr ih =>
    obtain ⟨x, h⟩ := e
    obtain ⟨hHere, hRest⟩ := hFile
    rw [Watch.after_cons, ih hRest]
    simp only [Watch.undisturbed] at hHere ⊢
    rw [lines_apply, hHere, ← appendTurns_append]
    rfl

/-- The action leaves the threads of all sessions. -/
def KeepsThreads (x : HostAct) : Prop :=
  ∀ (h : Host) (sid : SessionId), (Acts.apply x h).thread? sid = h.thread? sid

theorem transition_sessions (w : RuntimeAuthority) (runId : RunId) (t : Transition) :
    ((w.transitionRun runId t).snapshot w.inner.snapshot).sessions = w.inner.snapshot.sessions := by
  rw [RuntimeAuthority.transitionRun]
  cases w.run? runId with
  | none => rfl
  | some run =>
    dsimp only
    cases t.next run.status <;> rfl

theorem keepsThreads_locked {x : Section} (hx : ∀ w : RuntimeAuthority,
    ((x.decide w).snapshot w.inner.snapshot).sessions = w.inner.snapshot.sessions) :
    KeepsThreads (.act (.locked x)) := fun h sid => by
  change ((x.apply h.world.authority).inner.snapshot.sessions.lookup sid).map (·.thread) = _
  rw [x.snapshot_apply, hx]
  rfl

theorem look_sessions (w : RuntimeAuthority) (runId : RunId) :
    ((w.runStatus runId).snapshot w.inner.snapshot).sessions = w.inner.snapshot.sessions := by
  rw [RuntimeAuthority.runStatus]
  cases w.run? runId <;> rfl

theorem keepsThreads_end (runId : RunId) : KeepsThreads (.act (.locked (.runStatus runId))) ∧
    KeepsThreads (.act (.locked (.complete runId))) ∧
      ∀ message, KeepsThreads (.act (.locked (.fail runId message))) :=
  ⟨keepsThreads_locked fun w => look_sessions w runId,
    keepsThreads_locked fun w => transition_sessions w runId .complete,
    fun message => keepsThreads_locked fun w => transition_sessions w runId (.fail message)⟩

theorem thread_flush (thread : List ChatMessage) :
    (Acts.apply (HostAct.act (.locked (.operation (.flushThread sid thread)))) h).thread? sid =
      (h.thread? sid).map fun _ => thread := by
  change ((Section.apply _ h.world.authority).inner.snapshot.sessions.lookup sid).map (·.thread) =
    ((h.world.authority.inner.snapshot.sessions.lookup sid).map (·.thread)).map fun _ => thread
  rw [Section.snapshot_apply]
  simp only [Section.decide, Operation.decide, RuntimeAuthority.flushThread]
  cases hSession : h.world.authority.inner.snapshot.sessions.lookup sid with
  | none =>
    change (h.world.authority.inner.snapshot.sessions.lookup sid).map _ = _
    rw [hSession]
    rfl
  | some session =>
    simp only [RuntimeAuthority.put, Decision.snapshot, Snapshot.setSession, Finmap.lookup_insert,
      Option.map_some]

end Views

namespace LoopTask

variable {t : LoopTask} {sid : SessionId} {loaded : List ChatMessage} {tr : List (HostAct × Host)}

/-- How a task can end, and what it has appended. -/
inductive Outcome (t : LoopTask) (sid : SessionId) (loaded : List ChatMessage) :
    Option (List ChatMessage × ReactLoop) → List (HostAct × Host) → Prop where
  /-- The provider cannot be built. -/
  | unprovided {message : String} {tr : List (HostAct × Host)} (hProvider : t.provider = .error message)
      (hQuiet : ∀ e ∈ tr, e.1.IsQuiet) : Outcome t sid loaded none tr
  /-- The run cannot be marked running. -/
  | unmarked {config : LoopConfig} {pre post : List (HostAct × Host)} {r : Except LoopError Unit}
      (hProvider : t.provider = .ok config) (hPre : ∀ e ∈ pre, e.1.IsQuiet)
      (hPersist : Prog.Yields (t.persist loaded) post r) : Outcome t sid loaded none (pre ++ post)
  | ran {config : LoopConfig} {thread : List ChatMessage} {l : ReactLoop}
      {pre mid post : List (HostAct × Host)} {h : Host} {r : Except LoopError Unit}
      (hProvider : t.provider = .ok config) (hPre : ∀ e ∈ pre, e.1.IsQuiet)
      (hMid : ∀ e ∈ mid, e.1.IsQuiet ∧ KeepsThreads e.1)
      (hPersist : Prog.Yields (t.persist loaded) post r)
      (hAdds : ∃ added, added ≠ [] ∧ l.history = thread ++ added)
      (hThread : t.site = .spawnChat ∧ thread = loaded ∨
        t.site ≠ .spawnChat ∧ (thread = [] ↔ loaded = [])) :
      Outcome t sid loaded (some (thread, l)) (pre ++
        (.act (.locked (.operation (.flushThread sid l.history))), h) :: mid ++ post)

theorem giveUp_keeps (message : String) :
    (t.giveUp message).Only fun x => x.IsQuiet ∧ KeepsThreads x := by
  obtain ⟨hLook, -, hFail⟩ := keepsThreads_end t.runId
  have hCall : (call (failRun t.runId message)).Only fun x => x.IsQuiet ∧ KeepsThreads x :=
    Prog.Only.within (Prog.Only.attempt (checkThen_only ⟨trivial, hLook⟩ ⟨trivial, hFail message⟩))
  exact hCall.bind fun _ => trivial

theorem settle_keeps (l : ReactLoop) (result : Except LoopError Unit) :
    ((l.settle result).within .act Host.world id : HostOp Unit).Only
      fun x => x.IsQuiet ∧ KeepsThreads x := by
  obtain ⟨hLook, hComplete, hFail⟩ := keepsThreads_end l.runId
  exact Prog.Only.within (ReactLoop.settle_only ⟨trivial, hLook⟩ ⟨trivial, hComplete⟩
    fun message => ⟨trivial, hFail message⟩)

theorem maybeCompact_ne_nil {thread : List ChatMessage} (hThread : thread ≠ []) (model prompt : String)
    (pct turns : Nat) : Prog.Ensures (fun _ result => result.thread ≠ [])
      (maybeCompact thread model prompt pct turns) := by
  rw [maybeCompact]
  split
  · exact .done hThread
  · dsimp only
    split
    · exact .done hThread
    · refine .perform fun h => ?_
      split
      · exact .done hThread
      · exact .done (by simp [compactedThread])

theorem effectiveThread_ne_nil (hLoaded : loaded ≠ []) (model : String) :
    Prog.Ensures (fun _ thread => thread ≠ []) (t.effectiveThread loaded model) := by
  rw [effectiveThread]
  split
  · exact .done hLoaded
  · refine (maybeCompact_ne_nil hLoaded _ _ _ _).bind fun _ result hResult => ?_
    split
    · refine .bind (P := fun _ _ => True) (fun _ _ _ => trivial) fun _ _ _ => ?_
      split
      · exact .bind (P := fun _ _ => True) (fun _ _ _ => trivial) fun _ _ _ => .done hResult
      · exact .done hResult
    · exact .done hResult

theorem effectiveThread_cases {model : String} {thread : List ChatMessage}
    (h : Prog.Yields (t.effectiveThread loaded model) tr (.ok thread)) :
    t.site = .spawnChat ∧ thread = loaded ∨ t.site ≠ .spawnChat ∧ (thread = [] ↔ loaded = []) := by
  by_cases hSame : t.site = .spawnChat ∨ loaded = []
  · rw [effectiveThread, if_pos hSame] at h
    obtain rfl := Except.ok.inj (Prog.yields_done.mp h).2
    by_cases hSite : t.site = .spawnChat
    · exact .inl ⟨hSite, rfl⟩
    · exact .inr ⟨hSite, Iff.rfl⟩
  · rw [not_or] at hSame
    have hNe := effectiveThread_ne_nil hSame.2 model tr thread h
    exact .inr ⟨hSame.1, iff_of_false hNe hSame.2⟩

theorem loop_history (config : LoopConfig) (thread : List ChatMessage) :
    ∃ added, added ≠ [] ∧ (t.loop config thread).history = thread ++ added := by
  have hNew : ∀ config : LoopConfig, config.initialThread.filter (· ≠ []) = none →
      (ReactLoop.new t.runId config).history ≠ [] := by
    intro config hNone
    rw [ReactLoop.new, hNone]
    simp
  by_cases hThread : thread = []
  · subst hThread
    refine ⟨_, hNew _ ?_, rfl⟩
    by_cases hSite : t.site = .spawnChat <;> simp [hSite]
  · refine ⟨[user config.userInput], by simp, ?_⟩
    simp [loop, ReactLoop.new, hThread, Option.filter]

theorem run_eq (l : ReactLoop) : l.run =
    (do
      let _ ← ask (markRunRunning l.runId)
      ReactLoop.drive l.config.maxTurns l) >>= fun r => r.1.flush >>= fun _ => r.1.settle r.2 := by
  rw [ReactLoop.run]
  simp only [bind_assoc]

theorem drive_cases (hSession : t.sessionId = some sid) {config : LoopConfig}
    {thread : List ChatMessage} {r : Except LoopError Unit}
    (h : Prog.Yields (t.drive config thread) tr r) :
    (∃ e pre mid, tr = pre ++ mid ∧ Prog.Yields (t.driven config thread) pre (.ok (.error e)) ∧
      ∀ e ∈ mid, e.1.IsQuiet ∧ KeepsThreads e.1) ∨
    ∃ l result pre h mid,
      tr = pre ++ (.act (.locked (.operation (.flushThread sid l.history))), h) :: mid ∧
      Prog.Yields (t.driven config thread) pre (.ok (.ok (l, result))) ∧
      GoesOn t.runId sid (t.loop config thread).history l ∧
      ∀ e ∈ mid, e.1.IsQuiet ∧ KeepsThreads e.1 := by
  obtain ⟨result, tr1, tr2, rfl, hRun, hRest⟩ := (Prog.total_attempt _).yields_bind h
  have hAfter : ∀ e ∈ tr2, e.1.IsQuiet ∧ KeepsThreads e.1 := by
    refine Prog.Only.yields (P := fun x => x.IsQuiet ∧ KeepsThreads x) ?_ hRest
    split
    · exact giveUp_keeps _
    · exact giveUp_keeps _
    · trivial
  obtain ⟨_, hResult, hRun⟩ := Prog.yields_attempt.mp hRun
  obtain rfl := Except.ok.inj hResult
  rw [run_eq, Prog.within_bind] at hRun
  obtain ⟨⟨l, turns⟩, pre, mid, rfl, hTurns, hEnd⟩ | ⟨e, rfl, hFail⟩ := Prog.yields_bind.mp hRun
  · have hLoop : GoesOn t.runId sid (t.loop config thread).history l := by
      obtain ⟨_, r', hYields, hOk⟩ := Prog.yields_within hTurns
      cases r' with
      | error e => cases hOk
      | ok r' =>
        obtain rfl := Except.ok.inj hOk
        obtain ⟨_, _, _, -, -, hDrive⟩ | ⟨_, hError, -⟩ := Prog.yields_bind.mp hYields
        · have hStart : GoesOn t.runId sid (t.loop config thread).history (t.loop config thread) :=
            ⟨rfl, hSession, List.prefix_refl _⟩
          obtain ⟨_, _, hSame, hKept⟩ := drive_kept (goesOn_kept _ _ _) hStart hDrive
          obtain ⟨rfl, -⟩ := Prod.mk.inj (Except.ok.inj hSame)
          exact hKept
        · cases hError
    rw [flush_eq hLoop.session, Prog.act_bind, Prog.within_act] at hEnd
    obtain ⟨host, mid, rfl, hSettle⟩ := Prog.yields_act.mp hEnd
    refine .inr ⟨l, turns, pre, host, mid ++ tr2, by simp, Prog.yields_attempt.mpr ⟨_, rfl, hTurns⟩, hLoop,
      fun e he => ?_⟩
    obtain he | he := List.mem_append.mp he
    · exact (settle_keeps l turns).yields hSettle e he
    · exact hAfter e he
  · exact .inl ⟨e, tr1, tr2, rfl, Prog.yields_attempt.mpr ⟨_, rfl, hFail⟩, hAfter⟩

theorem follow_turns {host : Host} {pre mid post : List (HostAct × Host)}
    {taken : Option (List ChatMessage × ReactLoop)} (hPrior : Prog.Yields t.prior pre (.ok loaded))
    (hTurns : Prog.Yields (match t.provider with
      | .error _ => pure none
      | .ok config => do
        let thread ← t.effectiveThread loaded config.model
        let result ← t.driven config thread
        pure (result.toOption.map fun r => (thread, r.1)) :
          HostOp (Option (List ChatMessage × ReactLoop))) mid (.ok taken)) :
    t.turns.follow (pre ++ (.await, host) :: (mid ++ post)) = some (.ok taken) := by
  have hAll : Prog.Yields t.turns (pre ++ (.await, host) :: mid) (.ok taken) :=
    Prog.yields_bind.mpr (.inl ⟨loaded, pre, _, rfl, hPrior, .act hTurns⟩)
  rw [← List.cons_append, ← List.append_assoc]
  exact hAll.follow post

theorem outcome (hSession : t.sessionId = some sid) {r : Except LoopError Unit}
    (h : Prog.Yields t.prog tr r) : ∃ loaded pre host rest taken,
      tr = pre ++ (.await, host) :: rest ∧ Prog.Yields t.prior pre (.ok loaded) ∧
        t.turns.follow tr = some (.ok taken) ∧ Outcome t sid loaded taken tr := by
  obtain ⟨loaded, pre, _, rfl, hPrior, hRest⟩ := t.prior_plain.total.yields_bind h
  obtain ⟨host, rest, rfl, hBody⟩ := Prog.yields_perform.mp hRest
  suffices hEnd : ∃ taken, t.turns.follow (pre ++ (.await, host) :: rest) = some (.ok taken) ∧
      Outcome t sid loaded taken (pre ++ (.await, host) :: rest) by
    obtain ⟨taken, hFollow, hOutcome⟩ := hEnd
    exact ⟨loaded, pre, host, rest, taken, rfl, hPrior, hFollow, hOutcome⟩
  have hPre : ∀ e ∈ pre ++ [(.await, host)], e.1.IsQuiet := by
    intro e he
    obtain he | he := List.mem_append.mp he
    · exact t.prior_plain.quiet.yields hPrior e he
    · rw [List.mem_singleton.mp he]
      trivial
  cases hProvider : t.provider with
  | error message =>
    rw [hProvider] at hBody
    have hFollow : t.turns.follow (pre ++ (.await, host) :: ([] ++ rest)) = some (.ok none) := by
      refine follow_turns hPrior ?_
      rw [hProvider]
      exact .done none
    refine ⟨none, hFollow, .unprovided hProvider fun e he => ?_⟩
    rw [List.append_cons] at he
    obtain he | he := List.mem_append.mp he
    · exact hPre e he
    · exact (t.giveUp_plain message).quiet.yields hBody e he
  | ok config =>
    rw [hProvider] at hBody
    obtain ⟨thread, trE, _, rfl, hThread, hAfter⟩ :=
      (t.effectiveThread_plain _ _).total.yields_bind hBody
    obtain ⟨⟨⟩, trD, post, rfl, hDrive, hPersist⟩ := (t.drive_plain _ _).total.yields_bind hAfter
    have hBefore : ∀ e ∈ pre ++ [(.await, host)] ++ trE, e.1.IsQuiet := fun e he =>
      (List.mem_append.mp he).elim (hPre e) ((t.effectiveThread_plain _ _).quiet.yields hThread e)
    have hTurns : ∀ {trT : List (HostAct × Host)}
        {result : Except LoopError (ReactLoop × Except LoopError Unit)},
        Prog.Yields (t.driven config thread) trT (.ok result) → ∀ post,
          t.turns.follow (pre ++ (.await, host) :: (trE ++ trT ++ post)) =
            some (.ok (result.toOption.map fun r => (thread, r.1))) := by
      intro trT result hDriven post
      refine follow_turns hPrior ?_
      rw [hProvider]
      refine Prog.yields_bind.mpr (.inl ⟨thread, trE, trT, rfl, hThread, ?_⟩)
      refine Prog.yields_bind.mpr (.inl ⟨result, trT, [], by simp, hDriven, .done _⟩)
    obtain ⟨e, trT, mid, rfl, hDriven, hMid⟩ | ⟨l, result, trT, start, mid, rfl, hDriven, hLoop, hMid⟩ :=
      drive_cases hSession hDrive
    · refine ⟨none, (congrArg t.turns.follow (by simp)).trans (hTurns hDriven (mid ++ post)), ?_⟩
      have hSplit : pre ++ (.await, host) :: (trE ++ (trT ++ mid ++ post)) =
          pre ++ [(.await, host)] ++ trE ++ (trT ++ mid) ++ post := by simp
      rw [hSplit]
      refine .unmarked hProvider (fun e he => ?_) hPersist
      exact (List.mem_append.mp he).elim (hBefore e) ((t.drive_plain _ _).quiet.yields hDrive e)
    · have hFollow := hTurns hDriven
        ((.act (.locked (.operation (.flushThread sid l.history))), start) :: mid ++ post)
      refine ⟨some (thread, l), (congrArg t.turns.follow (by simp)).trans hFollow, ?_⟩
      have hSplit : pre ++ (.await, host) :: (trE ++ (trT ++
            (.act (.locked (.operation (.flushThread sid l.history))), start) :: mid ++ post)) =
          pre ++ [(.await, host)] ++ trE ++ trT ++
            (.act (.locked (.operation (.flushThread sid l.history))), start) :: mid ++ post := by simp
      rw [hSplit]
      refine .ran hProvider (fun e he => ?_) hMid hPersist ?_ (effectiveThread_cases hThread)
      · exact (List.mem_append.mp he).elim (hBefore e) ((within_plain _).quiet.yields hDriven e)
      · obtain ⟨added, hNe, hHistory⟩ := loop_history (t := t) config thread
        obtain ⟨rest, hRest⟩ := hLoop.history
        exact ⟨added ++ rest, by simp [hNe], by rw [← hRest, hHistory, List.append_assoc]⟩

theorem suits_of_taken {taken : Option (List ChatMessage × ReactLoop)} {last : Option (List ChatMessage)}
    (hTaken : taken.isSome) (hLast : last.isSome) (hSite : t.site = .spawnChat ∨ loaded = []) :
    t.Suits loaded taken last := by
  obtain ⟨turns, rfl⟩ := Option.isSome_iff_exists.mp hTaken
  unfold Suits
  cases t.provider with
  | error message => trivial
  | ok config => exact ⟨hLast, hSite⟩

theorem share_eq_nil {thread : List ChatMessage} : t.share loaded thread = [] ↔
    thread.length ≤ if t.site = .spawnChat then loaded.length else 0 := by
  rw [share]
  split
  · exact List.drop_eq_nil_iff
  · rw [Nat.le_zero, List.length_eq_zero_iff]

section Persist

variable {thread : Option (List ChatMessage)} {r : Except LoopError Unit}

theorem append_appends {turns : List ChatMessage}
    (h : Prog.Yields (do let _ ← Prog.perform (.appendTurns sid turns); pure () : HostOp Unit) tr r)
    (hAlong : (threadOf sid).Along (threadOf sid).assumes thread tr) :
    appended sid tr = turns ∧ (threadOf sid).after thread tr = thread := by
  obtain ⟨host, rest, rfl, hEnd⟩ := Prog.yields_perform.mp h
  obtain ⟨rfl, -⟩ := Prog.yields_done.mp hEnd
  exact ⟨by simp [appended, HostAct.turnsFor], hAlong.1⟩

theorem appendThread_appends (hStore : t.chatStore) (h : Prog.Yields (t.appendThread sid) tr r)
    (hAlong : (threadOf sid).Along (threadOf sid).assumes thread tr) :
    appended sid tr = thread.getD [] ∧ (threadOf sid).after thread tr = thread := by
  rw [appendThread, if_pos hStore] at h
  obtain ⟨host, rest, rfl, hRest⟩ := Prog.yields_perform.mp h
  obtain ⟨hHere, hAlong⟩ := hAlong
  change host.thread? sid = thread at hHere
  subst hHere
  cases hThread : host.thread? sid with
  | none =>
    rw [hThread] at hRest
    obtain ⟨rfl, -⟩ := Prog.yields_done.mp hRest
    exact ⟨rfl, hThread⟩
  | some turns =>
    rw [hThread] at hRest
    dsimp only at hRest
    by_cases hEmpty : turns = []
    · rw [if_neg (not_not.mpr hEmpty)] at hRest
      obtain ⟨rfl, -⟩ := Prog.yields_done.mp hRest
      exact ⟨hEmpty.symm, hThread⟩
    · rw [if_pos hEmpty] at hRest
      obtain ⟨hAppended, hAfter⟩ := append_appends hRest hAlong
      exact ⟨hAppended, hAfter.trans hThread⟩

theorem appendDelta_appends (hStore : t.chatStore) (h : Prog.Yields (t.appendDelta sid loaded) tr r)
    (hAlong : (threadOf sid).Along (threadOf sid).assumes thread tr) :
    appended sid tr = (thread.getD []).drop loaded.length ∧
      (threadOf sid).after thread tr = thread := by
  obtain ⟨host, rest, rfl, hRest⟩ := Prog.yields_perform.mp h
  obtain ⟨hHere, hAlong⟩ := hAlong
  change host.thread? sid = thread at hHere
  subst hHere
  cases hThread : host.thread? sid with
  | none =>
    rw [hThread] at hRest
    obtain ⟨rfl, -⟩ := Prog.yields_done.mp hRest
    exact ⟨List.drop_nil.symm, hThread⟩
  | some turns =>
    rw [hThread] at hRest
    dsimp only at hRest
    rw [call_lock, Prog.act_bind] at hRest
    obtain ⟨host', rest, rfl, hTail⟩ := Prog.yields_act.mp hRest
    obtain ⟨hSame, hAlong⟩ := hAlong
    change host'.thread? sid = host.thread? sid at hSame
    have hFlush : ∀ d, (threadOf sid).next d
        (.act (.locked (.operation (.flushThread sid turns)))) host' = some turns := by
      intro d
      change (Acts.apply _ host').thread? sid = _
      rw [thread_flush, hSame, hThread]
      rfl
    rw [hFlush] at hAlong
    rw [Prog.done_bind] at hTail
    split at hTail
    · obtain ⟨hAppended, hAfter⟩ := append_appends hTail hAlong
      refine ⟨hAppended, ?_⟩
      rw [Watch.after_cons, Watch.after_cons, hFlush]
      exact hAfter
    · rename_i hShort
      obtain ⟨rfl, -⟩ := Prog.yields_done.mp hTail
      refine ⟨?_, hFlush _⟩
      rw [not_and, not_lt] at hShort
      exact (List.drop_eq_nil_of_le (hShort hStore)).symm

theorem persist_appends (hSession : t.sessionId = some sid) (hStore : t.chatStore)
    (hSite : t.site ≠ .spawnAgent) (h : Prog.Yields (t.persist loaded) tr r)
    (hAlong : (threadOf sid).Along (threadOf sid).assumes thread tr) :
    appended sid tr = t.share loaded (thread.getD []) ∧ (threadOf sid).after thread tr = thread := by
  rw [persist, hSession] at h
  rw [share]
  cases hCase : t.site with
  | startRun | resumeRun =>
    rw [hCase] at h
    rw [if_neg (by decide)]
    exact appendThread_appends hStore h hAlong
  | spawnChat =>
    rw [hCase] at h
    rw [if_pos rfl]
    exact appendDelta_appends hStore h hAlong
  | spawnAgent => exact absurd hCase hSite

theorem Outcome.appended_iff {taken : Option (List ChatMessage × ReactLoop)}
    (hOutcome : Outcome t sid loaded taken tr) (hSession : t.sessionId = some sid)
    (hStore : t.chatStore) (hSite : t.site ≠ .spawnAgent)
    (hAlong : (threadOf sid).Along (threadOf sid).assumes thread tr) :
    appended sid tr = added taken ↔ t.Suits loaded taken ((threadOf sid).after thread tr) := by
  cases hOutcome with
  | unprovided hProvider hQuiet =>
    simp only [Suits, hProvider, appended_quiet hQuiet, added]
  | unmarked hProvider hPre hPersist =>
    obtain ⟨hAppended, hAfter⟩ :=
      persist_appends hSession hStore hSite hPersist (Watch.along_append.mp hAlong).2
    simp only [Suits, hProvider, added, appended_append, appended_quiet hPre, List.nil_append,
      hAppended, Watch.after_append, hAfter, share_eq_nil]
  | @ran config thread' l pre mid post host _ hProvider hPre hMid hPersist hAdds hThread =>
    obtain ⟨hBefore, hAfter⟩ := Watch.along_append.mp hAlong
    obtain ⟨hAppended, hLast⟩ := persist_appends hSession hStore hSite hPersist hAfter
    obtain ⟨turns, hNe, hHistory⟩ := hAdds
    have hFlushed : (threadOf sid).after thread (pre ++ (.act (.locked (.operation
        (.flushThread sid l.history))), host) :: mid) = (host.thread? sid).map fun _ => l.history := by
      rw [Watch.after_append, Watch.after_cons]
      refine (Watch.undisturbed_after (fun e he => (hMid e he).2 e.2 sid)
        (Watch.along_append.mp hBefore).2.2).trans ?_
      exact thread_flush _
    have hQuiet : appended sid (pre ++ (.act (.locked (.operation
        (.flushThread sid l.history))), host) :: mid) = [] := by
      refine appended_quiet fun e he => ?_
      obtain he | he := List.mem_append.mp he
      · exact hPre e he
      · obtain rfl | he := List.mem_cons.mp he
        · trivial
        · exact (hMid e he).1
    have hAdded : added (some (thread', l)) = turns := by rw [added, hHistory, List.drop_left]
    rw [appended_append, hQuiet, List.nil_append, hAppended, (Watch.after_append _ _ _ _).trans hLast,
      hFlushed, hAdded, share]
    simp only [Suits, hProvider]
    cases host.thread? sid with
    | none => simp [hNe.symm]
    | some _ =>
      simp only [Option.map_some, Option.getD_some, Option.isSome_some, true_and]
      obtain ⟨hChat, rfl⟩ | ⟨hSite, hNil⟩ := hThread
      · simp [hChat, hHistory]
      · rw [if_neg hSite, hHistory, List.append_left_eq_self, hNil]
        simp [hSite]

end Persist

end LoopTask

/-- Nothing is added to the session, and a loop of it begins with what these lines hold. -/
def HostAct.GoesOnFrom (sid : SessionId) (lines : List Line) : HostAct → Prop
  | .spawn task => task.sessionId = some sid → task.chatStore →
      task.site ≠ .spawnAgent ∧
        (task.site = .spawnChat ∨ task.priorThread = ChatStore.loadHistory lines)
  | .appendTurns _ _ => False
  | _ => True

def spawnWatch (sid : SessionId) (lines : List Line) : Watch (List Line) HostAct Host :=
  (fileOf sid).demanding fun _ x _ => x.GoesOnFrom sid lines

/-- The operation begins its task with the history file that it finds. -/
def Loads {α : Type} (sid : SessionId) (lines : List Line) (p : HostOp α) (P : α → Prop) : Prop :=
  p.Meets (spawnWatch sid lines) (Prog.Returns fun a m => m = lines ∧ P a) lines

section Loads

variable {sid : SessionId} {lines : List Line} {α β : Type} {P : α → Prop} {Q : β → Prop}

theorem turnsFor_goesOn {x : HostAct} (hx : x.GoesOnFrom sid lines) : x.turnsFor sid = [] := by
  cases x with
  | appendTurns _ _ => exact hx.elim
  | _ => rfl

theorem goesOn_quiet {x : HostAct} (hx : x.IsQuiet) : x.GoesOnFrom sid lines := by
  cases x with
  | spawn _ => exact hx.elim
  | appendTurns _ _ => exact hx.elim
  | _ => trivial

theorem spawnWatch_next {x : HostAct} {h : Host} (hx : x.GoesOnFrom sid lines)
    (hFile : h.lines sid = lines) (m : List Line) : (spawnWatch sid lines).next m x h = lines := by
  change (Acts.apply x h).lines sid = lines
  rw [lines_apply, turnsFor_goesOn hx, appendTurns_nil, hFile]

theorem Loads.pure {a : α} (ha : P a) : Loads sid lines (pure a) P := ⟨rfl, ha⟩

theorem Loads.bind {p : HostOp α} {f : α → HostOp β} (hp : Loads sid lines p P)
    (hf : ∀ a, P a → Loads sid lines (f a) Q) : Loads sid lines (p >>= f) Q :=
  Prog.Meets.andThen hp fun a m ⟨hm, ha⟩ => by
    subst hm
    exact hf a ha

theorem Loads.perform {x : HostAct} {f : Host → HostOp α} (hx : x.GoesOnFrom sid lines)
    (hf : ∀ h, h.lines sid = lines → Loads sid lines (f h) P) :
    Loads sid lines (Prog.perform x >>= f) P :=
  Prog.Meets.perform fun h hFile => ⟨hx, by
    rw [spawnWatch_next hx hFile]
    exact hf h hFile⟩

theorem Loads.mono {p : HostOp α} {P' : α → Prop} (hp : Loads sid lines p P)
    (h : ∀ a, P a → P' a) : Loads sid lines p P' :=
  Prog.Meets.mono hp fun r m hEnd => by
    cases r with
    | ok a => exact ⟨hEnd.1, h a hEnd.2⟩
    | error e => exact hEnd.elim

theorem Loads.plain {p : HostOp α} (hp : Plain p) : Loads sid lines p fun _ => True := by
  have hOnly : p.Meets (spawnWatch sid lines) (fun _ m => m = lines) lines :=
    .of_only hp.quiet (fun x hx m h hm hFile => ⟨goesOn_quiet hx,
      spawnWatch_next (goesOn_quiet hx) (hFile.trans hm) m⟩) rfl
  exact (hp.total.returns hOnly).mono fun r m h => by
    cases r with
    | ok a => exact ⟨h, trivial⟩
    | error e => exact h.elim

theorem Loads.andThen {p : HostOp α} {f : α → HostOp β} (hp : Plain p)
    (hf : ∀ a, Loads sid lines (f a) Q) : Loads sid lines (p >>= f) Q :=
  (Loads.plain hp).bind fun a _ => hf a

theorem priorThread_loads (s : SessionId) (chatStore : Bool) :
    Loads sid lines (priorThread s chatStore) fun prior =>
      s = sid → chatStore → prior = ChatStore.loadHistory lines := by
  rw [priorThread]
  split
  · refine .perform trivial fun h hFile => .pure fun hSame _ => ?_
    rw [hSame, hFile]
  · rename_i hStore
    exact .perform trivial fun h _ => .pure fun _ hChatStore => absurd hChatStore hStore

end Loads

section Handlers

variable {sid : SessionId} {lines : List Line}

theorem StartRequest.openSession_loads (req : StartRequest) :
    Loads sid lines req.openSession fun prior =>
      req.sessionId = some sid → req.chatStore → prior = ChatStore.loadHistory lines := by
  rw [openSession]
  cases req.sessionId with
  | none => exact .pure fun hNone => absurd hNone.symm (Option.some_ne_none sid)
  | some s =>
    refine .andThen (plain_call _) fun _ => ?_
    by_cases hStore : req.chatStore
    · rw [if_pos hStore]
      exact (priorThread_loads s true).mono fun prior hPrior hSession _ =>
        hPrior (Option.some.inj hSession) rfl
    · rw [if_neg hStore]
      refine .andThen (plain_call _) fun answer => ?_
      split <;> exact .pure fun _ hChatStore => absurd hChatStore hStore

theorem StartRequest.launch_loads (req : StartRequest) {prior : List ChatMessage}
    (hPrior : req.sessionId = some sid → req.chatStore → prior = ChatStore.loadHistory lines) :
    Loads sid lines (req.launch prior) fun _ => True := by
  rw [launch]
  refine .andThen req.setGoal_plain fun _ => .andThen (plain_call _) fun _ => ?_
  cases req.dispatch with
  | native =>
    refine .perform trivial fun _ _ => .perform (fun hSession hStore => ?_) fun _ _ => .pure trivial
    exact ⟨(by decide : Site.startRun ≠ .spawnAgent), .inr (hPrior hSession hStore)⟩
  | extension | refused _ => exact .pure trivial

theorem handleStartRun_loads (req : StartRequest) :
    Loads sid lines (handleStartRun req) fun _ => True := by
  rw [handleStartRun]
  refine .perform trivial fun _ _ => ?_
  cases req.dispatch with
  | refused message => exact .pure trivial
  | native | extension =>
    refine req.openSession_loads.bind fun prior hPrior => .andThen (plain_call _) fun _ => ?_
    refine .andThen (plain_call _) fun answer => ?_
    cases answer with
    | error e => exact .pure trivial
    | ok _ => exact req.launch_loads hPrior

theorem ResumeRequest.priorThread_loads (req : ResumeRequest) (run : Run) :
    Loads sid lines (req.priorThread run) fun prior =>
      run.sessionId = some sid → req.chatStore → prior = ChatStore.loadHistory lines := by
  rw [priorThread]
  cases run.sessionId with
  | none => exact .pure fun hNone => absurd hNone.symm (Option.some_ne_none sid)
  | some s =>
    exact (Agent.priorThread_loads s _).mono fun prior hPrior hSession =>
      hPrior (Option.some.inj hSession)

theorem handleResumeRun_loads (req : ResumeRequest) :
    Loads sid lines (handleResumeRun req) fun _ => True := by
  rw [handleResumeRun]
  refine .perform trivial fun h _ => ?_
  split
  · exact .pure trivial
  · rename_i run hRun
    split
    · exact .pure trivial
    · split
      · exact .pure trivial
      · refine (req.priorThread_loads run).bind fun prior hPrior => ?_
        refine .andThen (plain_call _) fun answer => ?_
        cases answer with
        | error e => exact .pure trivial
        | ok _ =>
          refine .andThen (plain_call _) fun _ => .perform trivial fun _ _ => ?_
          refine .perform (fun hSession hStore => ?_) fun _ _ => .pure trivial
          exact ⟨(by decide : Site.resumeRun ≠ .spawnAgent), .inr (hPrior hSession hStore)⟩

theorem handleSpawn_loads (req : SpawnRequest) : Loads sid lines (handleSpawn req) fun _ => True := by
  rw [handleSpawn]
  refine .andThen (plain_call _) fun answer => ?_
  cases answer with
  | error e => exact .pure trivial
  | ok _ =>
    refine .andThen req.tie_plain fun _ => ?_
    cases req.dispatch with
    | native =>
      refine .perform (fun hSession _ => ?_) fun _ _ => .pure trivial
      have hChat : req.chat := by
        by_contra hAgent
        simp [SpawnRequest.task, hAgent] at hSession
      rw [SpawnRequest.task, if_pos hChat]
      exact ⟨(by decide : Site.spawnChat ≠ .spawnAgent), .inl rfl⟩
    | extension => exact .pure trivial
    | refused message => exact .andThen (plain_call _) fun _ => .pure trivial

/-- Whatever is asked for, what is spawned for the session goes on from its history file. -/
theorem Request.prog_loads (request : Request) : Loads sid lines request.prog fun _ => True := by
  cases request with
  | startRun req => exact handleStartRun_loads req
  | resumeRun req => exact handleResumeRun_loads req
  | spawn req => exact handleSpawn_loads req
  | pauseRun r | cancelRun r => exact .plain (runOp_plain _)
  | postInput r payload => exact .plain (runOp_plain _)
  | resolveReview r reviewId decision notes => exact .plain (handleResolveReview_plain _ _ _ _)

end Handlers

namespace SessionRun

variable {sid : SessionId} {lines : List Line} {run : SessionRun}

theorem Happens.goesOnFrom (hRun : run.Happens sid lines) :
    ∀ e ∈ run.handled, e.1.GoesOnFrom sid lines := by
  obtain ⟨response, hHandled⟩ := hRun.handled
  have hAlong := (Watch.along_append.mp hRun.file).1
  have hLoads : Loads sid lines run.request.prog fun _ => True := run.request.prog_loads
  have hDemands := (Prog.Meets.sound hLoads hHandled (Watch.along_demanding.mpr hAlong)).1
  exact hDemands.forall fun _ _ _ h => h

theorem Happens.appended_handled (hRun : run.Happens sid lines) : appended sid run.handled = [] :=
  List.flatMap_eq_nil_iff.mpr fun e he => turnsFor_goesOn (hRun.goesOnFrom e he)

theorem Happens.file_trace (hRun : run.Happens sid lines) :
    (fileOf sid).Along (fileOf sid).assumes lines run.trace := by
  obtain ⟨hHandled, hTrace⟩ := Watch.along_append.mp hRun.file
  rw [file_after hHandled, hRun.appended_handled, appendTurns_nil] at hTrace
  exact hTrace

theorem Happens.loaded_eq (hRun : run.Happens sid lines) {loaded : List ChatMessage}
    {pre post : List (HostAct × Host)} (hTrace : run.trace = pre ++ post)
    (hPrior : Prog.Yields run.task.prior pre (.ok loaded)) :
    loaded = ChatStore.loadHistory lines := by
  obtain ⟨host, hSpawned⟩ := hRun.spawned
  obtain ⟨-, hGiven⟩ := hRun.goesOnFrom _ hSpawned hRun.session hRun.chatStore
  by_cases hChat : run.task.site = .spawnChat
  · rw [LoopTask.prior, hChat, hRun.session] at hPrior
    dsimp only at hPrior
    rw [priorThread, if_pos hRun.chatStore] at hPrior
    obtain ⟨h, tr, rfl, hLoaded⟩ := Prog.yields_perform.mp hPrior
    obtain rfl := Except.ok.inj (Prog.yields_done.mp hLoaded).2
    have hFile := hRun.file_trace
    rw [hTrace] at hFile
    have hHere : h.lines sid = lines := hFile.1
    rw [hHere]
  · rw [← hGiven.resolve_left hChat]
    rw [LoopTask.prior] at hPrior
    split at hPrior
    · exact absurd ‹run.task.site = .spawnChat› hChat
    · exact Except.ok.inj (Prog.yields_done.mp hPrior).2

theorem Happens.appended_iff (hRun : run.Happens sid lines) :
    appended sid (run.handled ++ run.trace) = run.messages ↔ run.Suited sid lines := by
  obtain ⟨host, hSpawned⟩ := hRun.spawned
  obtain ⟨hSite, -⟩ := hRun.goesOnFrom _ hSpawned hRun.session hRun.chatStore
  obtain ⟨r, hYields⟩ := hRun.trace
  obtain ⟨loaded, pre, start, rest, taken, hTrace, hPrior, hFollow, hOutcome⟩ :=
    LoopTask.outcome hRun.session hYields
  obtain ⟨thread, hThread⟩ := hRun.thread
  have hTaken : run.taken = taken := by rw [SessionRun.taken, hFollow]
  have hLast : run.lastThread sid = (threadOf sid).after thread run.trace := by
    rw [lastThread, hTrace]
    cases pre <;> rfl
  rw [appended_append, hRun.appended_handled, List.nil_append, messages, Suited, hTaken, hLast,
    ← hRun.loaded_eq hTrace hPrior]
  exact hOutcome.appended_iff hRun.session hRun.chatStore hSite hThread

/-- After every part of the runs of a session, its history file holds what it has held and the messages
of the runs in order, exactly if each run is suited to what it finds. -/
theorem history_iff (sid : SessionId) (lines : List Line) (runs : List SessionRun)
    (hRuns : History.Each (SessionRun.after sid) (SessionRun.Happens sid) lines runs) :
    (∀ done rest, runs = done ++ rest →
      ChatStore.loadHistory (History.play (SessionRun.after sid) lines done) =
        ChatStore.loadHistory lines ++ done.flatMap messages) ↔
    History.Each (SessionRun.after sid) (SessionRun.Suited sid) lines runs := by
  rw [History.written_iff]
  refine History.each_congr_of_each (fun lines run hRun => ?_) hRuns
  rw [SessionRun.after, file_after hRun.file, ChatStore.load_append, List.append_cancel_left_eq]
  exact hRun.appended_iff

section Examples

def alone (request : Request) (task : LoopTask) (h : Host) : SessionRun :=
  let handled := request.prog.trace h
  ⟨request, handled, task, task.prog.trace (Prog.after h handled)⟩

def leaves (run : SessionRun) (h : Host) : Host := Prog.after h (run.handled ++ run.trace)

section Alone

variable {request : Request} {task : LoopTask} {h : Host}

theorem alone_chained : Prog.Chained h ((alone request task h).handled ++ (alone request task h).trace) :=
  Prog.chained_append.mpr ⟨Prog.trace_chained _ _, Prog.trace_chained _ _⟩

theorem alone_happens (hSpawned : ∃ h', (.spawn task, h') ∈ request.prog.trace h)
    (hSession : task.sessionId = some sid) (hStore : task.chatStore) :
    (alone request task h).Happens sid (h.lines sid) where
  handled := ⟨_, Prog.trace_yields _ _⟩
  spawned := hSpawned
  session := hSession
  chatStore := hStore
  trace := ⟨_, Prog.trace_yields _ _⟩
  file := Watch.undisturbed_of_chained alone_chained
  thread := ⟨_, Watch.undisturbed_of_chained (Prog.trace_chained _ _)⟩

theorem alone_after :
    (alone request task h).after sid (h.lines sid) = ((alone request task h).leaves h).lines sid :=
  Watch.undisturbed_after_of_chained alone_chained

end Alone

def atHome : Host :=
  let reply := .ok [.delta "done", .done .stop]
  ⟨{ streaming [] with
      authority := Section.apply (.operation (.upsertSpace ⟨⟨"home"⟩, "home", 80, 6⟩)) (inMemory [])
      streams := [reply, reply] }, ∅⟩

def startTurn (drawn : RunId) : StartRequest where
  space := ⟨⟨"home"⟩, "home", 80, 6⟩
  sessionId := some chat
  sessionName := none
  spec := .null
  goal := none
  dispatch := .native
  chatStore := true
  provider := .ok chatConfig
  summarizePrompt := ""
  drawn := drawn
  subscription := ⟨"start"⟩

def firstTurn : SessionRun :=
  alone (.startRun (startTurn ⟨"first"⟩)) ((startTurn ⟨"first"⟩).task []) atHome

def secondTurn : SessionRun :=
  alone (.startRun (startTurn ⟨"second"⟩)) ((startTurn ⟨"second"⟩).task firstTurn.messages)
    (firstTurn.leaves atHome)

theorem firstTurn_happens : firstTurn.Happens chat [] :=
  alone_happens (h := atHome) ⟨_, List.mem_of_getElem? (i := 7) rfl⟩ rfl rfl

theorem firstTurn_after : firstTurn.after chat [] = (firstTurn.leaves atHome).lines chat :=
  alone_after (h := atHome)

/-- The second turn appends the messages of the first again. -/
theorem history_repeated :
    ¬∀ (sid : SessionId) (lines : List Line) (runs : List SessionRun),
      History.Each (SessionRun.after sid) (SessionRun.Happens sid) lines runs →
      ∀ done rest, runs = done ++ rest →
        ChatStore.loadHistory (History.play (SessionRun.after sid) lines done) =
          ChatStore.loadHistory lines ++ done.flatMap messages := by
  intro h
  have hSecond : secondTurn.Happens chat (firstTurn.after chat []) := by
    rw [firstTurn_after]
    exact alone_happens ⟨_, List.mem_of_getElem? (i := 7) rfl⟩ rfl rfl
  let turns := [firstTurn, secondTurn]
  have hFile := h chat [] turns ⟨firstTurn_happens, hSecond, trivial⟩ turns [] rfl
  have hLength := congrArg List.length hFile
  exact absurd hLength (by decide +kernel)

def chatTurn : SessionRun :=
  let req : SpawnRequest := ⟨true, ⟨"home"⟩, some chat, none, .null, .native, true, .ok chatConfig,
    ⟨"second"⟩⟩
  alone (.spawn req) req.task (firstTurn.leaves atHome)

/-- The turn appends what it has added. -/
theorem history_of_chat_turn :
    ChatStore.loadHistory (History.play (SessionRun.after chat) [] [firstTurn, chatTurn]) =
      firstTurn.messages ++ chatTurn.messages := by
  let turns := [firstTurn, chatTurn]
  have hSecond : chatTurn.Happens chat (firstTurn.after chat []) := by
    rw [firstTurn_after]
    exact alone_happens ⟨_, List.mem_of_getElem? (i := 1) rfl⟩ rfl rfl
  have hRuns : History.Each (SessionRun.after chat) (SessionRun.Happens chat) [] turns :=
    ⟨firstTurn_happens, hSecond, trivial⟩
  have hSuited : History.Each (SessionRun.after chat) (SessionRun.Suited chat) [] turns :=
    ⟨LoopTask.suits_of_taken (by decide +kernel) (by decide +kernel) (.inr rfl),
      LoopTask.suits_of_taken (by decide +kernel) (by decide +kernel) (.inl rfl), trivial⟩
  have hFile := (history_iff chat [] turns hRuns).mpr hSuited turns [] rfl
  rw [List.flatMap_cons, List.flatMap_singleton] at hFile
  exact hFile

end Examples

end SessionRun

end Cronymax.Agent
