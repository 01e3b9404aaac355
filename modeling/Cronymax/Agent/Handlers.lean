import Cronymax.Atomic.Commitment
import Cronymax.Agent.Server
import Cronymax.Authority.Statuses

/-! What tasks and handlers spawn.  A task spawns no loop.  A handler spawns at most one, of one run, and
it is bound to as soon as its request is let through: a resume request by `mark_run_running`, any other
by the section that makes the run. -/

namespace Cronymax.Agent

open Atomic Authority

/-- The action spawns a loop of the run. -/
def SpawnsLoop (runId : RunId) (x : HostAct) : Prop :=
  match x with
  | .spawn task => task.runId = runId
  | _ => False

/-- The access marks the run running, and it succeeds. -/
def MarksRunning (runId : RunId) (x : HostAct) (h : Host) : Prop :=
  match x with
  | .act (.locked (.runStatus r)) => r = runId ∧ h.world.authority.status? r = some .running
  | .act (.locked (.markRunning r)) =>
    r = runId ∧ ∃ reply, h.world.authority.answer (Section.decide h.world.authority (.markRunning r)) = .ok reply
  | _ => False

/-- The section makes a run under the id. -/
def Creates (runId : RunId) (x : HostAct) (h : Host) : Prop :=
  match x with
  | .act (.locked (.operation (.startRunWithSession spaceId agentId _ _ drawn))) =>
    drawn = runId ∧ h.world.authority.accepts spaceId agentId
  | _ => False

/-- The access neither spawns a task nor writes a history. -/
def HostAct.IsQuiet : HostAct → Prop
  | .spawn _ | .appendTurns _ _ => False
  | _ => True

abbrev Quiet {α : Type} (p : HostOp α) : Prop := p.Only HostAct.IsQuiet

/-- The program spawns nothing. -/
abbrev Spawnless {α : Type} (p : HostOp α) : Prop := p.Only fun x => x.spawned = []

theorem Quiet.spawnless {α : Type} {p : HostOp α} (h : Quiet p) : Spawnless p :=
  Prog.Only.mono h fun x hx => by
    cases x with
    | spawn task => exact hx.elim
    | _ => rfl

theorem Spawnless.not_spawns {α : Type} {p : HostOp α} (h : Spawnless p) (runId : RunId) :
    p.Only fun x => ¬SpawnsLoop runId x :=
  Prog.Only.mono h fun x hx hSpawns => by
    cases x with
    | spawn task => cases hx
    | _ => exact hSpawns

theorem Quiet.not_spawns {α : Type} {p : HostOp α} (h : Quiet p) (runId : RunId) :
    p.Only fun x => ¬SpawnsLoop runId x := Spawnless.not_spawns h.spawnless runId

/-- A part of a task or a handler that is quiet and does not fail. -/
structure Plain {α : Type} (p : HostOp α) : Prop where
  quiet : Quiet p
  total : p.Total

section Plain

variable {α β : Type}

theorem plain_pure (a : α) : Plain (pure a) := ⟨trivial, trivial⟩

theorem plain_call (op : Op α) : Plain (call op) :=
  ⟨Prog.Only.within (Prog.only_of_forall _ fun _ => trivial), (Prog.total_attempt op).within⟩

theorem Plain.bind {p : HostOp α} {f : α → HostOp β} (hp : Plain p) (hf : ∀ a, Plain (f a)) :
    Plain (p >>= f) :=
  ⟨hp.quiet.bind fun a => (hf a).quiet, hp.total.bind fun a => (hf a).total⟩

theorem Plain.perform {x : HostAct} {f : Host → HostOp α} (hx : x.IsQuiet)
    (hf : ∀ h, Plain (f h)) : Plain (Prog.perform x >>= f) :=
  ⟨.perform hx fun h => (hf h).quiet, fun h => (hf h).total⟩

theorem Plain.andPure {p : HostOp α} (hp : Plain p) (b : β) : Plain (p >>= fun _ => pure b) :=
  hp.bind fun _ => plain_pure b

end Plain

theorem priorThread_plain (sid : SessionId) (chatStore : Bool) : Plain (priorThread sid chatStore) := by
  rw [priorThread]
  split <;> exact .perform trivial fun _ => plain_pure _

theorem maybeCompact_plain (thread : List ChatMessage) (model prompt : String) (pct turns : Nat) :
    Plain (maybeCompact thread model prompt pct turns) := by
  rw [maybeCompact]
  split
  · exact plain_pure _
  · dsimp only
    split
    · exact plain_pure _
    · refine .perform trivial fun h => ?_
      split <;> exact plain_pure _

namespace LoopTask

variable (t : LoopTask)

theorem prior_plain : Plain t.prior := by
  rw [prior]
  split
  · exact priorThread_plain _ _
  · exact plain_pure _

theorem giveUp_plain (message : String) : Plain (t.giveUp message) := (plain_call _).andPure _

theorem keepSummary_plain (sid : SessionId) (summary : String) : Plain (t.keepSummary sid summary) :=
  .perform trivial fun _ => (plain_call _).bind fun _ => (plain_call _).andPure _

theorem effectiveThread_plain (prior : List ChatMessage) (model : String) :
    Plain (t.effectiveThread prior model) := by
  rw [effectiveThread]
  split
  · exact plain_pure _
  · refine (maybeCompact_plain _ _ _ _ _).bind fun result => ?_
    split
    · refine (plain_call _).bind fun _ => ?_
      split
      · exact (t.keepSummary_plain _ _).andPure _
      · exact plain_pure _
    · exact plain_pure _

theorem within_plain {α : Type} (op : AgentOp α) :
    Plain (op.within .act Host.world id : HostOp α).attempt :=
  ⟨(Prog.Only.within (Prog.only_of_forall _ fun _ => trivial)).attempt, Prog.total_attempt _⟩

theorem drive_plain (config : LoopConfig) (thread : List ChatMessage) :
    Plain (t.drive config thread) := by
  refine (within_plain _).bind fun result => ?_
  split
  · exact t.giveUp_plain _
  · exact t.giveUp_plain _
  · exact plain_pure _

theorem append_spawnless (sid : SessionId) (turns : List ChatMessage) :
    Spawnless (do let _ ← Prog.perform (.appendTurns sid turns); pure () : HostOp Unit) :=
  .perform rfl fun _ => trivial

theorem appendThread_spawnless (sid : SessionId) : Spawnless (t.appendThread sid) := by
  rw [appendThread]
  split
  · refine .perform rfl fun h => ?_
    split
    · split
      · exact append_spawnless _ _
      · trivial
    · trivial
  · trivial

theorem appendDelta_spawnless (sid : SessionId) (prior : List ChatMessage) :
    Spawnless (t.appendDelta sid prior) := by
  refine .perform rfl fun h => ?_
  split
  · refine (plain_call _).quiet.spawnless.bind fun _ => ?_
    split
    · exact append_spawnless _ _
    · trivial
  · trivial

theorem persist_spawnless (prior : List ChatMessage) : Spawnless (t.persist prior) := by
  rw [persist]
  split
  · trivial
  · split
    · exact t.appendThread_spawnless _
    · exact t.appendThread_spawnless _
    · exact t.appendDelta_spawnless _ _
    · trivial

theorem prog_spawnless : Spawnless t.prog := by
  refine t.prior_plain.quiet.spawnless.bind fun prior => .perform rfl fun _ => ?_
  split
  · exact (t.giveUp_plain _).quiet.spawnless
  · exact (t.effectiveThread_plain _ _).quiet.spawnless.bind fun _ =>
      (t.drive_plain _ _).quiet.spawnless.bind fun _ => t.persist_spawnless _

end LoopTask

def Request.spawnsFor : Request → Option RunId
  | .startRun req => some req.drawn
  | .resumeRun req => some req.runId
  | .spawn req => some req.drawn
  | _ => none

/-- A request spawns the run's loop only where it admits it: a resumption where it has marked the run,
the others where they create it. -/
def Request.Admits (runId : RunId) (x : HostAct) (h : Host) : Request → Prop
  | .resumeRun _ => MarksRunning runId x h
  | _ => Creates runId x h

def Host.empty : Host := ⟨⟨inMemory [], [], [], [], [], []⟩, ∅⟩

instance : Nonempty Host := ⟨.empty⟩

/-- What is known of a handler and a run: it spawns at most one loop of the run, and it is bound to by
what lets its request through. -/
structure Handles (runId : RunId) (request : Request) (p : HostOp ControlResponse) : Prop where
  once : p.Once (SpawnsLoop runId)
  bindsBy : p.BindsBy (SpawnsLoop runId) fun x h => request.Admits runId x h

/-- A handler that may still end without a loop of the run. -/
structure Undecided (runId : RunId) (request : Request) (p : HostOp ControlResponse) : Prop
    extends Handles runId request p where
  free : ¬p.Bound (SpawnsLoop runId)

section Handlers

variable {runId : RunId} {request : Request} {α : Type}

theorem Undecided.of_only {p : HostOp ControlResponse}
    (h : p.Only fun x => ¬SpawnsLoop runId x) : Undecided runId request p :=
  ⟨⟨h.once, h.bindsBy⟩, h.not_bound⟩

theorem Undecided.bind {p : HostOp α} {f : α → HostOp ControlResponse} (hp : Plain p)
    (hf : ∀ a, Undecided runId request (f a)) : Undecided runId request (p >>= f) where
  once := (hp.quiet.not_spawns runId).once_bind fun a => (hf a).once
  bindsBy := (hp.quiet.not_spawns runId).bindsBy_bind (fun a => (hf a).bindsBy) fun a => (hf a).free
  free := (hp.quiet.not_spawns runId).not_bound_bind fun a => (hf a).free

theorem Undecided.perform {x : HostAct} {f : Host → HostOp ControlResponse} (hx : x.IsQuiet)
    (hf : ∀ h, Undecided runId request (f h)) : Undecided runId request (Prog.perform x >>= f) :=
  .bind ⟨Prog.only_perform.mpr hx, fun _ => trivial⟩ hf

/-- A handler that spawns one loop of the run for certain. -/
structure Commits (runId : RunId) (p : HostOp ControlResponse) : Prop where
  bound : p.Bound (SpawnsLoop runId)
  once : p.Once (SpawnsLoop runId)

theorem Commits.bind {p : HostOp α} {f : α → HostOp ControlResponse} (hp : Plain p)
    (hf : ∀ a, Commits runId (f a)) : Commits runId (p >>= f) where
  bound := Prog.Bound.bind hp.total fun a => (hf a).bound
  once := (hp.quiet.not_spawns runId).once_bind fun a => (hf a).once

theorem Commits.perform {x : HostAct} {f : Host → HostOp ControlResponse} (hx : x.IsQuiet)
    (hf : ∀ h, Commits runId (f h)) : Commits runId (Prog.perform x >>= f) :=
  .bind ⟨Prog.only_perform.mpr hx, fun _ => trivial⟩ hf

theorem Commits.spawn (task : LoopTask) (h : task.runId = runId) (response : ControlResponse) :
    Commits runId (do let _ ← Prog.perform (.spawn task); pure response) where
  bound := .inl h
  once := Prog.once_perform fun _ => trivial

theorem Commits.handles {p : HostOp ControlResponse} (h : Commits runId p) :
    Handles runId request p :=
  ⟨h.once, h.bound.bindsBy h.once⟩

/-- A handler after its request has been let through: it spawns a loop of its own run, or none. -/
structure Launches (own runId : RunId) (request : Request) (p : HostOp ControlResponse) : Prop
    extends Handles runId request p where
  own : p.Bound (SpawnsLoop runId) → own = runId

theorem Launches.of_commits {own : RunId} {p : HostOp ControlResponse} (h : Commits own p)
    (hOther : ∀ runId, own ≠ runId → p.Only fun x => ¬SpawnsLoop runId x) :
    Launches own runId request p := by
  by_cases hOwn : own = runId
  · subst hOwn
    exact ⟨h.handles, fun _ => rfl⟩
  · have hFree : Undecided runId request p := .of_only (hOther runId hOwn)
    exact ⟨hFree.toHandles, fun hBound => absurd hBound hFree.free⟩

theorem Launches.of_plain {own : RunId} {p : HostOp ControlResponse} (h : Plain p) :
    Launches own runId request p :=
  have hFree : Undecided runId request p := .of_only (h.quiet.not_spawns runId)
  ⟨hFree.toHandles, fun hBound => absurd hBound hFree.free⟩

theorem call_lock (x : Section) : call (lock x) = .act (.act (.locked x)) fun h =>
    .done (h.world.authority.answer (x.decide h.world.authority)) := by
  simp only [call, lock, Prog.perform_bind, Prog.attempt, Prog.within_act]
  refine congrArg (Prog.act _) (funext fun h => ?_)
  cases h.world.authority.answer (x.decide h.world.authority) <;> rfl

theorem call_markRunRunning (runId : RunId) : call (markRunRunning runId) =
    .act (.act (.locked (.runStatus runId))) fun h =>
      match h.world.authority.status? runId with
      | none => .done (.error (.unknownRun runId))
      | some status =>
        if status = .running then .done (.ok .unit) else call (lock (.markRunning runId)) := by
  simp only [call, markRunRunning, checkThen, runStatus, Prog.perform_bind, Prog.act_bind, Prog.attempt,
    Prog.within_act, RuntimeAuthority.status?, Snapshot.status?, RuntimeAuthority.run?]
  refine congrArg (Prog.act _) (funext fun h => ?_)
  cases h.world.authority.inner.snapshot.runs.lookup runId with
  | none => rfl
  | some run =>
    by_cases hRunning : run.status = .running
    · simp only [Option.map_some, hRunning, if_true]
      rfl
    · simp only [Option.map_some, Prog.pure_eq, Prog.done_bind, hRunning, if_false, decide_eq_true_eq]

theorem accepts_of_start {w : RuntimeAuthority} {spaceId : SpaceId} {agentId : Option AgentId}
    {spec : Value} {sessionId : Option SessionId} {drawn : RunId} {reply : Authority.Reply}
    (h : w.answer (w.startRunWithSession spaceId agentId spec sessionId drawn) = .ok reply) :
    w.accepts spaceId agentId := by
  unfold RuntimeAuthority.startRunWithSession at h
  rw [RuntimeAuthority.accepts]
  dsimp only at h
  cases hSpace : w.inner.snapshot.spaces.lookup spaceId with
  | none =>
    rw [hSpace] at h
    cases h
  | some space =>
    rw [hSpace] at h
    dsimp only at h
    split at h
    · cases h
    · rename_i hAgent
      rw [eq_false_of_ne_true hAgent]
      rfl

theorem Undecided.act {x : HostAct} {next : Host → HostOp ControlResponse} (hx : ¬SpawnsLoop runId x)
    (hNext : ∀ h, Handles runId request (next h) ∧
      ((next h).Bound (SpawnsLoop runId) → request.Admits runId x h))
    (h : Host) (hFree : ¬(next h).Bound (SpawnsLoop runId)) : Undecided runId request (.act x next) where
  once h := ⟨(hNext h).1.once, fun hSpawns => absurd hSpawns hx⟩
  bindsBy h := ⟨(hNext h).1.bindsBy, fun hBound => .inr ((hNext h).2 hBound)⟩
  free := Prog.not_bound_act hx h hFree

theorem Undecided.free_admits {p : HostOp ControlResponse} (hp : Undecided runId request p)
    {x : HostAct} {h : Host} :
    Handles runId request p ∧ (p.Bound (SpawnsLoop runId) → request.Admits runId x h) :=
  ⟨hp.toHandles, fun hBound => absurd hBound hp.free⟩

theorem Undecided.start {spaceId : SpaceId} {agentId : Option AgentId} {spec : Value}
    {sessionId : Option SessionId} {drawn : RunId}
    {f : Except AuthorityError Authority.Reply → HostOp ControlResponse}
    (hAdmits : ∀ x h, Creates runId x h → request.Admits runId x h)
    (hError : ∀ e, Undecided runId request (f (.error e)))
    (hOk : ∀ reply, Launches drawn runId request (f (.ok reply))) :
    Undecided runId request
      (call (lock (.operation (.startRunWithSession spaceId agentId spec sessionId drawn))) >>= f) := by
  rw [call_lock, Prog.act_bind]
  refine .act id (fun h => ?_) .empty (hError (.unknownSpace spaceId)).free
  rw [Prog.done_bind]
  cases hAnswer : h.world.authority.answer (Section.decide h.world.authority
    (.operation (.startRunWithSession spaceId agentId spec sessionId drawn))) with
  | error e => exact (hError e).free_admits
  | ok reply =>
    exact ⟨(hOk reply).toHandles, fun hBound =>
      hAdmits _ _ ⟨(hOk reply).own hBound, accepts_of_start hAnswer⟩⟩

theorem Undecided.mark {own : RunId}
    {f : Except AuthorityError Authority.Reply → HostOp ControlResponse}
    (hAdmits : ∀ x h, MarksRunning runId x h → request.Admits runId x h)
    (hError : ∀ e, Undecided runId request (f (.error e)))
    (hOk : ∀ reply, Launches own runId request (f (.ok reply))) :
    Undecided runId request (call (markRunRunning own) >>= f) := by
  have hMark : Undecided runId request (call (lock (.markRunning own)) >>= f) := by
    rw [call_lock, Prog.act_bind]
    refine .act id (fun h => ?_) .empty (hError (.unknownRun own)).free
    rw [Prog.done_bind]
    cases hAnswer : h.world.authority.answer
      (Section.decide h.world.authority (.markRunning own)) with
    | error e => exact (hError e).free_admits
    | ok reply =>
      exact ⟨(hOk reply).toHandles, fun hBound =>
        hAdmits _ _ ⟨(hOk reply).own hBound, reply, hAnswer⟩⟩
  rw [call_markRunRunning, Prog.act_bind]
  refine .act id (fun h => ?_) .empty (hError (.unknownRun own)).free
  cases hStatus : h.world.authority.status? own with
  | none => exact (hError _).free_admits
  | some status =>
    by_cases hRunning : status = .running
    · subst hRunning
      simp only [if_true, Prog.done_bind]
      exact ⟨(hOk .unit).toHandles, fun hBound => hAdmits _ _ ⟨(hOk .unit).own hBound, hStatus⟩⟩
    · simp only [hRunning, if_false]
      exact hMark.free_admits

end Handlers

namespace StartRequest

variable (req : StartRequest)

theorem setGoal_plain : Plain req.setGoal := by
  rw [setGoal]
  split
  · exact (plain_call _).andPure _
  · exact plain_pure _

theorem openSession_plain : Plain req.openSession := by
  rw [openSession]
  split
  · exact plain_pure _
  · refine (plain_call _).bind fun _ => ?_
    split
    · exact priorThread_plain _ _
    · refine (plain_call _).bind fun answer => ?_
      split <;> exact plain_pure _

theorem launch_launches (prior : List ChatMessage) (runId : RunId) (request : Request) :
    Launches req.drawn runId request (req.launch prior) := by
  rw [launch]
  cases req.dispatch with
  | native =>
    refine .of_commits ?_ fun r hOther => ?_
    · refine .bind req.setGoal_plain fun _ => .bind (plain_call _) fun _ => ?_
      exact .perform trivial fun _ => .spawn (req.task prior) rfl _
    · refine (req.setGoal_plain.quiet.not_spawns r).bind fun _ => ?_
      refine ((plain_call _).quiet.not_spawns r).bind fun _ => ?_
      exact .perform id fun _ => .perform hOther fun _ => trivial
  | extension | refused _ =>
    exact .of_plain (req.setGoal_plain.bind fun _ => (plain_call _).andPure _)

theorem handle_undecided (runId : RunId) :
    Undecided runId (.startRun req) (handleStartRun req) := by
  rw [handleStartRun]
  refine .perform trivial fun _ => ?_
  cases req.dispatch with
  | refused message => exact .of_only trivial
  | native | extension =>
    refine .bind req.openSession_plain fun prior => .bind (plain_call _) fun _ => ?_
    exact .start (fun _ _ h => h) (fun _ => .of_only trivial) fun _ => req.launch_launches prior _ _

end StartRequest

namespace ResumeRequest

variable (req : ResumeRequest)

theorem priorThread_plain (run : Run) : Plain (req.priorThread run) := by
  rw [priorThread]
  split
  · exact Agent.priorThread_plain _ _
  · exact plain_pure _

theorem launch_launches (run : Run) (prior : List ChatMessage) (runId : RunId) (request : Request) :
    Launches req.runId runId request (req.launch run prior) := by
  refine .of_commits ?_ fun r hOther => ?_
  · refine .bind (plain_call _) fun _ => .perform trivial fun _ => ?_
    exact .spawn (req.task run prior) rfl _
  · refine ((plain_call _).quiet.not_spawns r).bind fun _ => ?_
    exact .perform id fun _ => .perform hOther fun _ => trivial

theorem handle_undecided (runId : RunId) :
    Undecided runId (.resumeRun req) (handleResumeRun req) := by
  rw [handleResumeRun]
  refine .perform trivial fun h => ?_
  split
  · exact .of_only trivial
  · rename_i run hRun
    split
    · exact .of_only trivial
    · split
      · exact .of_only trivial
      · refine .bind (req.priorThread_plain run) fun prior => ?_
        exact .mark (fun _ _ h => h) (fun _ => .of_only trivial) fun _ => req.launch_launches run prior _ _

end ResumeRequest

namespace SpawnRequest

variable (req : SpawnRequest)

theorem tie_plain : Plain req.tie := by
  rw [tie]
  split
  · exact plain_pure _
  · refine .bind ?_ fun _ => ?_
    · rw [setFlow]
      split
      · exact plain_pure _
      · exact (plain_call _).andPure _
    · rw [bindChat]
      split
      · exact (plain_call _).andPure _
      · exact plain_pure _

theorem launch_launches (runId : RunId) (request : Request) :
    Launches req.drawn runId request req.launch := by
  rw [launch]
  cases req.dispatch with
  | native =>
    refine .of_commits ?_ fun r hOther => ?_
    · exact .bind req.tie_plain fun _ => .spawn req.task rfl _
    · exact (req.tie_plain.quiet.not_spawns r).bind fun _ => .perform hOther fun _ => trivial
  | extension => exact .of_plain (req.tie_plain.andPure _)
  | refused message =>
    exact .of_plain (req.tie_plain.bind fun _ => (plain_call _).andPure _)

theorem handle_undecided (runId : RunId) : Undecided runId (.spawn req) (handleSpawn req) := by
  rw [handleSpawn]
  exact .start (fun _ _ h => h) (fun _ => .of_only trivial) fun _ => req.launch_launches _ _

end SpawnRequest

theorem runOp_plain (o : Operation) : Plain (runOp o) :=
  (plain_call _).bind fun answer => by cases answer <;> exact plain_pure _

theorem handleResolveReview_plain (runId : Option RunId) (reviewId : ReviewId)
    (decision : PermissionState) (notes : Option String) :
    Plain (handleResolveReview runId reviewId decision notes) := by
  cases runId with
  | some runId => exact runOp_plain _
  | none =>
    refine .perform trivial fun h => ?_
    split
    · exact runOp_plain _
    · exact plain_pure _

theorem Request.prog_undecided (request : Request) (runId : RunId) :
    Undecided runId request request.prog := by
  cases request with
  | startRun req => exact req.handle_undecided runId
  | resumeRun req => exact req.handle_undecided runId
  | spawn req => exact req.handle_undecided runId
  | pauseRun r | cancelRun r => exact .of_only ((runOp_plain _).quiet.not_spawns runId)
  | postInput r payload => exact .of_only ((runOp_plain _).quiet.not_spawns runId)
  | resolveReview r reviewId decision notes =>
    exact .of_only ((handleResolveReview_plain _ _ _ _).quiet.not_spawns runId)

end Cronymax.Agent
