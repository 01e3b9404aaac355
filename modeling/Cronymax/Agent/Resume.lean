import Cronymax.Atomic.History
import Cronymax.Agent.Conversation
import Cronymax.Agent.Handlers

/-! One loop for each run.  The handler of a resume request decides on a copy of the snapshot, marks the
run running whether or not it is running already, and spawns a loop.  So a run has one loop at a time
as long as no request is let through before the loop of the run is over. -/

namespace Cronymax.Agent

open Atomic Authority

namespace Job

variable (runId : RunId)

/-- The job is the loop of the run and has not ended. -/
def Live : Job → Prop
  | .loop task rest => task.runId = runId ∧ ∃ x next, rest = .act x next
  | .handler _ _ => False

/-- The loop may still take a turn. -/
def CanTakeTurns : Job → Prop
  | .loop task rest => task.runId = runId ∧ ∃ tr result, Prog.Yields rest tr result ∧
      ∃ request h, (.act (.stream runId .turn request), h) ∈ tr
  | .handler _ _ => False

/-- A handler that will spawn a loop of the run, whatever happens. -/
def WillSpawn : Job → Prop
  | .handler _ rest => rest.Bound (SpawnsLoop runId)
  | .loop _ _ => False

/-- The job is the loop of the run, or will spawn it. -/
def Holds (job : Job) : Prop := job.Live runId ∨ job.WillSpawn runId

end Job

namespace Server

variable (runId : RunId) (s : Server) (turn : Turn)

/-- At most one loop can still execute turns for the run. -/
def OneLoop : Prop :=
  ∀ (i j : Nat) (a b : Job), s.jobs[i]? = some a → s.jobs[j]? = some b → a.CanTakeTurns runId →
    b.CanTakeTurns runId → i = j

/-- The turn is one of a handler of a resume request. -/
def Resumes (req : ResumeRequest) : Prop :=
  ∃ k rest, turn = .job k ∧ s.jobs[k]? = some (.handler (.resumeRun req) rest)

/-- A resumption spawns its loop only where no other one lives. -/
def ResumesAlone : Prop :=
  ∀ req x, s.Resumes turn req → s.action turn = some x → SpawnsLoop runId x →
    ∀ job ∈ s.jobs, ¬job.Live runId

/-- A resumption marks the run only where no job has its loop or is going to spawn it. -/
def ResumesInTime : Prop :=
  ∀ req x, s.Resumes turn req → s.action turn = some x → MarksRunning runId x s.host →
    ∀ job ∈ s.jobs, ¬job.Holds runId

/-- The id of a new run is new. -/
def DrawsNew : Prop :=
  ∀ x, s.action turn = some x → Creates runId x s.host → s.host.world.authority.status? runId = none

end Server

namespace Job

/-- The job is what a request or a spawned task leaves of itself. -/
def Orderly (runId : RunId) : Job → Prop
  | .handler request rest => Handles runId request rest
  | .loop _ rest => Spawnless rest

variable {runId : RunId} {job job' : Job} {h : Host} {x : HostAct}

theorem step_orderly (hOrderly : job.Orderly runId) (hStep : job.step h = some (x, job')) :
    job'.Orderly runId := by
  cases job with
  | handler request rest =>
    cases rest with
    | act y next =>
      obtain ⟨rfl, rfl⟩ := Prod.mk.inj (Option.some.inj hStep)
      exact ⟨(hOrderly.once h).1, (hOrderly.bindsBy h).1⟩
    | done _ | fail _ => cases hStep
  | loop task rest =>
    cases rest with
    | act y next =>
      obtain ⟨rfl, rfl⟩ := Prod.mk.inj (Option.some.inj hStep)
      exact hOrderly.2 h
    | done _ | fail _ => cases hStep

theorem step_spawns (hOrderly : job.Orderly runId) (hStep : job.step h = some (x, job'))
    (hSpawns : SpawnsLoop runId x) : job.Holds runId ∧ ¬job'.Holds runId := by
  cases job with
  | handler request rest =>
    cases rest with
    | act y next =>
      obtain ⟨rfl, rfl⟩ := Prod.mk.inj (Option.some.inj hStep)
      refine ⟨.inr (.inl hSpawns), fun hHolds => ?_⟩
      exact hHolds.elim id ((hOrderly.once h).2 hSpawns).not_bound
    | done _ | fail _ => cases hStep
  | loop task rest =>
    cases rest with
    | act y next =>
      obtain ⟨rfl, rfl⟩ := Prod.mk.inj (Option.some.inj hStep)
      exact absurd hSpawns (hOrderly.not_spawns runId).1
    | done _ | fail _ => cases hStep

theorem step_holds (hOrderly : job.Orderly runId) (hStep : job.step h = some (x, job'))
    (hHolds : job'.Holds runId) :
    job.Holds runId ∨ ∃ request rest, job = .handler request rest ∧ request.Admits runId x h := by
  cases job with
  | handler request rest =>
    cases rest with
    | act y next =>
      obtain ⟨rfl, rfl⟩ := Prod.mk.inj (Option.some.inj hStep)
      obtain hLive | hBound := hHolds
      · exact hLive.elim
      · obtain hBefore | hAdmits := (hOrderly.bindsBy h).2 hBound
        · exact .inl (.inr hBefore)
        · exact .inr ⟨request, _, rfl, hAdmits⟩
    | done _ | fail _ => cases hStep
  | loop task rest =>
    cases rest with
    | act y next =>
      obtain ⟨rfl, rfl⟩ := Prod.mk.inj (Option.some.inj hStep)
      obtain hLive | hBound := hHolds
      · exact .inl (.inl ⟨hLive.1, _, _, rfl⟩)
      · exact hBound.elim
    | done _ | fail _ => cases hStep

theorem live_of_canTakeTurns (hTurns : job.CanTakeTurns runId) : job.Live runId := by
  cases job with
  | handler request rest => exact hTurns
  | loop task rest =>
    obtain ⟨hRun, tr, result, hYields, request, h, hMem⟩ := hTurns
    cases hYields with
    | act tail => exact ⟨hRun, _, _, rfl⟩
    | done _ | fail _ => cases hMem

end Job

section Known

variable {runId : RunId} {x : HostAct} {h : Host}

/-- The authority has the run. -/
def Host.Knows (h : Host) (runId : RunId) : Prop := (h.world.authority.status? runId).isSome

theorem knows_lock {w : RuntimeAuthority} (y : Section) (hKnows : (w.status? runId).isSome) :
    ((y.apply w).status? runId).isSome := by
  rw [y.status_after]
  cases y.moves w runId with
  | none => exact hKnows
  | some next => rfl

theorem Host.Knows.apply (hKnows : h.Knows runId) (x : HostAct) : (Acts.apply x h).Knows runId := by
  cases x with
  | act y =>
    cases y with
    | locked z => exact knows_lock z hKnows
    | tool t =>
      cases t with
      | authority z => exact knows_lock z hKnows
      | handle handler arguments => exact hKnows
    | _ => exact hKnows
  | _ => exact hKnows

theorem MarksRunning.knows (hMarks : MarksRunning runId x h) : h.Knows runId := by
  cases x with
  | act y =>
    cases y with
    | locked z =>
      cases z with
      | runStatus r =>
        obtain ⟨rfl, hStatus⟩ := hMarks
        rw [Host.Knows, hStatus]
        rfl
      | markRunning r =>
        obtain ⟨rfl, reply, hAnswer⟩ := hMarks
        simp only [Section.decide, RuntimeAuthority.transitionRun] at hAnswer
        cases hRun : h.world.authority.run? r with
        | none =>
          rw [hRun] at hAnswer
          cases hAnswer
        | some run =>
          rw [Host.Knows, Authority.status_of_run hRun]
          rfl
      | _ => exact hMarks.elim
    | _ => exact hMarks.elim
  | _ => exact hMarks.elim

theorem Creates.knows (hCreates : Creates runId x h) : (Acts.apply x h).Knows runId := by
  cases x with
  | act y =>
    cases y with
    | locked z =>
      cases z with
      | operation o =>
        cases o with
        | startRunWithSession spaceId agentId spec sessionId drawn =>
          obtain ⟨rfl, hAccepts⟩ := hCreates
          change ((Section.apply _ h.world.authority).status? drawn).isSome
          rw [Section.status_after]
          simp [Section.moves, Operation.moves, hAccepts]
        | _ => exact hCreates.elim
      | _ => exact hCreates.elim
    | _ => exact hCreates.elim
  | _ => exact hCreates.elim

end Known

theorem getElem?_set_append {α : Type} {l extra : List α} {k i : Nat} {a b : α}
    (h : (l.set k b ++ extra)[i]? = some a) :
    (i = k ∧ a = b) ∨ (i ≠ k ∧ l[i]? = some a) ∨ (l.length ≤ i ∧ extra[i - l.length]? = some a) := by
  by_cases hi : i < l.length
  · rw [List.getElem?_append_left (by rwa [List.length_set]), List.getElem?_set] at h
    split at h
    · rename_i hk
      subst hk
      rw [if_pos hi] at h
      exact .inl ⟨rfl, (Option.some.inj h).symm⟩
    · rename_i hk
      exact .inr (.inl ⟨Ne.symm hk, h⟩)
  · rw [List.getElem?_append_right (by rw [List.length_set]; omega), List.length_set] at h
    exact .inr (.inr ⟨by omega, h⟩)

namespace Server

variable {runId : RunId} {s : Server} {turn : Turn}

/-- At most one job holds the run, and only if the authority has it. -/
structure Single (runId : RunId) (s : Server) : Prop where
  orderly : ∀ job ∈ s.jobs, job.Orderly runId
  known : ∀ job ∈ s.jobs, job.Holds runId → s.host.Knows runId
  one : ∃ k : Nat, ∀ (i : Nat) (job : Job), s.jobs[i]? = some job → job.Holds runId → i = k

theorem job_turn {k : Nat} {x : HostAct} {job job' : Job} (hJob : s.jobs[k]? = some job)
    (hStep : job.step s.host = some (x, job')) : s.action (.job k) = some x ∧
      s.step (.job k) = ⟨Acts.apply x s.host, s.jobs.set k job' ++ x.spawned⟩ := by
  simp only [action, step, hJob, Option.bind_some, hStep, Option.map_some, and_self]

theorem Single.free {k : Nat} {x : HostAct} {request : Request} {rest : HostOp ControlResponse}
    (h : s.Single runId) (hNew : s.DrawsNew runId (.job k)) (hInTime : s.ResumesInTime runId (.job k))
    (hJob : s.jobs[k]? = some (.handler request rest)) (hAction : s.action (.job k) = some x)
    (hAdmits : request.Admits runId x s.host) : ∀ job ∈ s.jobs, ¬job.Holds runId := by
  have hCreates : Creates runId x s.host → ∀ job ∈ s.jobs, ¬job.Holds runId := by
    intro hCreates job hMem hHolds
    have hKnown := h.known job hMem hHolds
    rw [Host.Knows, hNew x hAction hCreates] at hKnown
    cases hKnown
  cases request with
  | resumeRun req => exact hInTime req x ⟨k, rest, rfl, hJob⟩ hAction hAdmits
  | _ => exact hCreates hAdmits

theorem Single.receive (h : s.Single runId) (request : Request) :
    (s.step (.receive request)).Single runId := by
  have hNew := request.prog_undecided runId
  have hFree : ¬(Job.handler request request.prog).Holds runId := fun hHolds =>
    hHolds.elim id hNew.free
  refine ⟨fun job hMem => ?_, fun job hMem hHolds => ?_, ?_⟩
  · obtain hMem | hMem := List.mem_append.mp hMem
    · exact h.orderly job hMem
    · obtain rfl := List.mem_singleton.mp hMem
      exact hNew.toHandles
  · obtain hMem | hMem := List.mem_append.mp hMem
    · exact h.known job hMem hHolds
    · obtain rfl := List.mem_singleton.mp hMem
      exact absurd hHolds hFree
  · obtain ⟨k, hOne⟩ := h.one
    refine ⟨k, fun i job hJob hHolds => ?_⟩
    simp only [step, List.getElem?_append] at hJob
    split at hJob
    · exact hOne i job hJob hHolds
    · obtain rfl := List.mem_singleton.mp (List.mem_of_getElem? hJob)
      exact absurd hHolds hFree

theorem spawned_orderly (x : HostAct) : ∀ job ∈ x.spawned, job.Orderly runId := by
  intro job hMem
  cases x with
  | spawn task =>
    obtain rfl := List.mem_singleton.mp hMem
    exact task.prog_spawnless
  | _ => cases hMem

theorem spawned_holds {x : HostAct} {job : Job} (hMem : job ∈ x.spawned) (hHolds : job.Holds runId) :
    SpawnsLoop runId x := by
  cases x with
  | spawn task =>
    obtain rfl := List.mem_singleton.mp hMem
    exact hHolds.elim (·.1) False.elim
  | _ => cases hMem

theorem step_known (h : s.Single runId) {k : Nat} {x : HostAct} {job job' : Job}
    (hJob : s.jobs[k]? = some job) (hStep : job.step s.host = some (x, job'))
    (hHolds : job'.Holds runId) : (Acts.apply x s.host).Knows runId := by
  have hMem := List.mem_of_getElem? hJob
  obtain hBefore | ⟨request, rest, -, hAdmits⟩ := Job.step_holds (h.orderly job hMem) hStep hHolds
  · exact (h.known job hMem hBefore).apply x
  · cases request with
    | resumeRun req => exact (MarksRunning.knows hAdmits).apply x
    | _ => exact Creates.knows hAdmits

theorem Single.job {k : Nat} {x : HostAct} {job job' : Job} (h : s.Single runId)
    (hNew : s.DrawsNew runId (.job k)) (hInTime : s.ResumesInTime runId (.job k))
    (hJob : s.jobs[k]? = some job) (hStep : job.step s.host = some (x, job')) :
    Single runId ⟨Acts.apply x s.host, s.jobs.set k job' ++ x.spawned⟩ := by
  have hMem := List.mem_of_getElem? hJob
  have hOrderly := h.orderly job hMem
  obtain ⟨k₀, hOne⟩ := h.one
  refine ⟨fun j hj => ?_, fun j hj hHolds => ?_, ?_⟩
  · obtain hj | hj := List.mem_append.mp hj
    · obtain hj | rfl := List.mem_or_eq_of_mem_set hj
      · exact h.orderly j hj
      · exact Job.step_orderly hOrderly hStep
    · exact spawned_orderly x j hj
  · obtain hj | hj := List.mem_append.mp hj
    · obtain hj | rfl := List.mem_or_eq_of_mem_set hj
      · exact (h.known j hj hHolds).apply x
      · exact step_known h hJob hStep hHolds
    · have hBefore := (Job.step_spawns hOrderly hStep (spawned_holds hj hHolds)).1
      exact (h.known job hMem hBefore).apply x
  · by_cases hSpawns : SpawnsLoop runId x
    · -- the handler that was bound hands the run on to the loop that it spawns
      obtain ⟨hBefore, hAfter⟩ := Job.step_spawns hOrderly hStep hSpawns
      have hk := hOne k job hJob hBefore
      refine ⟨s.jobs.length, fun i j hj hHolds => ?_⟩
      obtain ⟨-, rfl⟩ | ⟨hi, hj⟩ | ⟨hi, hj⟩ := getElem?_set_append hj
      · exact absurd hHolds hAfter
      · exact absurd ((hOne i j hj hHolds).trans hk.symm) hi
      · cases x with
        | spawn task =>
          have hLength := (List.getElem?_eq_some_iff.mp hj).1
          simp only [HostAct.spawned, List.length_singleton] at hLength
          omega
        | _ => exact hSpawns.elim
    · by_cases hTaken : job'.Holds runId ∧ ¬job.Holds runId
      · -- a request is let through, and nothing else holds the run
        obtain hBefore | ⟨request, rest, rfl, hAdmits⟩ := Job.step_holds hOrderly hStep hTaken.1
        · exact absurd hBefore hTaken.2
        · have hFree := h.free hNew hInTime hJob (job_turn hJob hStep).1 hAdmits
          refine ⟨k, fun i j hj hHolds => ?_⟩
          obtain ⟨rfl, -⟩ | ⟨-, hj⟩ | ⟨-, hj⟩ := getElem?_set_append hj
          · rfl
          · exact absurd hHolds (hFree j (List.mem_of_getElem? hj))
          · exact absurd (spawned_holds (List.mem_of_getElem? hj) hHolds) hSpawns
      · refine ⟨k₀, fun i j hj hHolds => ?_⟩
        obtain ⟨rfl, rfl⟩ | ⟨-, hj⟩ | ⟨-, hj⟩ := getElem?_set_append hj
        · exact hOne i job hJob (not_not.mp fun hNot => hTaken ⟨hHolds, hNot⟩)
        · exact hOne i j hj hHolds
        · exact absurd (spawned_holds (List.mem_of_getElem? hj) hHolds) hSpawns

theorem Single.step (h : s.Single runId) (hNew : s.DrawsNew runId turn)
    (hInTime : s.ResumesInTime runId turn) : (s.step turn).Single runId := by
  cases turn with
  | receive request => exact h.receive request
  | job k =>
    cases hJob : s.jobs[k]? with
    | none => simpa only [Server.step, hJob, Option.bind_none] using h
    | some job =>
      cases hStep : job.step s.host with
      | none => simpa only [Server.step, hJob, Option.bind_some, hStep] using h
      | some move => simpa only [(job_turn hJob hStep).2] using h.job hNew hInTime hJob hStep

theorem Single.oneLoop (h : s.Single runId) : s.OneLoop runId := by
  obtain ⟨k, hOne⟩ := h.one
  intro i j a b hi hj ha hb
  exact (hOne i a hi (.inl (Job.live_of_canTakeTurns ha))).trans
    (hOne j b hj (.inl (Job.live_of_canTakeTurns hb))).symm

/-- A handler that spawns the loop of the run holds the run, so that no loop does. -/
theorem Single.resumesAlone (h : s.Single runId) : s.ResumesAlone runId turn := by
  rintro req x ⟨k, rest, rfl, hJob⟩ hAction hSpawns job hMem hLive
  obtain ⟨k₀, hOne⟩ := h.one
  obtain ⟨i, hi⟩ := List.getElem?_of_mem hMem
  obtain ⟨move, hStep, rfl⟩ := Option.map_eq_some_iff.mp hAction
  rw [hJob, Option.bind_some] at hStep
  have hHolds := (Job.step_spawns (h.orderly _ (List.mem_of_getElem? hJob)) hStep hSpawns).1
  have hSame := (hOne i job hi (.inl hLive)).trans (hOne k _ hJob hHolds).symm
  rw [hSame, hJob] at hi
  obtain rfl := Option.some.inj hi
  exact hLive

/-- From a server without jobs on, as long as resume requests are let through in time, at most one loop
can execute turns for the run, and a loop that is spawned by a resume request is alone. -/
theorem one_loop_per_run {runId : RunId} {s : Server} {turns : List Turn} (hIdle : s.jobs = [])
    (hNew : History.Each step (fun s turn => s.DrawsNew runId turn) s turns)
    (hInTime : History.Each step (fun s turn => s.ResumesInTime runId turn) s turns) :
    History.Each step (fun s turn => s.ResumesAlone runId turn ∧ (s.step turn).OneLoop runId) s
      turns := by
  have hStart : s.Single runId := by
    refine ⟨?_, ?_, 0, ?_⟩ <;> simp [hIdle]
  refine History.each_of_invariant (I := fun s => s.Single runId) (fun s turn h hTurn => ?_)
    ((History.each_and turns).mpr ⟨hNew, hInTime⟩) hStart
  have hNext := h.step hTurn.1 hTurn.2
  exact ⟨hNext, h.resumesAlone, hNext.oneLoop⟩

theorem canTakeTurns_of_facing {runId : RunId} {task : LoopTask} {rest : HostOp Unit}
    (hs : List Host) (hRun : task.runId = runId) {request : LlmRequest} {h : Host}
    (hMem : (.act (.stream runId .turn request), h) ∈ rest.facing hs) :
    (Job.loop task rest).CanTakeTurns runId := by
  obtain ⟨tr, r, hYields⟩ := rest.exists_yields_facing hs
  exact ⟨hRun, _, r, hYields, request, h, List.mem_append_left _ hMem⟩

def startChat : StartRequest where
  space := ⟨⟨"home"⟩, "home", 80, 6⟩
  sessionId := none
  sessionName := none
  spec := .null
  goal := none
  dispatch := .native
  chatStore := false
  provider := .ok chatConfig
  summarizePrompt := ""
  drawn := chatRun
  subscription := ⟨"start"⟩

def resumeChat : ResumeRequest where
  runId := chatRun
  providerLabel := ""
  chatStore := false
  provider _ := .ok chatConfig
  summarizePrompt := ""
  subscription := ⟨"resume"⟩

def idle : Server := ⟨.empty, []⟩

def pausedAndResumed : List Turn :=
  .receive (.startRun startChat) :: List.replicate 6 (.job 0) ++ List.replicate 4 (.job 1) ++
    [.receive (.pauseRun chatRun), .job 2] ++
    .receive (.resumeRun resumeChat) :: List.replicate 5 (.job 3)

/-- The loop that has been paused has not looked at the status since, and the resume spawns another. -/
theorem two_loops_after_resume :
    ¬∀ (runId : RunId) (s : Server) (turns : List Turn), s.jobs = [] →
      History.Each step (fun s turn => s.DrawsNew runId turn) s turns →
      History.Each step (fun s turn => s.ResumesAlone runId turn ∧ (s.step turn).OneLoop runId) s
        turns := by
  intro h
  have hNew : History.Each step (fun s turn => s.DrawsNew chatRun turn) idle
      (pausedAndResumed ++ [.job 3]) := by
    repeat' apply And.intro
    all_goals
      first
      | trivial
      | rintro x ⟨⟩ hCreates
        try first
        | exact hCreates.elim
        | rfl
  have hEach := h chatRun idle (pausedAndResumed ++ [.job 3]) rfl hNew
  have hOne := (History.each_append.mp hEach).2.1.2
  let s := (History.play step idle pausedAndResumed).step (.job 3)
  let started := startChat.task []
  obtain ⟨next, hFirst⟩ : ∃ next, s.jobs[1]? = some (.loop started
      (.act (.act (.stream chatRun .turn (started.loop chatConfig []).request)) next)) := ⟨_, rfl⟩
  let resumed : LoopTask := ⟨.resumeRun, chatRun, none, false, [], .ok chatConfig, ""⟩
  have hSecond : s.jobs[4]? = some (.loop resumed resumed.prog) := rfl
  let h : Host := ⟨streaming [], ∅⟩
  have hTurns : (Job.loop resumed resumed.prog).CanTakeTurns chatRun :=
    canTakeTurns_of_facing [h, h, h, h] rfl (List.mem_of_getElem? (i := 3) rfl)
  have hSame := hOne 1 4 _ _ hFirst hSecond
    (canTakeTurns_of_facing [h] rfl List.mem_cons_self) hTurns
  exact absurd hSame (by decide)

def restarted : Server :=
  let run := Run.new chatRun ⟨"home"⟩ none none .null 0
  let snapshot := Snapshot.empty.setRun chatRun { run with status := .paused }
  ⟨⟨⟨.start snapshot snapshot [] [], [], [], [], [], []⟩, ∅⟩, []⟩

/-- A run that a restart has paused is resumed by one request. -/
theorem resumed_once :
    let turns := .receive (.resumeRun resumeChat) :: List.replicate 6 (.job 0)
    History.Each step (fun s turn => s.ResumesAlone chatRun turn ∧ (s.step turn).OneLoop chatRun)
      restarted turns := by
  refine one_loop_per_run rfl ?_ ?_
  · repeat' apply And.intro
    all_goals
      first
      | trivial
      | rintro x ⟨⟩ hCreates
        try exact hCreates.elim
  · repeat' apply And.intro
    all_goals
      first
      | trivial
      | rintro req x - ⟨⟩ hMarks
        try exact hMarks.elim
    · exact nomatch hMarks.2
    · intro job hMem hHolds
      obtain rfl := List.mem_singleton.mp hMem
      exact hHolds.elim id fun hBound => hBound.elim id fun hAll => hAll .empty

end Server

end Cronymax.Agent
