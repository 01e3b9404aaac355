import Cronymax.Atomic.History
import Cronymax.Extensions.Supervisors

/-! Which runs recover from every crash.  A signal that is dropped is not repeated; it is not needed while
a restart has still to take the host away, or awaits an answer that will not come. -/

namespace Cronymax.Extensions.Supervisors

open Atomic
open ExtensionRuntime (step)

namespace Host

variable (x : Host)

/-- A signal of the host has not been looked at. -/
def Alerts : Prop := 0 < x.signals ∨ x.supervisor = .entering

/-- The host has crashed or hangs. -/
def Failed : Prop := x.crashed = true ∨ x.hung = true

/-- If the host has crashed, its supervisor is to act on it. -/
def Covered : Prop := x.crashed = true → x.Alerts

/-- A crash has been signalled and not yet been received. -/
def Queued : Prop := x.crashed = true → 0 < x.signals

instance : Decidable x.Failed := inferInstanceAs (Decidable (_ ∨ _))

end Host

variable (s : ExtensionRuntime)

/-- What holds of a host, if there is one with the number. -/
def At (k : Nat) (p : Host → Prop) : Prop := ∀ x, s.hosts[k]? = some x → p x

/-- `k` is the host that has been spawned last, and the handle is its. -/
def Current (k : Nat) : Prop := k + 1 = s.hosts.length ∧ s.handle = some k

/-- The crash path has disabled the extension. -/
def GivenUp : Prop := s.activated = false ∧ s.enabled = false ∧ s.disabledReason = some .crash

/-- All handlers have returned. -/
def Quiet : Prop := ∀ x ∈ s.hosts, x.supervisor = .idle ∧ x.signals = 0

instance : Decidable (Quiet s) := inferInstanceAs (Decidable (∀ x ∈ s.hosts, _))

/-- What is promised of a state at rest. -/
structure Kept : Prop where
  recovers : s.starting = .done → Quiet s →
    (s.activated = true ∧ ∃ k, Current s k ∧ At s k fun x => x.crashed = false) ∨ GivenUp s
  spares : ∀ f, s.flight = some f → f.stage = .counting ∨ f.stage = .backingOff ∨ f.stage = .tearingDown →
    ∀ k, s.handle = some k → At s k Host.Failed

/-- A crash that a supervisor drops is one that the activation or the restart still notices, and a
restart begins only for a host that has failed. -/
def Meets (s : ExtensionRuntime) : Event → Prop
  | .receive i => s.activated = false → ∀ x, s.hosts[i]? = some x → x.supervisor = .idle →
    x.signals = 1 → x.crashed = true →
      s.starting ≠ .marking ∧ (s.starting = .awaiting i → x.reply ≠ some true)
  | .enter i => ∀ x, s.hosts[i]? = some x → x.supervisor = .entering →
    (s.flight = none → ∀ k, s.handle = some k → At s k Host.Failed) ∧
      ∀ f, s.flight = some f → s.handle = some i → x.signals = 0 → x.crashed = true →
        f.stage ≠ .releasing ∧ (f.stage = .awaiting i → x.reply ≠ some true)
  | _ => True

/-- What holds in a stage of the flight. -/
def Stage.Fits (s : ExtensionRuntime) : Stage → Prop
  | .counting | .backingOff =>
    (s.activated = true → ∃ k, Current s k) ∧ ∀ k, s.handle = some k → At s k Host.Failed
  | .tearingDown => s.activated = true ∧ ∀ k, s.handle = some k → At s k Host.Failed
  | .spawning => s.activated = true
  | .inserting k => s.activated = true ∧ k + 1 = s.hosts.length ∧ At s k fun x => x.reply = none
  | .awaiting k => s.activated = true ∧ Current s k ∧ At s k fun x => x.reply = some true → x.Covered
  | .deactivating => True
  | .disabling => s.activated = false
  | .clearing => GivenUp s
  | .releasing => s.activated = true → ∃ k, Current s k ∧ At s k Host.Covered

/-- Between two steps of `activate`. -/
def Starting.Fits (s : ExtensionRuntime) : Starting → Prop
  | .spawning => s.hosts = []
  | .inserting k => k + 1 = s.hosts.length ∧ At s k fun x => x.reply = none
  | .awaiting k => Current s k ∧ At s k fun x => x.reply = some true → x.Queued
  | .marking => ∃ k, Current s k ∧ At s k Host.Queued
  | .rollingBack | .failed | .done => True

/-- How the hosts, their supervisors and the flight fit together. -/
structure Sound : Prop where
  flight : ∀ f, s.flight = some f → f.stage.Fits s ∧ At s f.owner fun x => x.supervisor = .restarting
  owned : ∀ f, s.flight = some f → f.owner < s.hosts.length
  starts : s.starting.Fits s
  early : s.starting ≠ .done → s.activated = false ∧ s.flight = none ∧ ∀ x ∈ s.hosts, x.supervisor = .idle
  steady : s.flight = none → s.activated = true → ∃ k, Current s k ∧ At s k Host.Covered
  off : s.starting = .done → s.activated = false → s.handle = none ∧
    (GivenUp s ∨ s.flight.map (·.stage) = some .disabling)

variable {s} {t : ExtensionRuntime} {i k : Nat} {f : Host → Host} {p q : Host → Prop}

theorem sound_new : Sound .new where
  flight _ h := nomatch h
  owned _ h := nomatch h
  starts := rfl
  early _ := ⟨rfl, rfl, fun _ h => nomatch h⟩
  steady _ h := nomatch h
  off h := nomatch h

theorem At.edit (h : At s k p) (hSame : k = i → ∀ x, s.hosts[i]? = some x → p x → p (f x)) :
    At (s.edit i f) k p := by
  intro x hAt
  have hAt : (s.hosts.modify i f)[k]? = some x := hAt
  rw [List.getElem?_modify] at hAt
  obtain ⟨y, hOld, rfl⟩ := Option.map_eq_some_iff.mp hAt
  split
  · rename_i hEq
    subst hEq
    exact hSame rfl y hOld (h y hOld)
  · exact h y hOld

theorem At.append (h : At s k p) (hHosts : t.hosts = s.hosts ++ [.spawned]) (hLess : k < s.hosts.length) :
    At t k p := by
  intro x hAt
  rw [hHosts, List.getElem?_append_left hLess] at hAt
  exact h x hAt

theorem edit_length : (s.edit i f).hosts.length = s.hosts.length := List.length_modify ..

/-- What an edit of one host has to leave. -/
structure Gentle (s : ExtensionRuntime) (i : Nat) (f : Host → Host) : Prop where
  failed : ∀ x, s.hosts[i]? = some x → x.Failed → (f x).Failed
  restarting : ∀ x, s.hosts[i]? = some x → x.supervisor = .restarting → (f x).supervisor = .restarting
  silent : ¬s.Asked i → ∀ x, s.hosts[i]? = some x → x.reply = none → (f x).reply = none
  covered : s.handle = some i → s.flight = none ∨ s.flight.map (·.stage) = some .releasing →
    s.activated = true → ∀ x, s.hosts[i]? = some x → x.Covered → (f x).Covered
  answered : s.handle = some i → s.flight.map (·.stage) = some (.awaiting i) →
    ∀ x, s.hosts[i]? = some x → (x.reply = some true → x.Covered) →
      (f x).reply = some true → (f x).Covered
  queued : s.starting = .marking → ∀ x, s.hosts[i]? = some x → x.Queued → (f x).Queued
  promised : s.starting = .awaiting i → ∀ x, s.hosts[i]? = some x →
    (x.reply = some true → x.Queued) → (f x).reply = some true → (f x).Queued
  idle : s.starting ≠ .done → ∀ x, s.hosts[i]? = some x → x.supervisor = .idle →
    (f x).supervisor = .idle

theorem Current.edit (h : Current s k) : Current (s.edit i f) k :=
  ⟨h.1.trans edit_length.symm, h.2⟩

theorem Sound.started (h : Sound s) {fl : Flight} (hFlight : s.flight = some fl) : s.starting = .done := by
  by_contra hEarly
  rw [(h.early hEarly).2.1] at hFlight
  cases hFlight

theorem Sound.fits_edit (h : Sound s) (hGentle : Gentle s i f) {fl : Flight}
    (hFlight : s.flight = some fl) (hFits : fl.stage.Fits s) : fl.stage.Fits (s.edit i f) := by
  have hStage : s.flight.map (·.stage) = some fl.stage := by rw [hFlight]; rfl
  obtain ⟨owner, stage⟩ := fl
  cases stage with
  | counting | backingOff =>
    refine ⟨fun hActive => ?_, fun k hHandle => ?_⟩
    · obtain ⟨k, hCurrent⟩ := hFits.1 hActive
      exact ⟨k, hCurrent.edit⟩
    · exact (hFits.2 k hHandle).edit fun _ => hGentle.failed
  | tearingDown => exact ⟨hFits.1, fun k hHandle => (hFits.2 k hHandle).edit fun _ => hGentle.failed⟩
  | spawning | disabling | deactivating => exact hFits
  | inserting k =>
    have hAsked : ¬s.Asked k := by
      rintro (hStarting | hAwaiting)
      · rw [h.started hFlight] at hStarting
        cases hStarting
      · rw [hStage] at hAwaiting
        cases hAwaiting
    refine ⟨hFits.1, hFits.2.1.trans edit_length.symm, hFits.2.2.edit fun hSame => ?_⟩
    subst hSame
    exact hGentle.silent hAsked
  | awaiting k =>
    refine ⟨hFits.1, hFits.2.1.edit, hFits.2.2.edit fun hSame => ?_⟩
    subst hSame
    exact hGentle.answered hFits.2.1.2 hStage
  | clearing => exact hFits
  | releasing =>
    intro hActive
    obtain ⟨k, hCurrent, hCovered⟩ := hFits hActive
    refine ⟨k, hCurrent.edit, hCovered.edit fun hSame => ?_⟩
    subst hSame
    exact hGentle.covered hCurrent.2 (.inr hStage) hActive

theorem Sound.starts_edit (h : Sound s) (hGentle : Gentle s i f) : s.starting.Fits (s.edit i f) := by
  have hStarts := h.starts
  cases hStarting : s.starting with
  | spawning =>
    rw [hStarting] at hStarts
    show s.hosts.modify i f = []
    rw [show s.hosts = [] from hStarts, List.modify_nil]
  | inserting k =>
    rw [hStarting] at hStarts
    have hAsked : ¬s.Asked k := by
      rintro (hAwaiting | hAwaiting)
      · rw [hStarting] at hAwaiting
        cases hAwaiting
      · rw [(h.early (by rw [hStarting]; rintro ⟨⟩)).2.1] at hAwaiting
        cases hAwaiting
    refine ⟨hStarts.1.trans edit_length.symm, hStarts.2.edit fun hSame => ?_⟩
    subst hSame
    exact hGentle.silent hAsked
  | awaiting k =>
    rw [hStarting] at hStarts
    refine ⟨hStarts.1.edit, hStarts.2.edit fun hSame => ?_⟩
    subst hSame
    exact hGentle.promised hStarting
  | marking =>
    rw [hStarting] at hStarts
    obtain ⟨k, hCurrent, hQueued⟩ := hStarts
    refine ⟨k, hCurrent.edit, hQueued.edit fun hSame => ?_⟩
    subst hSame
    exact hGentle.queued hStarting
  | rollingBack | failed | done => exact trivial

theorem Sound.edit (h : Sound s) (hGentle : Gentle s i f) : Sound (s.edit i f) where
  flight fl hFlight := by
    obtain ⟨hFits, hOwner⟩ := h.flight fl hFlight
    exact ⟨h.fits_edit hGentle hFlight hFits, hOwner.edit fun _ => hGentle.restarting⟩
  owned fl hFlight := Nat.lt_of_lt_of_eq (h.owned fl hFlight) edit_length.symm
  starts := h.starts_edit hGentle
  early hEarly := by
    obtain ⟨hActivated, hFlight, hIdle⟩ := h.early hEarly
    refine ⟨hActivated, hFlight, fun x hx => ?_⟩
    obtain ⟨k, hAt⟩ := List.mem_iff_getElem?.mp hx
    have hAll : At s k fun x => x.supervisor = .idle := fun y hy => hIdle y (List.mem_of_getElem? hy)
    exact hAll.edit (fun _ => hGentle.idle hEarly) x hAt
  steady hFlight hActive := by
    obtain ⟨k, hCurrent, hCovered⟩ := h.steady hFlight hActive
    refine ⟨k, hCurrent.edit, hCovered.edit fun hSame => ?_⟩
    subst hSame
    exact hGentle.covered hCurrent.2 (.inl hFlight) hActive
  off := h.off

theorem gentle_signal (hFailed : ∀ x, x.Failed → (f x).Failed)
    (hSupervisor : ∀ x, (f x).supervisor = x.supervisor)
    (hReply : ∀ x, (f x).reply = x.reply)
    (hSignals : ∀ x, 0 < (f x).signals ∨ (f x).signals = x.signals ∧ (f x).crashed = x.crashed) :
    Gentle s i f := by
  have hCovered : ∀ x, x.Covered → (f x).Covered := by
    intro x hx hCrashed
    rcases hSignals x with hMore | ⟨hSame, hSameCrashed⟩
    · exact .inl hMore
    · unfold Host.Alerts
      rw [hSame, hSupervisor]
      exact hx (hSameCrashed ▸ hCrashed)
  have hQueued : ∀ x, x.Queued → (f x).Queued := by
    intro x hx hCrashed
    rcases hSignals x with hMore | ⟨hSame, hSameCrashed⟩
    · exact hMore
    · rw [hSame]
      exact hx (hSameCrashed ▸ hCrashed)
  constructor
  · exact fun x _ => hFailed x
  · exact fun x _ hRestarting => (hSupervisor x).trans hRestarting
  · exact fun _ x _ hNone => (hReply x).trans hNone
  · exact fun _ _ _ x _ => hCovered x
  · exact fun _ _ x _ hx hAnswered => hCovered x (hx (hReply x ▸ hAnswered))
  · exact fun _ x _ => hQueued x
  · exact fun _ x _ hx hAnswered => hQueued x (hx (hReply x ▸ hAnswered))
  · exact fun _ x _ hIdle => (hSupervisor x).trans hIdle

theorem gentle_crash : Gentle s i .crash := by
  refine gentle_signal ?_ ?_ ?_ ?_ <;> intro x <;> unfold Host.crash <;> split
  · exact id
  · exact fun _ => .inl rfl
  · rfl
  · rfl
  · rfl
  · rfl
  · exact .inr ⟨rfl, rfl⟩
  · exact .inl (Nat.succ_pos _)

theorem gentle_hang : Gentle s i .hang := by
  refine gentle_signal ?_ ?_ ?_ ?_ <;> intro x <;> unfold Host.hang <;> split
  · exact id
  · exact fun _ => .inr rfl
  · rfl
  · rfl
  · rfl
  · rfl
  · exact .inr ⟨rfl, rfl⟩
  · exact .inl (Nat.succ_pos _)

theorem answer_cases {ok : Bool} {x : Host} (hSame : p x)
    (hNew : x.crashed = false → p { x with reply := some ok }) : p (x.answer ok) := by
  unfold Host.answer
  split
  · exact hSame
  · rename_i hAnswers
    exact hNew (Bool.eq_false_iff.mpr fun hCrashed => hAnswers (.inl hCrashed))

theorem gentle_answer {ok : Bool} (hAsked : s.Asked i) : Gentle s i (·.answer ok) := by
  have hAlive {x : Host} {P : Prop} (hCrashed : x.crashed = false) (h : x.crashed = true) : P :=
    nomatch hCrashed.symm.trans h
  constructor
  · exact fun x _ hFailed => answer_cases hFailed fun _ => hFailed
  · exact fun x _ hRestarting =>
      answer_cases (p := fun y => y.supervisor = .restarting) hRestarting fun _ => hRestarting
  · exact fun hNot => absurd hAsked hNot
  · exact fun _ _ _ x _ hCovered => answer_cases hCovered fun hCrashed h => hAlive hCrashed h
  · exact fun _ _ x _ hAnswered =>
      answer_cases (p := fun y => y.reply = some true → y.Covered) hAnswered
        fun hCrashed _ h => hAlive hCrashed h
  · exact fun _ x _ hQueued => answer_cases hQueued fun hCrashed h => hAlive hCrashed h
  · exact fun _ x _ hPromised =>
      answer_cases (p := fun y => y.reply = some true → y.Queued) hPromised
        fun hCrashed _ h => hAlive hCrashed h
  · exact fun _ x _ hIdle => answer_cases (p := fun y => y.supervisor = .idle) hIdle fun _ => hIdle

theorem receive_cases {activated : Bool} {x : Host} (hSame : p x)
    (hNew : x.supervisor = .idle → 0 < x.signals → p
      { x with signals := x.signals - 1, supervisor := if activated then .entering else .idle }) :
    p (x.receive activated) := by
  unfold Host.receive
  split
  · rename_i hTakes
    exact hNew hTakes.1 hTakes.2
  · exact hSame

theorem Sound.gentle_receive (h : Sound s) (hMeets : Meets s (.receive i)) :
    Gentle s i (·.receive s.activated) := by
  -- before the activation the last signal of a host that has crashed is not taken
  have hQueued : ∀ x, s.hosts[i]? = some x → x.Queued →
      (x.supervisor = .idle → x.signals = 1 → x.crashed = true → False) →
        (x.receive s.activated).Queued := by
    intro x _ hx hLast
    refine receive_cases hx fun hIdle hSome hCrashed => ?_
    show 0 < x.signals - 1
    by_contra hNone
    exact hLast hIdle (by omega) hCrashed
  have hCovered : s.activated = true → ∀ x, Host.Covered x → (Host.receive x s.activated).Covered := by
    intro hActive x hx
    refine receive_cases hx fun _ _ _ => .inr ?_
    exact if_pos hActive
  constructor
  · exact fun x _ hFailed => receive_cases hFailed fun _ _ => hFailed
  · intro x _ hRestarting
    refine receive_cases (p := fun y => y.supervisor = .restarting) hRestarting fun hIdle => ?_
    rw [hIdle] at hRestarting
    cases hRestarting
  · exact fun _ x _ hNone => receive_cases (p := fun y => y.reply = none) hNone fun _ _ => hNone
  · exact fun _ _ hActive x _ => hCovered hActive x
  · intro _ hStage x _ hAnswered
    obtain ⟨fl, hFlight, hAwaiting⟩ := Option.map_eq_some_iff.mp hStage
    have hFits := (h.flight fl hFlight).1
    rw [hAwaiting] at hFits
    refine receive_cases (p := fun y => y.reply = some true → y.Covered) hAnswered
      fun _ _ _ _ => .inr (if_pos hFits.1)
  · intro hMarking x hAt hx
    have hEarly := h.early (by rw [hMarking]; rintro ⟨⟩)
    exact hQueued x hAt hx fun hIdle hOne hCrashed =>
      (hMeets hEarly.1 x hAt hIdle hOne hCrashed).1 hMarking
  · intro hAwaiting x hAt hPromised hAnswered
    have hEarly := h.early (by rw [hAwaiting]; rintro ⟨⟩)
    have hReply : x.reply = some true :=
      receive_cases (p := fun y => y.reply = some true → x.reply = some true) id (fun _ _ => id) hAnswered
    exact hQueued x hAt (hPromised hReply) fun hIdle hOne hCrashed =>
      (hMeets hEarly.1 x hAt hIdle hOne hCrashed).2 hAwaiting hReply
  · intro hEarly x _ hIdle
    refine receive_cases (p := fun y => y.supervisor = .idle) hIdle fun _ _ => ?_
    rw [(h.early hEarly).1]
    rfl

theorem gentle_wait {fl : Flight} (hMeets : Meets s (.enter i)) (hFlight : s.flight = some fl)
    (hEntering : At s i fun x => x.supervisor = .entering) : Gentle s i .wait := by
  have hStage {stage : Stage} (h : s.flight.map (·.stage) = some stage) : fl.stage = stage := by
    rw [hFlight] at h
    exact Option.some.inj h
  have hMore (hHandle : s.handle = some i) {x : Host} (hAt : s.hosts[i]? = some x)
      (hCrashed : x.crashed = true)
      (hKeeps : fl.stage = .releasing ∨ fl.stage = .awaiting i ∧ x.reply = some true) :
      0 < x.signals := by
    by_contra hNone
    obtain ⟨hReleasing, hAwaiting⟩ :=
      (hMeets x hAt (hEntering x hAt)).2 fl hFlight hHandle (by omega) hCrashed
    rcases hKeeps with hKeeps | ⟨hKeeps, hReply⟩
    · exact hReleasing hKeeps
    · exact hAwaiting hKeeps hReply
  constructor
  · exact fun _ _ hFailed => hFailed
  · intro x hAt hRestarting
    rw [hEntering x hAt] at hRestarting
    cases hRestarting
  · exact fun _ _ _ hNone => hNone
  · intro hHandle hEnds _ x hAt _ hCrashed
    rcases hEnds with hNone | hReleasing
    · rw [hFlight] at hNone
      cases hNone
    · have hSome := hMore hHandle hAt hCrashed (.inl (hStage hReleasing))
      exact .inl hSome
  · intro hHandle hAwaiting x hAt _ hReply hCrashed
    have hSome := hMore hHandle hAt hCrashed (.inr ⟨hStage hAwaiting, hReply⟩)
    exact .inl hSome
  · exact fun _ _ _ hQueued => hQueued
  · exact fun _ _ _ hPromised => hPromised
  · exact fun _ _ _ _ => rfl

theorem Sound.enter (h : Sound s) (hMeets : Meets s (.enter i)) : Sound (s.enter i) := by
  unfold ExtensionRuntime.enter
  split
  · rename_i hEntering
    obtain ⟨x, hAt, hSupervisor⟩ := Option.map_eq_some_iff.mp hEntering
    have hAll : At s i fun x => x.supervisor = .entering := fun y hy =>
      Option.some.inj (hAt.symm.trans hy) ▸ hSupervisor
    split
    · rename_i hFlight
      obtain ⟨fl, hFlight⟩ := Option.isSome_iff_exists.mp hFlight
      exact h.edit (gentle_wait hMeets hFlight hAll)
    · rename_i hFree
      have hNone : s.flight = none := Option.not_isSome_iff_eq_none.mp hFree
      have hDone : s.starting = .done := by
        by_contra hEarly
        have hIdle := (h.early hEarly).2.2 x (List.mem_of_getElem? hAt)
        rw [hSupervisor] at hIdle
        cases hIdle
      have hLess := (List.getElem?_eq_some_iff.mp hAt).1
      constructor
      · rintro fl hFlight
        cases hFlight
        refine ⟨⟨fun hActive => ?_, fun k hHandle => ?_⟩, ?_⟩
        · obtain ⟨k, hCurrent, -⟩ := h.steady hNone hActive
          exact ⟨k, hCurrent.1.trans edit_length.symm, hCurrent.2⟩
        · exact ((hMeets x hAt hSupervisor).1 hNone k hHandle).edit fun _ _ _ hFailed => hFailed
        · intro y hy
          have hy : (s.hosts.modify i _)[i]? = some y := hy
          rw [List.getElem?_modify_eq, hAt] at hy
          cases hy
          rfl
      · rintro fl hFlight
        cases hFlight
        exact Nat.lt_of_lt_of_eq hLess edit_length.symm
      · show s.starting.Fits _
        rw [hDone]
        exact trivial
      · exact fun hEarly => absurd hDone hEarly
      · exact fun hFlight => nomatch hFlight
      · intro _ hOff
        obtain ⟨hHandle, hGiven | hDisabling⟩ := h.off hDone hOff
        · exact ⟨hHandle, .inl hGiven⟩
        · rw [hNone] at hDisabling
          cases hDisabling
  · exact h

theorem Sound.goto (h : Sound s) {fl : Flight} (hFlight : s.flight = some fl) {stage : Stage}
    (hNext : t.flight = some ⟨fl.owner, stage⟩) (hStarting : t.starting = s.starting)
    (hOwner : At t fl.owner fun x => x.supervisor = .restarting) (hLess : fl.owner < t.hosts.length)
    (hFits : stage.Fits t)
    (hOff : t.activated = false → t.handle = none ∧ (GivenUp t ∨ stage = .disabling)) : Sound t := by
  have hDone : t.starting = .done := hStarting.trans (h.started hFlight)
  constructor
  · intro fl' hFlight'
    rw [hNext] at hFlight'
    cases hFlight'
    exact ⟨hFits, hOwner⟩
  · intro fl' hFlight'
    rw [hNext] at hFlight'
    cases hFlight'
    exact hLess
  · rw [hDone]
    exact trivial
  · exact fun hEarly => absurd hDone hEarly
  · intro hNone
    rw [hNext] at hNone
    cases hNone
  · intro _ hInactive
    obtain ⟨hHandle, hGiven | hDisabling⟩ := hOff hInactive
    · exact ⟨hHandle, .inl hGiven⟩
    · exact ⟨hHandle, .inr (by rw [hNext, hDisabling]; rfl)⟩

theorem dropHandle_frame : s.dropHandle.handle = none ∧ s.dropHandle.activated = s.activated ∧
    s.dropHandle.starting = s.starting ∧ s.dropHandle.hosts.length = s.hosts.length := by
  unfold ExtensionRuntime.dropHandle
  split
  · exact ⟨rfl, rfl, rfl, edit_length⟩
  · rename_i hNone
    exact ⟨hNone, rfl, rfl, rfl⟩

theorem At.dropHandle (h : At s k p) (hStopped : ∀ x, p x → p x.shutdown) : At s.dropHandle k p := by
  unfold ExtensionRuntime.dropHandle
  split
  · exact h.edit fun _ x _ => hStopped x
  · exact h

theorem outcome_true (h : s.outcome k = some true) : At s k fun x => x.reply = some true := by
  intro x hAt
  unfold ExtensionRuntime.outcome at h
  rw [hAt, Option.bind_some] at h
  split at h
  · exact h
  · split at h
    · cases h
    · cases h

theorem Sound.release (h : Sound s) {owner : Nat} (hFlight : s.flight = some ⟨owner, .releasing⟩) :
    Sound { s.edit owner .wait with flight := none } := by
  obtain ⟨hFits, hOwner⟩ := h.flight _ hFlight
  have hDone := h.started hFlight
  constructor
  · exact fun _ hNone => nomatch hNone
  · exact fun _ hNone => nomatch hNone
  · show s.starting.Fits _
    rw [hDone]
    exact trivial
  · exact fun hEarly => absurd hDone hEarly
  · intro _ hActive
    obtain ⟨k, hCurrent, hCovered⟩ := hFits hActive
    refine ⟨k, hCurrent.edit, hCovered.edit fun hSame x hAt hAlerts hCrashed => ?_⟩
    rcases hAlerts hCrashed with hSome | hEntering
    · exact .inl hSome
    · rw [hOwner x hAt] at hEntering
      cases hEntering
  · intro _ hInactive
    obtain ⟨hHandle, hGiven | hDisabling⟩ := h.off hDone hInactive
    · exact ⟨hHandle, .inl hGiven⟩
    · rw [hFlight] at hDisabling
      cases hDisabling

theorem Sound.advance (h : Sound s) (maxRestarts : Nat) (spawned : Bool) :
    Sound (s.advance maxRestarts spawned) := by
  unfold ExtensionRuntime.advance
  split
  · rename_i fl hFlight
    obtain ⟨owner, stage⟩ := fl
    obtain ⟨hFits, hOwner⟩ := h.flight _ hFlight
    have hLess := h.owned _ hFlight
    have hOff : stage ≠ .disabling → s.activated = false → s.handle = none ∧ GivenUp s := by
      intro hStage hInactive
      obtain ⟨hHandle, hGiven | hDisabling⟩ := h.off (h.started hFlight) hInactive
      · exact ⟨hHandle, hGiven⟩
      · rw [hFlight] at hDisabling
        exact absurd (Option.some.inj hDisabling) hStage
    have hActive {P : Prop} (hTrue : s.activated = true) (hFalse : s.activated = false) : P :=
      nomatch hTrue.symm.trans hFalse
    show Sound (s.advanceFlight maxRestarts spawned owner stage)
    cases stage with
    | counting =>
      have hNext : ∀ stage', stage' = .deactivating ∨ stage' = .backingOff →
          Sound ({ s with restartCount := s.restartCount + 1 }.goto owner stage') := by
        intro stage' hStage
        refine h.goto hFlight rfl rfl hOwner hLess ?_ fun hInactive => ?_
        · rcases hStage with rfl | rfl
          · exact trivial
          · exact hFits
        · obtain ⟨hHandle, hGiven⟩ := hOff (by rintro ⟨⟩) hInactive
          exact ⟨hHandle, .inl hGiven⟩
      refine hNext _ ?_
      split
      · exact .inl rfl
      · exact .inr rfl
    | backingOff =>
      have hNext : ∀ stage', (stage' : Stage).Fits s → Sound (s.goto owner stage') := by
        intro stage' hStage
        refine h.goto hFlight rfl rfl hOwner hLess hStage fun hInactive => ?_
        obtain ⟨hHandle, hGiven⟩ := hOff (by rintro ⟨⟩) hInactive
        exact ⟨hHandle, .inl hGiven⟩
      show Sound (s.goto owner (if s.activated = true then .tearingDown else .releasing))
      by_cases hTrue : s.activated = true
      · rw [if_pos hTrue]
        exact hNext _ ⟨hTrue, hFits.2⟩
      · rw [if_neg hTrue]
        exact hNext _ fun h => absurd h hTrue
    | tearingDown =>
      obtain ⟨-, hSame, hStarting, hLength⟩ := dropHandle_frame (s := s)
      refine h.goto hFlight rfl hStarting (hOwner.dropHandle fun _ => id)
        (Nat.lt_of_lt_of_eq hLess hLength.symm) (hSame.trans hFits.1) fun hInactive => ?_
      exact hActive hFits.1 (hSame.symm.trans hInactive)
    | spawning =>
      cases spawned with
      | true =>
        show Sound (s.spawn.goto owner (.inserting s.hosts.length))
        have hLength : s.spawn.hosts.length = s.hosts.length + 1 := by
          show (s.hosts ++ [_]).length = _
          rw [List.length_append]
          rfl
        refine h.goto hFlight rfl rfl (hOwner.append rfl hLess) ?_ ⟨hFits, hLength.symm, fun x hAt => ?_⟩
          fun hInactive => hActive hFits hInactive
        · show owner < s.spawn.hosts.length
          rw [hLength]
          exact Nat.lt_succ_of_lt hLess
        · have hAt : (s.hosts ++ [.spawned])[s.hosts.length]? = some x := hAt
          rw [List.getElem?_concat_length] at hAt
          cases hAt
          rfl
      | false => exact h.goto hFlight rfl rfl hOwner hLess trivial fun hInactive => hActive hFits hInactive
    | inserting k =>
      refine h.goto hFlight rfl rfl hOwner hLess ⟨hFits.1, ⟨hFits.2.1, rfl⟩, fun x hAt hReply => ?_⟩
        fun hInactive => hActive hFits.1 hInactive
      rw [hFits.2.2 x hAt] at hReply
      cases hReply
    | awaiting k =>
      cases hOutcome : s.outcome k with
      | none =>
        have hSame : s.advanceFlight maxRestarts spawned owner (.awaiting k) = s := by
          simp only [ExtensionRuntime.advanceFlight, hOutcome]
        rw [hSame]
        exact h
      | some ok =>
        have hNext : s.advanceFlight maxRestarts spawned owner (.awaiting k) =
            s.goto owner (if ok then .releasing else .deactivating) := by
          simp only [ExtensionRuntime.advanceFlight, hOutcome]
        rw [hNext]
        refine h.goto hFlight rfl rfl hOwner hLess ?_ fun hInactive => hActive hFits.1 hInactive
        cases ok with
        | true =>
          have hReply := outcome_true hOutcome
          exact fun _ => ⟨k, hFits.2.1, fun x hAt => hFits.2.2 x hAt (hReply x hAt)⟩
        | false => exact trivial
    | deactivating =>
      show Sound (s.deactivate.goto owner .disabling)
      unfold ExtensionRuntime.deactivate
      split
      · obtain ⟨hHandle, -, hStarting, hLength⟩ := dropHandle_frame (s := s)
        exact h.goto hFlight rfl hStarting (hOwner.dropHandle fun _ => id)
          (Nat.lt_of_lt_of_eq hLess hLength.symm) rfl fun _ => ⟨hHandle, .inr rfl⟩
      · rename_i hInactive
        have hInactive := Bool.eq_false_iff.mpr hInactive
        exact h.goto hFlight rfl rfl hOwner hLess hInactive fun _ =>
          ⟨(hOff (by rintro ⟨⟩) hInactive).1, .inr rfl⟩
    | disabling =>
      exact h.goto hFlight rfl rfl hOwner hLess ⟨hFits, rfl, rfl⟩ fun hInactive =>
        ⟨(h.off (h.started hFlight) hInactive).1, .inl ⟨hFits, rfl, rfl⟩⟩
    | clearing =>
      exact h.goto hFlight rfl rfl hOwner hLess (fun hTrue => hActive hTrue hFits.1) fun hInactive =>
        ⟨(hOff (by rintro ⟨⟩) hInactive).1, .inl hFits⟩
    | releasing => exact h.release hFlight
  · exact h

theorem Sound.begin (h : Sound s) (hEarly : s.starting ≠ .done) (hActivated : t.activated = s.activated)
    (hFlight : t.flight = s.flight) (hDone : t.starting ≠ .done) (hFits : t.starting.Fits t)
    (hIdle : ∀ x ∈ t.hosts, x.supervisor = .idle) : Sound t := by
  obtain ⟨hInactive, hNone, -⟩ := h.early hEarly
  constructor
  · intro fl hSome
    rw [hFlight, hNone] at hSome
    cases hSome
  · intro fl hSome
    rw [hFlight, hNone] at hSome
    cases hSome
  · exact hFits
  · exact fun _ => ⟨hActivated.trans hInactive, hFlight.trans hNone, hIdle⟩
  · intro _ hActive
    rw [hActivated, hInactive] at hActive
    cases hActive
  · exact fun hEnd => absurd hEnd hDone

theorem Sound.start (h : Sound s) (spawned : Bool) : Sound (s.start spawned) := by
  have hStarts := h.starts
  have hIdle : s.starting ≠ .done → ∀ x ∈ s.hosts, x.supervisor = .idle := fun hEarly => (h.early hEarly).2.2
  cases hStarting : s.starting with
  | spawning =>
    have hEarly : s.starting ≠ .done := by rw [hStarting]; rintro ⟨⟩
    rw [hStarting] at hStarts
    have hNil : s.hosts = [] := hStarts
    cases spawned with
    | true =>
      have hStart : s.start true = { s.spawn with starting := .inserting s.hosts.length } := by
        simp only [ExtensionRuntime.start, hStarting, if_true]
      rw [hStart]
      have hHosts : s.spawn.hosts = [.spawned] := by
        show s.hosts ++ [_] = _
        rw [hNil]
        rfl
      refine h.begin hEarly rfl rfl (by rintro ⟨⟩) ⟨?_, fun x hAt => ?_⟩ fun x hx => ?_
      · show _ = s.spawn.hosts.length
        rw [hHosts, hNil]
        rfl
      · have hAt : s.spawn.hosts[s.hosts.length]? = some x := hAt
        rw [hHosts, hNil] at hAt
        cases hAt
        rfl
      · have hx : x ∈ s.spawn.hosts := hx
        rw [hHosts] at hx
        rw [List.mem_singleton.mp hx]
        rfl
    | false =>
      have hStart : s.start false = { s with starting := .rollingBack } := by
        simp only [ExtensionRuntime.start, hStarting, if_false, Bool.false_eq_true]
      rw [hStart]
      exact h.begin hEarly rfl rfl (by rintro ⟨⟩) trivial (hIdle hEarly)
  | inserting k =>
    have hEarly : s.starting ≠ .done := by rw [hStarting]; rintro ⟨⟩
    rw [hStarting] at hStarts
    have hStart : s.start spawned = { s with handle := some k, starting := .awaiting k } := by
      simp only [ExtensionRuntime.start, hStarting]
    rw [hStart]
    refine h.begin hEarly rfl rfl (by rintro ⟨⟩) ⟨⟨hStarts.1, rfl⟩, fun x hAt hReply => ?_⟩
      (hIdle hEarly)
    rw [hStarts.2 x hAt] at hReply
    cases hReply
  | awaiting k =>
    have hEarly : s.starting ≠ .done := by rw [hStarting]; rintro ⟨⟩
    rw [hStarting] at hStarts
    cases hOutcome : s.outcome k with
    | none =>
      have hStart : s.start spawned = s := by
        simp only [ExtensionRuntime.start, hStarting, hOutcome]
      rw [hStart]
      exact h
    | some ok =>
      have hStart : s.start spawned = { s with starting := if ok then .marking else .rollingBack } := by
        simp only [ExtensionRuntime.start, hStarting, hOutcome]
      rw [hStart]
      cases ok with
      | true =>
        have hReply := outcome_true hOutcome
        exact h.begin hEarly rfl rfl (by rintro ⟨⟩)
          ⟨k, hStarts.1, fun x hAt => hStarts.2 x hAt (hReply x hAt)⟩ (hIdle hEarly)
      | false => exact h.begin hEarly rfl rfl (by rintro ⟨⟩) trivial (hIdle hEarly)
  | marking =>
    have hEarly : s.starting ≠ .done := by rw [hStarting]; rintro ⟨⟩
    rw [hStarting] at hStarts
    have hNone := (h.early hEarly).2.1
    have hStart : s.start spawned = { s with activated := true, starting := .done } := by
      simp only [ExtensionRuntime.start, hStarting]
    rw [hStart]
    constructor
    · exact fun fl hSome => nomatch hNone.symm.trans hSome
    · exact fun fl hSome => nomatch hNone.symm.trans hSome
    · exact trivial
    · exact fun hNot => absurd rfl hNot
    · intro _ _
      obtain ⟨k, hCurrent, hQueued⟩ := hStarts
      exact ⟨k, hCurrent, fun x hAt hCrashed => .inl (hQueued x hAt hCrashed)⟩
    · exact fun _ hInactive => nomatch hInactive
  | rollingBack =>
    have hEarly : s.starting ≠ .done := by rw [hStarting]; rintro ⟨⟩
    have hStart : s.start spawned = { s.dropHandle with starting := .failed } := by
      simp only [ExtensionRuntime.start, hStarting]
    rw [hStart]
    have hFlight : s.dropHandle.flight = s.flight := by
      unfold ExtensionRuntime.dropHandle
      split <;> rfl
    refine h.begin hEarly dropHandle_frame.2.1 hFlight (by rintro ⟨⟩) trivial fun x hx => ?_
    obtain ⟨k, hAt⟩ := List.mem_iff_getElem?.mp hx
    have hAll : At s k fun x => x.supervisor = .idle :=
      fun y hy => hIdle hEarly y (List.mem_of_getElem? hy)
    exact hAll.dropHandle (fun _ => id) x hAt
  | failed | done =>
    have hStart : s.start spawned = s := by
      simp only [ExtensionRuntime.start, hStarting]
    rw [hStart]
    exact h

theorem Sound.next (h : Sound s) (maxRestarts : Nat) {e : Event} (hMeets : Meets s e) :
    Sound (step maxRestarts s e) := by
  cases e with
  | crash i => exact h.edit gentle_crash
  | hang i => exact h.edit gentle_hang
  | answer i ok =>
    show Sound (if s.Asked i then s.edit i (·.answer ok) else s)
    split
    · rename_i hAsked
      exact h.edit (gentle_answer hAsked)
    · exact h
  | receive i => exact h.edit (h.gentle_receive hMeets)
  | enter i => exact h.enter hMeets
  | advance spawned => exact h.advance maxRestarts spawned
  | start spawned => exact h.start spawned

theorem Sound.kept (h : Sound s) : Kept s where
  recovers hDone hQuiet := by
    have hNone : s.flight = none := by
      by_contra hSome
      obtain ⟨fl, hFlight⟩ := Option.ne_none_iff_exists'.mp hSome
      have hOwned := h.owned fl hFlight
      have hAt := List.getElem?_eq_getElem hOwned
      have hRestarting : s.hosts[fl.owner].supervisor = .restarting := (h.flight fl hFlight).2 _ hAt
      rw [(hQuiet _ (List.mem_of_getElem? hAt)).1] at hRestarting
      cases hRestarting
    cases hActive : s.activated with
    | true =>
      obtain ⟨k, hCurrent, hCovered⟩ := h.steady hNone hActive
      refine .inl ⟨rfl, k, hCurrent, fun x hAt => Bool.eq_false_iff.mpr fun hCrashed => ?_⟩
      obtain ⟨hIdle, hEmpty⟩ := hQuiet x (List.mem_of_getElem? hAt)
      rcases hCovered x hAt hCrashed with hSome | hEntering
      · rw [hEmpty] at hSome
        exact Nat.lt_irrefl 0 hSome
      · rw [hIdle] at hEntering
        cases hEntering
    | false =>
      obtain ⟨-, hGiven | hDisabling⟩ := h.off hDone hActive
      · exact .inr hGiven
      · rw [hNone] at hDisabling
        cases hDisabling
  spares fl hFlight hStage k hHandle := by
    have hFits := (h.flight fl hFlight).1
    obtain ⟨owner, stage⟩ := fl
    rcases hStage with hStage | hStage | hStage
    all_goals
      obtain rfl : stage = _ := hStage
      exact hFits.2 k hHandle

/-- In every run whose steps meet the condition every crash is recovered from, and no restart takes a
healthy host away. -/
theorem crashes_covered (maxRestarts : Nat) (es : List Event)
    (hMeets : History.Each (step maxRestarts) Meets .new es) :
    History.Each (step maxRestarts) (fun s e => Kept (step maxRestarts s e)) .new es :=
  History.each_of_invariant (I := Sound)
    (fun _ _ h hMeets => ⟨h.next maxRestarts hMeets, (h.next maxRestarts hMeets).kept⟩) hMeets sound_new

/-- A host crashes, and another takes its place. -/
theorem crashes_covered_once :
    History.Each (step 3) (fun s e => Kept (step 3 s e)) .new
      [.start true, .start true, .answer 0 true, .start true, .start true, .crash 0, .receive 0, .enter 0,
        .advance true, .advance true, .advance true, .advance true, .advance true, .answer 1 true,
        .advance true, .advance true] := by
  refine crashes_covered 3 _ ⟨trivial, trivial, trivial, trivial, trivial, trivial, (fun h => nomatch h),
    fun x hAt _ => ⟨fun _ k hHandle y hOwn => ?_, (fun f hSome => nomatch hSome)⟩, trivial, trivial,
    trivial, trivial, trivial, trivial, trivial, trivial, trivial⟩
  cases hHandle
  cases hOwn
  exact .inl rfl

/-- The supervisor takes the signal of a host that has answered before the extension is marked. -/
theorem signal_discarded :
    ¬History.Each (step 3) (fun s e => Kept (step 3 s e)) .new
      [.start true, .start true, .answer 0 true, .crash 0, .receive 0, .start true, .start true] := by
  rintro ⟨-, -, -, -, -, -, hKept, -⟩
  rcases hKept.recovers rfl (by decide) with ⟨-, k, hCurrent, hRuns⟩ | ⟨hOff, -⟩
  · obtain rfl : k = 0 := Option.some.inj hCurrent.2.symm
    exact absurd (hRuns _ rfl) (by decide)
  · exact absurd hOff (by decide)

end Cronymax.Extensions.Supervisors
