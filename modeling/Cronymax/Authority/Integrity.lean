import Cronymax.Authority.Documents
import Cronymax.Authority.Links
import Cronymax.Authority.Writes

/-! Whether the links of a snapshot lead anywhere, and back.  A run that is started for a session that is
not there keeps the link to it, and a run that is attached to a session does not learn of it; nothing
else breaks a link, a restart included. -/

namespace Cronymax.Authority

open Atomic

/-- Every run is in a space that is there, and is listed once by its session if it has one; a session lists
its own runs; and every review is of a run that is there. -/
structure Snapshot.Integrity (s : Snapshot) : Prop where
  space : ∀ r run, s.run? r = some run → s.hasSpace run.spaceId
  session : ∀ r run sid, s.run? r = some run → run.sessionId = some sid →
    s.hasSession sid ∧ (s.runIdsOf sid).count r = 1
  listed : ∀ sid r, r ∈ s.runIdsOf sid → ∃ run, s.run? r = some run ∧ run.sessionId = some sid
  review : ∀ id review, s.reviews.lookup id = some review → (s.run? review.runId).isSome

/-- A section, or the death of the process and what is loaded after it. -/
inductive Step where
  | locked (x : Section)
  | restart (faults : List (Option PersistenceError)) (clock : List Int)

namespace Step

/-- A process that cannot start is started again. -/
def apply (w : RuntimeAuthority) : Step → RuntimeAuthority
  | .locked x => x.apply w
  | .restart faults clock =>
    match rehydrate (.ok w.saved.stored) faults clock with
    | .ok w' => w'
    | .error _ => w

/-- The id of a new run is in no use. -/
def DrawsFresh (w : RuntimeAuthority) : Step → Prop
  | .locked (.operation (.startRunWithSession _ _ _ _ drawn)) => w.run? drawn = none
  | _ => True

/-- The session of a new run, and both ends of a link, are there. -/
def LinksKnown (w : RuntimeAuthority) : Step → Prop
  | .locked (.operation (.startRunWithSession spaceId agentId _ sessionId _)) =>
    w.accepts spaceId agentId → ∀ sid ∈ sessionId, w.inner.snapshot.hasSession sid
  | .locked (.operation (.attachRunToSession sid r)) =>
    w.inner.snapshot.hasSession sid → r ∈ w.inner.snapshot.runIdsOf sid
  | _ => True

end Step

namespace Snapshot.Integrity

variable {s s' : Snapshot}

theorem empty : Snapshot.empty.Integrity where
  space _ _ h := by cases h
  session _ _ _ h := by cases h
  listed _ _ h := by cases h
  review _ _ h := by cases h

theorem links_of_keeps (h : KeepsLinks s s') {r : RunId} {run' : Run} (hRun : s'.run? r = some run') :
    ∃ run, s.run? r = some run ∧ run.links = run'.links := by
  have hLinks := h.runs r
  rw [hRun, Option.map_some] at hLinks
  exact Option.map_eq_some_iff.mp hLinks.symm

theorem keeps (hIn : s.Integrity) (h : KeepsLinks s s') : s'.Integrity where
  space r run' hRun' := by
    obtain ⟨run, hRun, hLinks⟩ := links_of_keeps h hRun'
    have hSpace : run.spaceId = run'.spaceId := congrArg Prod.fst hLinks
    exact h.spaces _ (hSpace ▸ hIn.space r run hRun)
  session r run' sid hRun' hSid := by
    obtain ⟨run, hRun, hLinks⟩ := links_of_keeps h hRun'
    have hSession : run.sessionId = run'.sessionId := congrArg Prod.snd hLinks
    obtain ⟨hThere, hCount⟩ := hIn.session r run sid hRun (hSession.trans hSid)
    exact ⟨h.sessions sid hThere, by rw [h.runIds, hCount]⟩
  listed sid r hListed := by
    rw [h.runIds] at hListed
    obtain ⟨run, hRun, hSid⟩ := hIn.listed sid r hListed
    have hLinks := h.runs r
    rw [hRun, Option.map_some] at hLinks
    obtain ⟨run', hRun', hSame⟩ := Option.map_eq_some_iff.mp hLinks
    exact ⟨run', hRun', (congrArg Prod.snd hSame).trans hSid⟩
  review id review hReview := by
    rw [h.run_isSome]
    obtain hRun | ⟨review', hReview', hSame⟩ := h.reviews id review hReview
    · exact hRun
    · exact hSame ▸ hIn.review id review' hReview'

theorem stored (h : s.Integrity) : s.stored.Integrity := ⟨h.space, h.session, h.listed, h.review⟩

theorem run_recover (s : Snapshot) (now : Int) (r : RunId) :
    ((s.recover now).run? r).map Run.links = (s.run? r).map Run.links := by
  rw [Snapshot.run?, Snapshot.recover, Table.lookup_mapValues, Snapshot.run?]
  cases s.runs.lookup r with
  | none => rfl
  | some run =>
    rw [Option.map_some, Option.map_some, Option.map_some]
    split <;> rfl

theorem recover (h : s.Integrity) (now : Int) : (s.recover now).Integrity :=
  h.keeps {
    version := rfl
    spaces := fun _ hSpace => hSpace
    sessions := fun _ hSession => hSession
    runIds := fun _ => rfl
    runs := run_recover s now
    reviews := fun _ _ hReview => by cases hReview }

end Snapshot.Integrity

section Links

variable {w : RuntimeAuthority} {s : Snapshot} {sid : SessionId} {r : RunId} {now : Int}

theorem hasSession_attachRun (sessionId : Option SessionId) (id : SessionId) :
    ({ s with sessions := attachRun sessionId r now s.sessions } : Snapshot).hasSession id =
      s.hasSession id := by
  cases sessionId with
  | none => rfl
  | some sid =>
    rw [Snapshot.hasSession, attachRun, Table.lookup_modify, Snapshot.hasSession]
    split
    · exact Option.isSome_map
    · rfl

theorem runIdsOf_attachRun (sessionId : Option SessionId) (id : SessionId) :
    ({ s with sessions := attachRun sessionId r now s.sessions } : Snapshot).runIdsOf id =
      if sessionId = some id ∧ s.hasSession id ∧ r ∉ s.runIdsOf id then s.runIdsOf id ++ [r]
      else s.runIdsOf id := by
  cases sessionId with
  | none => rfl
  | some sid =>
    rw [Snapshot.runIdsOf, attachRun, Table.lookup_modify, Snapshot.runIdsOf, Snapshot.hasSession]
    cases hLookup : s.sessions.lookup id with
    | none => simp
    | some session =>
      by_cases hId : id = sid
      · subst id
        by_cases hIn : r ∈ session.runIds <;> simp [Session.attachRun, hIn]
      · simp [hId, Ne.symm hId]

theorem integrity_attach_iff (hIn : s.Integrity) :
    ({ s with sessions := attachRun (some sid) r now s.sessions } : Snapshot).Integrity ↔
      (s.hasSession sid → r ∈ s.runIdsOf sid) := by
  constructor
  · intro hAfter hSession
    by_contra hNot
    have hListed : r ∈ ({ s with sessions := attachRun (some sid) r now s.sessions } :
        Snapshot).runIdsOf sid := by
      rw [runIdsOf_attachRun, if_pos ⟨rfl, hSession, hNot⟩]
      exact List.mem_append_right _ (List.mem_singleton_self r)
    obtain ⟨run, hRun, hSid⟩ := hAfter.listed sid r hListed
    have hCount := (hIn.session r run sid hRun hSid).2
    rw [List.count_eq_zero.mpr hNot] at hCount
    cases hCount
  · intro hKnown
    have hSame : attachRun (some sid) r now s.sessions = s.sessions := by
      rw [attachRun_eq]
      intro sid' hSid session hSession
      cases hSid
      have hListed := hKnown (Option.isSome_of_eq_some hSession)
      rwa [Snapshot.runIdsOf, hSession] at hListed
    rw [hSame]
    exact hIn

/-- The snapshot with the run, listed by its session. -/
def Snapshot.addRun (s : Snapshot) (r : RunId) (run : Run) (now : Int) : Snapshot :=
  { s with sessions := attachRun run.sessionId r now s.sessions }.setRun r run

theorem run_addRun (run : Run) (r' : RunId) :
    (s.addRun r run now).run? r' = if r' = r then some run else s.run? r' :=
  Table.lookup_insert_if ..

theorem integrity_addRun_iff (hIn : s.Integrity) {run : Run} (hFresh : s.run? r = none)
    (hSpace : s.hasSpace run.spaceId) :
    (s.addRun r run now).Integrity ↔ ∀ sid ∈ run.sessionId, s.hasSession sid := by
  have hSession (id : SessionId) : (s.addRun r run now).hasSession id = s.hasSession id :=
    hasSession_attachRun run.sessionId id
  have hUnlisted (id : SessionId) : r ∉ s.runIdsOf id := fun hListed => by
    obtain ⟨run', hRun', -⟩ := hIn.listed id r hListed
    rw [hFresh] at hRun'
    cases hRun'
  have hRunIds (id : SessionId) : (s.addRun r run now).runIdsOf id =
      if run.sessionId = some id ∧ s.hasSession id ∧ r ∉ s.runIdsOf id then s.runIdsOf id ++ [r]
      else s.runIdsOf id := runIdsOf_attachRun run.sessionId id
  constructor
  · intro hAfter sid hSid
    have hNew : (s.addRun r run now).run? r = some run := by rw [run_addRun, if_pos rfl]
    rw [← hSession]
    exact (hAfter.session r run sid hNew hSid).1
  · intro hThere
    refine ⟨fun r' run' hRun' => ?_, fun r' run' sid hRun' hSid => ?_, fun sid r' hListed => ?_,
      fun id review hReview => ?_⟩
    · rw [run_addRun] at hRun'
      split at hRun'
      · cases hRun'
        exact hSpace
      · exact hIn.space r' run' hRun'
    · rw [run_addRun] at hRun'
      rw [hSession, hRunIds]
      split at hRun'
      · -- the new run, which its session lists for the first time
        subst r'
        cases hRun'
        have hCount := List.count_eq_zero.mpr (hUnlisted sid)
        refine ⟨hThere sid hSid, ?_⟩
        rw [if_pos ⟨hSid, hThere sid hSid, hUnlisted sid⟩, List.count_append, hCount,
          List.count_singleton_self]
      · rename_i hOld
        obtain ⟨hSid', hCount⟩ := hIn.session r' run' sid hRun' hSid
        refine ⟨hSid', ?_⟩
        split
        · rw [List.count_append, hCount, List.count_singleton, if_neg (by simpa using Ne.symm hOld)]
        · exact hCount
    · rw [hRunIds] at hListed
      rw [run_addRun]
      have hOldRun (hOld : r' ∈ s.runIdsOf sid) : ∃ run',
          (if r' = r then some run else s.run? r') = some run' ∧ run'.sessionId = some sid := by
        obtain ⟨run', hRun', hSid⟩ := hIn.listed sid r' hOld
        have hNe : r' ≠ r := fun hSame => hUnlisted sid (hSame ▸ hOld)
        exact ⟨run', by rw [if_neg hNe, hRun'], hSid⟩
      split at hListed
      · rename_i hNew
        obtain hOld | hSelf := List.mem_append.mp hListed
        · exact hOldRun hOld
        · rw [List.mem_singleton.mp hSelf, if_pos rfl]
          exact ⟨run, rfl, hNew.1⟩
      · exact hOldRun hListed
    · rw [run_addRun]
      split
      · rfl
      · exact hIn.review id review hReview

end Links

section Steps

variable {w : RuntimeAuthority}

theorem startRun_snapshot (spaceId : SpaceId) (agentId : Option AgentId) (spec : Value)
    (sessionId : Option SessionId) (drawn : RunId) (before : Snapshot) :
    (w.startRunWithSession spaceId agentId spec sessionId drawn).snapshot before =
      if w.accepts spaceId agentId then
        w.inner.snapshot.addRun drawn (.new drawn spaceId agentId sessionId spec w.now) w.now
      else before := by
  unfold RuntimeAuthority.startRunWithSession RuntimeAuthority.accepts
  dsimp only
  cases w.inner.snapshot.spaces.lookup spaceId with
  | none => rfl
  | some space =>
    simp only [Option.isSome_some, Bool.true_and]
    split
    · rename_i hUnknown
      rw [hUnknown]
      rfl
    · rename_i hKnown
      rw [eq_false_of_ne_true hKnown]
      rfl

theorem integrity_locked_iff (hIn : w.inner.snapshot.Integrity) {x : Section}
    (hFresh : (Step.locked x).DrawsFresh w) :
    (x.apply w).inner.snapshot.Integrity ↔ (Step.locked x).LinksKnown w := by
  rw [Section.snapshot_apply]
  cases hLinks : x.links with
  | false =>
    refine iff_of_true (hIn.keeps (Section.decide_keeps hLinks)) ?_
    cases x with
    | operation o =>
      cases o with
      | startRunWithSession | attachRunToSession => cases hLinks
      | _ => trivial
    | _ => trivial
  | true =>
    cases x with
    | operation o =>
      cases o with
      | startRunWithSession spaceId agentId spec sessionId drawn =>
        rw [Section.decide, Operation.decide, startRun_snapshot]
        by_cases hAccepts : w.accepts spaceId agentId = true
        · rw [if_pos hAccepts]
          have hSpace : w.inner.snapshot.hasSpace spaceId := by
            have hBoth := hAccepts
            rw [RuntimeAuthority.accepts, Bool.and_eq_true] at hBoth
            exact hBoth.1
          exact (integrity_addRun_iff hIn hFresh hSpace).trans
            ⟨fun h _ => h, fun h => h hAccepts⟩
        · rw [if_neg hAccepts]
          exact iff_of_true hIn fun h => absurd h hAccepts
      | attachRunToSession sid r => exact integrity_attach_iff hIn
      | _ => cases hLinks
    | _ => cases hLinks

/-- What the process holds and what it would start with again. -/
def Sound (w : RuntimeAuthority) : Prop := w.inner.snapshot.Integrity ∧ w.saved.Integrity

theorem saved_of_decision (hSaved : w.saved.Integrity) {x : Section}
    (hAfter : (x.apply w).inner.snapshot.Integrity) : (x.apply w).saved.Integrity := by
  rw [saved_apply]
  rw [Section.snapshot_apply] at hAfter
  cases hDecide : x.decide w with
  | refuse e | abort e snapshot => exact hSaved
  | commit c =>
    rw [hDecide] at hAfter
    dsimp only [RuntimeAuthority.savedAfter]
    split
    · exact hSaved
    · exact hAfter

theorem restart_sound (hSound : Sound w) (faults : List (Option PersistenceError)) (clock : List Int) :
    Sound (Step.apply w (.restart faults clock)) := by
  have hStored := hSound.2.stored
  have hRecovered := hStored.recover (clock.headD 0)
  simp only [Step.apply, rehydrate]
  split
  · rename_i w' hStart
    split at hStart
    · split at hStart
      · cases hStart
      · cases hStart
        exact ⟨hRecovered, hRecovered⟩
    · cases hStart
      exact ⟨hRecovered, hStored⟩
  · exact hSound

theorem integrity_step_iff (hSound : Sound w) {e : Step} (hFresh : e.DrawsFresh w) :
    (e.apply w).inner.snapshot.Integrity ↔ e.LinksKnown w := by
  cases e with
  | locked x => exact integrity_locked_iff hSound.1 hFresh
  | restart faults clock => exact iff_of_true (restart_sound hSound faults clock).1 trivial

theorem sound_step (hSound : Sound w) {e : Step} (hAfter : (e.apply w).inner.snapshot.Integrity) :
    Sound (e.apply w) := by
  cases e with
  | locked x => exact ⟨hAfter, saved_of_decision hSound.2 hAfter⟩
  | restart faults clock => exact restart_sound hSound faults clock

end Steps

/-- In the life of an authority that starts empty, with any sections, failing saves, and restarts, every
state has its links intact exactly when every step knows the links that it makes. -/
theorem integrity_iff (faults : List (Option PersistenceError)) (clock : List Int) (steps : List Step)
    (hFresh : History.Each Step.apply (fun w e => e.DrawsFresh w) (.start .empty .empty faults clock)
      steps) :
    History.Each Step.apply (fun w e => (e.apply w).inner.snapshot.Integrity)
        (.start .empty .empty faults clock) steps ↔
      History.Each Step.apply (fun w e => e.LinksKnown w) (.start .empty .empty faults clock)
        steps := by
  have hSound : Sound (.start .empty .empty faults clock) := ⟨.empty, .empty⟩
  have hBoth := @History.each_congr _ _ Step.apply
    (fun w e => e.DrawsFresh w ∧ (e.apply w).inner.snapshot.Integrity) _
    (fun w e => e.DrawsFresh w ∧ e.LinksKnown w) Sound hSound
    (fun _ _ hSound hStep => sound_step hSound hStep.2)
    (fun _ _ hSound => and_congr_right fun hFresh => integrity_step_iff hSound hFresh) steps
  rw [History.each_and, History.each_and] at hBoth
  exact ⟨fun h => (hBoth.mp ⟨hFresh, h⟩).2, fun h => (hBoth.mpr ⟨hFresh, h⟩).2⟩

def chat : SessionId := ⟨"chat"⟩

def addHome : Step := .locked (.operation (.upsertSpace ⟨home, "home", 80, 6⟩))

def openChat : Step := .locked (.operation (.getOrCreateSession chat home none))

def startCoder : Step := .locked (.operation (.startRunWithSession home none .null (some chat) coder))

/-- A session that is made before the run that joins it. -/
theorem chat_links_intact :
    History.Each Step.apply (fun w e => (e.apply w).inner.snapshot.Integrity)
      (.start .empty .empty [] []) [addHome, openChat, startCoder] :=
  (integrity_iff [] [] [addHome, openChat, startCoder] ⟨trivial, trivial, rfl, trivial⟩).mpr
    ⟨trivial, trivial, fun _ _ hSid => by cases hSid; rfl, trivial⟩

/-- The session is asked for before its space is there, and the run is started for it nonetheless. -/
theorem coder_link_dangles :
    ¬(History.play Step.apply (.start .empty .empty [] [])
      [openChat, addHome, startCoder]).inner.snapshot.Integrity := by
  intro hIntegrity
  have hRun : ∃ run, (History.play Step.apply (.start .empty .empty [] [])
      [openChat, addHome, startCoder]).inner.snapshot.run? coder = some run ∧
      run.sessionId = some chat := ⟨_, rfl, rfl⟩
  obtain ⟨run, hThere, hSid⟩ := hRun
  have hSession := (hIntegrity.session coder run chat hThere hSid).1
  have hMissing : (History.play Step.apply (.start .empty .empty [] [])
      [openChat, addHome, startCoder]).inner.snapshot.hasSession chat = false := rfl
  rw [hMissing] at hSession
  cases hSession

end Cronymax.Authority
