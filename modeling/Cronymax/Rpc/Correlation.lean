import Cronymax.Rpc.Requests

/-! The requests of a connection are correlated with their responses in every run whose steps are
`Ordered`.  `Sound` is the invariant: where the outcome of each call is, and that `pending` holds
senders of calls that are still in their way.  It has one lemma for each step that `Takes` lists. -/

namespace Cronymax.Rpc

open Atomic

namespace Connection

variable {conn : Connection} {i j : Nat} {m m' : UInt32}

theorem channels_send_empty (conn : Connection) (o : ResponseResult) (h : conn.channels i = .empty) :
    (conn.send i o).channels i = .sent o := by
  simp [send, h, setChannel]

theorem send_taken (o : ResponseResult) (h : conn.channels i ≠ .empty) : conn.send i o = conn := by
  unfold send
  split
  · exact absurd (by assumption) h
  · rfl

theorem channels_send_ne (o : ResponseResult) (h : j ≠ i) :
    (conn.send i o).channels j = conn.channels j := by
  unfold send
  split
  · exact if_neg h
  · rfl

@[simp] theorem pending_send (o : ResponseResult) : (conn.send i o).pending = conn.pending := by
  unfold send
  split <;> rfl

theorem channels_dropSender_ne (h : j ≠ i) : (conn.dropSender i).channels j = conn.channels j := by
  unfold dropSender
  split
  · exact if_neg h
  · rfl

theorem insertPending_new (h : conn.pending.lookup m = none) :
    conn.insertPending m i = { conn with pending := conn.pending.insert m i } := by
  rw [insertPending, h]

theorem lookup_removePending :
    (conn.removePending m).pending.lookup m' = if m' = m then none else conn.pending.lookup m' := by
  show (conn.pending.erase m).lookup m' = _
  split
  · subst m'
    exact AList.lookup_erase ..
  · rename_i h
    exact AList.lookup_erase_ne h

theorem channels_removePending (h : ∀ k, conn.pending.lookup m = some k → k = i) (hj : j ≠ i) :
    (conn.removePending m).channels j = conn.channels j := by
  unfold removePending
  cases hOld : conn.pending.lookup m with
  | none => rfl
  | some k =>
    rw [h k hOld]
    exact channels_dropSender_ne hj

theorem mem_senders : i ∈ conn.pending.entries.map (·.2) ↔ ∃ m, conn.pending.lookup m = some i := by
  simp only [List.mem_map, ← Option.mem_def, AList.mem_lookup_iff]
  constructor
  · rintro ⟨⟨m, _⟩, hMem, rfl⟩
    exact ⟨m, hMem⟩
  · rintro ⟨m, hMem⟩
    exact ⟨⟨m, i⟩, hMem, rfl⟩

theorem dispatch_response_some (error result : Value) (h : conn.pending.lookup m = some i)
    (hEmpty : conn.channels i = .empty) :
    (conn.dispatch (.response m error result)).pending = conn.pending.erase m ∧
      (conn.dispatch (.response m error result)).channels i = .sent (responseResult error result) ∧
      ∀ j, j ≠ i → (conn.dispatch (.response m error result)).channels j = conn.channels j := by
  simp only [dispatch, h]
  exact ⟨pending_send _, channels_send_empty { conn with pending := _ } _ hEmpty,
    fun j hj => channels_send_ne _ hj⟩

theorem dispatch_response_none {error result : Value} (h : conn.pending.lookup m = none) :
    conn.dispatch (.response m error result) = conn := by
  simp only [dispatch, h]

theorem dispatch_notify (conn : Connection) (method : String) (params : Value) :
    (conn.dispatch (.notify method params)).pending = conn.pending ∧
      (conn.dispatch (.notify method params)).channels = conn.channels := by
  dsimp only [dispatch]
  split
  · split <;> exact ⟨rfl, rfl⟩
  · split <;> exact ⟨rfl, rfl⟩

end Connection

/-- Where the outcome of a call is, given its channel and what `pending` lists under its msgid. -/
structure Fits (channel : Channel) (listed : Option Nat) (readLoop : ReadLoop) (i : Nat) (c : Call) :
    Prop where
  fresh : c.phase = .allocated → channel = .empty
  kept : c.phase.open → channel ≠ .dropped
  awaited : c.phase = .inserted ∨ c.phase = .waiting →
    listed = some i ∨ (∃ o, channel = .sent o) ∨ i ∈ readLoop.drained
  answered : ∀ {o : ResponseResult}, c.first = some o → (c.phase.open → channel = .sent o) ∧
    (∀ e, c.phase ≠ .failed e) ∧ ∀ r, c.phase = .done r → r = answer o
  late : c.phase.open → c.first = none → ∀ o, channel = .sent o →
    readLoop.isRunning = false ∧ ∃ reason, o = .error (.string reason)
  unanswered : c.first = none → ∀ r, c.phase = .done r → (∃ e, r = .error (.write e)) ∨
    readLoop.isRunning = false ∧ ∃ reason, r = .error (.peer (.string reason))

namespace System

/-- A message id is that of one pending call, and channels answer their own. -/
structure Sound (s : System) : Prop where
  distinct : ∀ {i j : Nat} {c d : Call}, s.calls[i]? = some c → s.calls[j]? = some d →
    c.phase.isDone = false → d.phase.isDone = false → c.msgid = d.msgid → i = j
  fits : ∀ {i : Nat} {c : Call}, s.calls[i]? = some c →
    Fits (s.conn.channels i) (s.conn.pending.lookup c.msgid) s.readLoop i c
  beyond : ∀ i, s.calls.length ≤ i → s.conn.channels i = .empty
  entry : ∀ {m : UInt32} {i : Nat}, s.conn.pending.lookup m = some i →
    ∃ c, s.calls[i]? = some c ∧ c.msgid = m ∧ c.phase ≠ .allocated ∧ c.phase.isDone = false ∧
      s.conn.channels i = .empty ∧ (c.phase = .waiting → s.readLoop.isRunning)
  drained : ∀ {i : Nat}, i ∈ s.readLoop.drained → (∀ m, s.conn.pending.lookup m ≠ some i) ∧
    ∃ c, s.calls[i]? = some c ∧ c.first = none ∧ c.phase ≠ .allocated

theorem opened_sound (handlers : RpcServer) : (opened handlers).Sound where
  distinct h := by cases h
  fits h := by cases h
  beyond _ _ := rfl
  entry h := by cases h
  drained h := by cases h

variable {s : System} {i : Nat} {c : Call}

theorem call_setPhase (hCall : s.calls[i]? = some c) (phase : Phase) {j : Nat} {d : Call} :
    (s.setPhase i phase).calls[j]? = some d ↔
      j = i ∧ d = { c with phase } ∨ j ≠ i ∧ s.calls[j]? = some d := by
  show (s.calls.modify i _)[j]? = some d ↔ _
  rw [List.getElem?_modify]
  by_cases h : i = j
  · subst h
    simp [hCall, eq_comm]
  · simp [h, Ne.symm h]

theorem isDone_of_open {phase : Phase} (h : phase.open) : phase.isDone = false := by
  cases phase <;> first | rfl | cases h

theorem Sound.correlated (h : s.Sound) : s.Correlated where
  distinct := h.distinct
  answered hCall hFirst :=
    have hAnswered := (h.fits hCall).answered hFirst
    ⟨hAnswered.1, hAnswered.2.2⟩
  unanswered hCall hFirst hDone := (h.fits hCall).unanswered hFirst _ hDone
  noEntry hEnded m i hEntry := by
    obtain ⟨c, hCall, -, hFresh, hDone, -, hWaiting⟩ := h.entry hEntry
    refine ⟨c, hCall, ?_⟩
    cases hPhase : c.phase with
    | allocated => exact absurd hPhase hFresh
    | inserted => exact .inl rfl
    | failed e => exact .inr ⟨e, rfl⟩
    | waiting =>
      have hRunning := hWaiting hPhase
      rw [hEnded] at hRunning
      cases hRunning
    | done r =>
      rw [hPhase] at hDone
      cases hDone
  noWait hEnded i c hCall hPhase := by
    rcases (h.fits hCall).awaited (.inr hPhase) with hListed | hSent | hDrained
    · obtain ⟨d, hCall', -, -, -, -, hWaiting⟩ := h.entry hListed
      rw [hCall] at hCall'
      cases hCall'
      have hRunning := hWaiting hPhase
      rw [hEnded] at hRunning
      cases hRunning
    · exact hSent
    · rw [hEnded] at hDrained
      cases hDrained

theorem Sound.start (h : s.Sound)
    (hOrdered : ∀ c ∈ s.calls, c.phase.isDone = false → c.msgid ≠ s.conn.nextMsgid) :
    (s.step .start).Sound := by
  have hCalls : ∀ {j : Nat} {d : Call}, (s.step .start).calls[j]? = some d →
      s.calls[j]? = some d ∨ j = s.calls.length ∧ d = ⟨s.conn.nextMsgid, .allocated, none⟩ := by
    intro j d hCall
    have hAppend : (s.calls ++ [⟨s.conn.nextMsgid, .allocated, none⟩])[j]? = some d := hCall
    rw [List.getElem?_append] at hAppend
    split at hAppend
    · exact .inl hAppend
    · rw [List.getElem?_singleton] at hAppend
      split at hAppend
      · cases hAppend
        exact .inr ⟨by omega, rfl⟩
      · cases hAppend
  have hOld : ∀ {j : Nat} {d : Call}, s.calls[j]? = some d →
      (s.step .start).calls[j]? = some d := by
    intro j d hCall
    exact (List.getElem?_append_left (List.getElem?_eq_some_iff.mp hCall).1).trans hCall
  refine ⟨?_, ?_, ?_, ?_, ?_⟩
  · intro i j c d hc hd hcDone hdDone hSame
    rcases hCalls hc with hc | ⟨rfl, rfl⟩ <;> rcases hCalls hd with hd | ⟨rfl, rfl⟩
    · exact h.distinct hc hd hcDone hdDone hSame
    · exact absurd hSame (hOrdered c (List.mem_of_getElem? hc) hcDone)
    · exact absurd hSame.symm (hOrdered d (List.mem_of_getElem? hd) hdDone)
    · rfl
  · intro j d hCall
    rcases hCalls hCall with hCall | ⟨rfl, rfl⟩
    · exact h.fits hCall
    · have hEmpty : s.conn.channels s.calls.length = .empty := h.beyond _ (Nat.le_refl _)
      exact {
        fresh := fun _ => hEmpty
        kept := fun _ hDropped => by
          have hDropped : s.conn.channels s.calls.length = .dropped := hDropped
          rw [hEmpty] at hDropped
          cases hDropped
        awaited := fun hPhase => by rcases hPhase with hPhase | hPhase <;> cases hPhase
        answered := fun hFirst => by cases hFirst
        late := fun _ _ o hSent => by
          have hSent : s.conn.channels s.calls.length = .sent o := hSent
          rw [hEmpty] at hSent
          cases hSent
        unanswered := fun _ r hDone => by cases hDone }
  · intro j hj
    have hLength : (s.calls ++ [(⟨s.conn.nextMsgid, .allocated, none⟩ : Call)]).length ≤ j := hj
    rw [List.length_append] at hLength
    exact h.beyond j (Nat.le_trans (Nat.le_add_right _ _) hLength)
  · intro m j hEntry
    obtain ⟨d, hCall, hRest⟩ := h.entry hEntry
    exact ⟨d, hOld hCall, hRest⟩
  · intro j hDrained
    obtain ⟨hNone, d, hCall, hRest⟩ := h.drained hDrained
    exact ⟨hNone, d, hOld hCall, hRest⟩

theorem outstanding_entry (h : s.Sound) (hCall : s.calls[i]? = some c)
    (hDone : c.phase.isDone = false) {j : Nat} (hEntry : s.conn.pending.lookup c.msgid = some j) :
    j = i := by
  obtain ⟨d, hOther, hSame, -, hOtherDone, -⟩ := h.entry hEntry
  exact h.distinct hOther hCall hOtherDone hDone hSame

theorem Sound.distinct_setPhase (h : s.Sound) (hCall : s.calls[i]? = some c)
    (hDone : c.phase.isDone = false) (phase : Phase) {j k : Nat} {d e : Call}
    (hd : (s.setPhase i phase).calls[j]? = some d) (he : (s.setPhase i phase).calls[k]? = some e)
    (hdDone : d.phase.isDone = false) (heDone : e.phase.isDone = false) (hSame : d.msgid = e.msgid) :
    j = k := by
  rcases (call_setPhase hCall phase).mp hd with ⟨rfl, rfl⟩ | ⟨-, hd'⟩ <;>
    rcases (call_setPhase hCall phase).mp he with ⟨hk, rfl⟩ | ⟨-, he'⟩
  · exact hk.symm
  · exact h.distinct hCall he' hDone heDone hSame
  · rw [hk]
    exact h.distinct hd' hCall hdDone hDone hSame
  · exact h.distinct hd' he' hdDone heDone hSame

theorem Sound.advance (h : s.Sound) (hCall : s.calls[i]? = some c) (hDone : c.phase.isDone = false)
    (conn : Connection) {phase : Phase} (hChannels : ∀ j, j ≠ i → conn.channels j = s.conn.channels j)
    (hOthers : ∀ m j, j ≠ i → (conn.pending.lookup m = some j ↔ s.conn.pending.lookup m = some j))
    (hFits : Fits (conn.channels i) (conn.pending.lookup c.msgid) s.readLoop i { c with phase })
    (hEntry : ∀ m, conn.pending.lookup m = some i → m = c.msgid ∧ phase ≠ .allocated ∧
      phase.isDone = false ∧ conn.channels i = .empty ∧
      (phase = .waiting → s.readLoop.isRunning))
    (hDrained : i ∈ s.readLoop.drained →
      (∀ m, conn.pending.lookup m ≠ some i) ∧ phase ≠ .allocated) :
    ({ s with conn }.setPhase i phase).Sound := by
  have hSelf : ({ s with conn }.setPhase i phase).calls[i]? = some { c with phase } :=
    (call_setPhase hCall phase).mpr (.inl ⟨rfl, rfl⟩)
  refine ⟨fun hd he => h.distinct_setPhase hCall hDone phase hd he, ?_, ?_, ?_, ?_⟩
  · intro j d hd
    rcases (call_setPhase (s := { s with conn }) hCall phase).mp hd with ⟨rfl, rfl⟩ | ⟨hj, hd⟩
    · exact hFits
    · have hOld := h.fits hd
      rw [← hChannels j hj] at hOld
      exact { hOld with
        awaited := fun hAwaited => (hOld.awaited hAwaited).imp_left (hOthers d.msgid j hj).mpr }
  · intro j hj
    have hLength : s.calls.length ≤ j := by simpa [setPhase] using hj
    have hOther : j ≠ i := by
      have := (List.getElem?_eq_some_iff.mp hCall).1
      omega
    exact (hChannels j hOther).trans (h.beyond j hLength)
  · intro m j hListed
    by_cases hj : j = i
    · subst hj
      obtain ⟨hSame, hRest⟩ := hEntry m hListed
      exact ⟨{ c with phase }, hSelf, hSame.symm, hRest⟩
    · obtain ⟨d, hd, hSame, hFresh, hOpen, hEmpty, hWaiting⟩ := h.entry ((hOthers m j hj).mp hListed)
      exact ⟨d, (call_setPhase hCall phase).mpr (.inr ⟨hj, hd⟩), hSame, hFresh, hOpen,
        (hChannels j hj).trans hEmpty, hWaiting⟩
  · intro j hj
    obtain ⟨hNone, d, hd, hFirst, hFresh⟩ := h.drained hj
    by_cases hi : j = i
    · subst hi
      rw [hCall] at hd
      cases hd
      obtain ⟨hGone, hPhase⟩ := hDrained hj
      exact ⟨hGone, { c with phase }, hSelf, hFirst, hPhase⟩
    · refine ⟨fun m hListed => hNone m ((hOthers m j hi).mp hListed), d, ?_, hFirst, hFresh⟩
      exact (call_setPhase hCall phase).mpr (.inr ⟨hi, hd⟩)

theorem Sound.insert (h : s.Sound) (hCall : s.calls[i]? = some c) (hPhase : c.phase = .allocated) :
    ({ s with conn := s.conn.insertPending c.msgid i }.setPhase i .inserted).Sound := by
  have hDone : c.phase.isDone = false := by rw [hPhase]; rfl
  have hOpen : c.phase.open := by rw [hPhase]; rfl
  have hFits := h.fits hCall
  -- an entry that is there already is one of another call with this msgid
  have hAbsent : ∀ m, s.conn.pending.lookup m ≠ some i := by
    intro m hListed
    obtain ⟨d, hd, -, hFresh, -⟩ := h.entry hListed
    rw [hCall] at hd
    cases hd
    exact hFresh hPhase
  have hNew : s.conn.pending.lookup c.msgid = none := by
    cases hListed : s.conn.pending.lookup c.msgid with
    | none => rfl
    | some j =>
      obtain rfl := outstanding_entry h hCall hDone hListed
      exact absurd hListed (hAbsent _)
  rw [Connection.insertPending_new hNew]
  have hLookup : ∀ m, (s.conn.pending.insert c.msgid i).lookup m =
      if m = c.msgid then some i else s.conn.pending.lookup m := by
    intro m
    split
    · subst m
      exact AList.lookup_insert _
    · exact AList.lookup_insert_ne (by assumption)
  refine h.advance hCall hDone _ (fun j _ => rfl) (fun m j hj => ?_) ?_ (fun m hListed => ?_)
    fun hDrained => ?_
  · rw [hLookup]
    split
    · subst m
      rw [hNew]
      exact iff_of_false (fun hSome => hj (Option.some.inj hSome).symm) (by simp)
    · exact Iff.rfl
  · exact {
      fresh := fun _ => hFits.fresh hPhase
      kept := fun _ => hFits.kept hOpen
      awaited := fun _ => .inl (AList.lookup_insert _)
      answered := fun hFirst => ⟨fun _ => (hFits.answered hFirst).1 hOpen,
        fun _ hFailed => (by cases hFailed), fun _ hReturned => (by cases hReturned)⟩
      late := fun _ => hFits.late hOpen
      unanswered := fun _ _ hReturned => by cases hReturned }
  · rw [hLookup] at hListed
    split at hListed
    · exact ⟨by assumption, fun hFresh => (by cases hFresh), rfl, hFits.fresh hPhase,
        fun hWaiting => (by cases hWaiting)⟩
    · exact absurd hListed (hAbsent m)
  · obtain ⟨-, d, hd, -, hFresh⟩ := h.drained hDrained
    rw [hCall] at hd
    cases hd
    exact absurd hPhase hFresh

theorem Sound.entry_of (h : s.Sound) (hCall : s.calls[i]? = some c) {m : UInt32}
    (hEntry : s.conn.pending.lookup m = some i) : c.msgid = m ∧ s.conn.channels i = .empty := by
  obtain ⟨d, hd, hSame, -, -, hEmpty, -⟩ := h.entry hEntry
  rw [hCall] at hd
  cases hd
  exact ⟨hSame, hEmpty⟩

theorem Sound.drained_of (h : s.Sound) (hDrained : i ∈ s.readLoop.drained) (m : UInt32) :
    s.conn.pending.lookup m ≠ some i := (h.drained hDrained).1 m

theorem Sound.written (h : s.Sound) (hCall : s.calls[i]? = some c) (hPhase : c.phase = .inserted)
    (hOrdered : s.readLoop.isRunning ∨ s.conn.pending.lookup c.msgid ≠ some i) :
    (s.setPhase i .waiting).Sound := by
  have hOpen : c.phase.open := by rw [hPhase]; rfl
  have hFits := h.fits hCall
  refine h.advance hCall (isDone_of_open hOpen) s.conn (fun j _ => rfl)
    (fun m j _ => Iff.rfl) ?_ (fun m hListed => ?_) fun hDrained => ?_
  · exact {
      fresh := fun hFresh => by cases hFresh
      kept := fun _ => hFits.kept hOpen
      awaited := fun _ => hFits.awaited (.inl hPhase)
      answered := fun hFirst => ⟨fun _ => (hFits.answered hFirst).1 hOpen,
        fun _ hFailed => (by cases hFailed), fun _ hReturned => (by cases hReturned)⟩
      late := fun _ => hFits.late hOpen
      unanswered := fun _ _ hReturned => by cases hReturned }
  · obtain ⟨rfl, hEmpty⟩ := h.entry_of hCall hListed
    exact ⟨rfl, fun hFresh => (by cases hFresh), rfl, hEmpty,
      fun _ => hOrdered.resolve_right (fun hNot => hNot hListed)⟩
  · exact ⟨h.drained_of hDrained, fun hFresh => (by cases hFresh)⟩

theorem Sound.unwritten (h : s.Sound) (hCall : s.calls[i]? = some c) (hPhase : c.phase = .inserted)
    (hFirst : c.first = none) (e : Error) : (s.setPhase i (.failed e)).Sound := by
  have hOpen : c.phase.open := by rw [hPhase]; rfl
  refine h.advance hCall (isDone_of_open hOpen) s.conn (fun j _ => rfl)
    (fun m j _ => Iff.rfl) ?_ (fun m hListed => ?_) fun hDrained => ?_
  · exact {
      fresh := fun hFresh => by cases hFresh
      kept := fun hFailed => by cases hFailed
      awaited := fun hPhase => by rcases hPhase with hPhase | hPhase <;> cases hPhase
      answered := fun hSome => by
        have hSome : c.first = _ := hSome
        rw [hFirst] at hSome
        cases hSome
      late := fun hFailed => by cases hFailed
      unanswered := fun _ _ hReturned => by cases hReturned }
  · obtain ⟨rfl, hEmpty⟩ := h.entry_of hCall hListed
    exact ⟨rfl, fun hFresh => (by cases hFresh), rfl, hEmpty, fun hWaiting => (by cases hWaiting)⟩
  · exact ⟨h.drained_of hDrained, fun hFresh => (by cases hFresh)⟩

theorem Sound.remove (h : s.Sound) (hCall : s.calls[i]? = some c) {e : Error}
    (hPhase : c.phase = .failed e) :
    ({ s with conn := s.conn.removePending c.msgid }.setPhase i
      (.done (.error (.write e)))).Sound := by
  have hDone : c.phase.isDone = false := by rw [hPhase]; rfl
  have hOwn : ∀ k, s.conn.pending.lookup c.msgid = some k → k = i :=
    fun k => outstanding_entry h hCall hDone
  have hGone : ∀ m, (s.conn.removePending c.msgid).pending.lookup m ≠ some i := by
    intro m hListed
    rw [Connection.lookup_removePending] at hListed
    split at hListed
    · cases hListed
    · exact absurd (h.entry_of hCall hListed).1.symm (by assumption)
  refine h.advance hCall hDone _ (fun j hj => Connection.channels_removePending hOwn hj)
    (fun m j hj => ?_) ?_ (fun m hListed => absurd hListed (hGone m)) fun _ => ?_
  · rw [Connection.lookup_removePending]
    split
    · subst m
      exact iff_of_false (by simp) fun hListed => hj (hOwn j hListed)
    · exact Iff.rfl
  · exact {
      fresh := fun hFresh => by cases hFresh
      kept := fun hReturned => by cases hReturned
      awaited := fun hPhase => by rcases hPhase with hPhase | hPhase <;> cases hPhase
      answered := fun hFirst => absurd hPhase (((h.fits hCall).answered hFirst).2.1 e)
      late := fun hReturned => by cases hReturned
      unanswered := fun _ r hReturned => by
        cases hReturned
        exact .inl ⟨e, rfl⟩ }
  · exact ⟨hGone, fun hFresh => by cases hFresh⟩

theorem Sound.receive (h : s.Sound) (hCall : s.calls[i]? = some c) (hPhase : c.phase = .waiting)
    {o : ResponseResult} (hChannel : s.conn.channels i = .sent o) :
    (s.setPhase i (.done (answer o))).Sound := by
  have hOpen : c.phase.open := by rw [hPhase]; rfl
  have hFits := h.fits hCall
  refine h.advance hCall (isDone_of_open hOpen) s.conn (fun j _ => rfl)
    (fun m j _ => Iff.rfl) ?_ (fun m hListed => ?_) fun hDrained => ?_
  · exact {
      fresh := fun hFresh => by cases hFresh
      kept := fun hReturned => by cases hReturned
      awaited := fun hPhase => by rcases hPhase with hPhase | hPhase <;> cases hPhase
      answered := fun {o'} hFirst => by
        have hSent := (hFits.answered hFirst).1 hOpen
        rw [hChannel] at hSent
        cases hSent
        exact ⟨fun hReturned => (by cases hReturned), fun _ hFailed => (by cases hFailed),
          fun r hReturned => (by cases hReturned; rfl)⟩
      late := fun hReturned => by cases hReturned
      unanswered := fun hFirst r hReturned => by
        cases hReturned
        obtain ⟨hStopped, reason, rfl⟩ := hFits.late hOpen hFirst o hChannel
        exact .inr ⟨hStopped, reason, rfl⟩ }
  · rw [(h.entry_of hCall hListed).2] at hChannel
    cases hChannel
  · exact ⟨h.drained_of hDrained, fun hFresh => by cases hFresh⟩

@[simp] theorem note_phase (f : Frame) (c : Call) : (c.note f).phase = c.phase := by
  cases f with
  | response m error result =>
    dsimp only [Call.note]
    split <;> rfl
  | _ => rfl

@[simp] theorem note_msgid (f : Frame) (c : Call) : (c.note f).msgid = c.msgid := by
  cases f with
  | response m error result =>
    dsimp only [Call.note]
    split <;> rfl
  | _ => rfl

theorem call_frame (f : Frame) {conn : Connection} {j : Nat} {d : Call}
    (hCall : ({ s with conn, calls := s.calls.map (Call.note f) } : System).calls[j]? = some d) :
    ∃ c, s.calls[j]? = some c ∧ d = c.note f := by
  rw [List.getElem?_map, Option.map_eq_some_iff] at hCall
  obtain ⟨c, hc, rfl⟩ := hCall
  exact ⟨c, hc, rfl⟩

end System

theorem Fits.outcome {listed listed' : Option Nat} {readLoop : ReadLoop} {i : Nat} {c : Call}
    (h : Fits .empty listed readLoop i c) (hFresh : c.phase ≠ .allocated)
    (hDone : c.phase.isDone = false) (error result : Value) :
    Fits (.sent (responseResult error result)) listed' readLoop i
      (c.note (.response c.msgid error result)) := by
  have hFirst : c.phase.open → c.first = none := by
    intro hOpen
    cases hFirst : c.first with
    | none => rfl
    | some o => cases (h.answered hFirst).1 hOpen
  by_cases hOpen : c.phase.open
  · have hNote : c.note (.response c.msgid error result) =
        { c with first := some (responseResult error result) } :=
      if_pos ⟨rfl, hOpen, by rw [hFirst hOpen]; rfl⟩
    rw [hNote]
    exact {
      fresh := fun hPhase => absurd hPhase hFresh
      kept := fun _ hDropped => by cases hDropped
      awaited := fun _ => .inr (.inl ⟨_, rfl⟩)
      answered := fun hSome => by
        cases hSome
        refine ⟨fun _ => rfl, fun e hFailed => ?_, fun r hReturned => ?_⟩
        · have hFailed : c.phase = .failed e := hFailed
          rw [hFailed] at hOpen
          cases hOpen
        · have hReturned : c.phase = .done r := hReturned
          rw [hReturned] at hDone
          cases hDone
      late := fun _ hNone => by cases hNone
      unanswered := fun hNone => by cases hNone }
  · have hNote : c.note (.response c.msgid error result) = c := if_neg fun hSame => hOpen hSame.2.1
    rw [hNote]
    exact {
      fresh := fun hPhase => absurd hPhase hFresh
      kept := fun hPhase => absurd hPhase hOpen
      awaited := fun _ => .inr (.inl ⟨_, rfl⟩)
      answered := fun hSome => ⟨fun hPhase => absurd hPhase hOpen, (h.answered hSome).2⟩
      late := fun hPhase => absurd hPhase hOpen
      unanswered := h.unanswered }

theorem Fits.failure {conn : Connection} {listed : Option Nat} {readLoop : ReadLoop} {i : Nat}
    {c : Call} {reason : String} {senders : List Nat} (h : Fits (conn.channels i) listed readLoop i c)
    (hFirst : c.first = none) (hFresh : c.phase ≠ .allocated) :
    Fits ((conn.send i (.error (.string reason))).channels i) listed (.failing reason senders) i c := by
  have hUnanswered : c.first = none → ∀ r, c.phase = .done r → (∃ e, r = .error (.write e)) ∨
      false = false ∧ ∃ reason, r = .error (.peer (.string reason)) := fun hNone r hReturned =>
    (h.unanswered hNone r hReturned).imp_right fun hLate => ⟨rfl, hLate.2⟩
  have hNoOutcome : ∀ {o : ResponseResult} {P : Prop}, c.first = some o → P := by
    intro o P hSome
    rw [hFirst] at hSome
    cases hSome
  by_cases hEmpty : conn.channels i = .empty
  · rw [Connection.channels_send_empty _ _ hEmpty]
    exact {
      fresh := fun hPhase => absurd hPhase hFresh
      kept := fun _ hDropped => by cases hDropped
      awaited := fun _ => .inr (.inl ⟨_, rfl⟩)
      answered := fun hSome => hNoOutcome hSome
      late := fun _ _ o hSent => by
        cases hSent
        exact ⟨rfl, reason, rfl⟩
      unanswered := hUnanswered }
  · rw [Connection.send_taken _ hEmpty]
    exact {
      fresh := fun hPhase => absurd hPhase hFresh
      kept := h.kept
      awaited := fun hAwaited => by
        have hOpen : c.phase.open := by rcases hAwaited with hPhase | hPhase <;> rw [hPhase] <;> rfl
        cases hChannel : conn.channels i with
        | empty => exact absurd hChannel hEmpty
        | sent o => exact .inr (.inl ⟨o, rfl⟩)
        | dropped => exact absurd hChannel (h.kept hOpen)
      answered := fun hSome => hNoOutcome hSome
      late := fun hOpen hNone o hSent => ⟨rfl, (h.late hOpen hNone o hSent).2⟩
      unanswered := hUnanswered }

namespace System

variable {s : System} {i : Nat} {c : Call}

theorem Sound.frame_of (h : s.Sound) {f : Frame} {conn : Connection} (hLoop : s.readLoop = .running)
    (hFits : ∀ {j : Nat} {c : Call}, s.calls[j]? = some c →
      Fits (conn.channels j) (conn.pending.lookup c.msgid) s.readLoop j (c.note f))
    (hBeyond : ∀ j, s.calls.length ≤ j → conn.channels j = .empty)
    (hEntry : ∀ m j, conn.pending.lookup m = some j →
      s.conn.pending.lookup m = some j ∧ conn.channels j = .empty) :
    ({ s with conn, calls := s.calls.map (Call.note f) } : System).Sound := by
  refine ⟨?_, ?_, ?_, ?_, ?_⟩
  · intro j k d e hd he hdDone heDone hSame
    obtain ⟨c, hc, rfl⟩ := call_frame f hd
    obtain ⟨c', hc', rfl⟩ := call_frame f he
    rw [note_phase] at hdDone heDone
    rw [note_msgid, note_msgid] at hSame
    exact h.distinct hc hc' hdDone heDone hSame
  · intro j d hd
    obtain ⟨c, hc, rfl⟩ := call_frame f hd
    rw [note_msgid]
    exact hFits hc
  · intro j hj
    rw [List.length_map] at hj
    exact hBeyond j hj
  · intro m j hListed
    obtain ⟨hOld, hEmpty⟩ := hEntry m j hListed
    obtain ⟨c, hc, hSame, hFresh, hDone, -, hWaiting⟩ := h.entry hOld
    refine ⟨c.note f, by rw [List.getElem?_map, hc]; rfl, by rw [note_msgid]; exact hSame, ?_⟩
    rw [note_phase]
    exact ⟨hFresh, hDone, hEmpty, hWaiting⟩
  · intro j hDrained
    have hNone : j ∈ s.readLoop.drained := hDrained
    rw [hLoop] at hNone
    cases hNone

theorem Sound.response (h : s.Sound) {m : UInt32} {error result : Value}
    (hLoop : s.readLoop = .running)
    (hOrdered : ∀ c ∈ s.calls, c.phase = .allocated → c.msgid ≠ m) :
    (s.step (.frame (.response m error result))).Sound := by
  have hStep : s.step (.frame (.response m error result)) =
      { s with
        conn := s.conn.dispatch (.response m error result)
        calls := s.calls.map (Call.note (.response m error result)) } := by
    simp only [step, hLoop]
  rw [hStep]
  cases hListed : s.conn.pending.lookup m with
  | none =>
    rw [Connection.dispatch_response_none hListed]
    refine h.frame_of hLoop (fun {j c} hCall => ?_) h.beyond
      fun m' j hEntry => ⟨hEntry, ?_⟩
    · have hFits := h.fits hCall
      -- an open call with this msgid would be listed, or have an outcome already
      have hOther : (c.note (.response m error result)) = c := by
        refine if_neg ?_
        rintro ⟨rfl, hOpen, hFirst⟩
        have hFirst : c.first = none := by simpa using hFirst
        have hAwaited : c.phase = .inserted ∨ c.phase = .waiting := by
          cases hPhase : c.phase with
          | allocated => exact absurd rfl (hOrdered c (List.mem_of_getElem? hCall) hPhase)
          | inserted => exact .inl rfl
          | waiting => exact .inr rfl
          | failed e => rw [hPhase] at hOpen; cases hOpen
          | done r => rw [hPhase] at hOpen; cases hOpen
        rcases hFits.awaited hAwaited with hSome | ⟨o, hSent⟩ | hDrained
        · rw [hListed] at hSome
          cases hSome
        · have hStopped := (hFits.late hOpen hFirst o hSent).1
          rw [hLoop] at hStopped
          cases hStopped
        · rw [hLoop] at hDrained
          cases hDrained
      rw [hOther]
      exact hFits
    · obtain ⟨d, hd, -⟩ := h.entry hEntry
      exact (h.entry_of hd hEntry).2
  | some i =>
    obtain ⟨c, hCall, rfl, hFresh, hDone, hEmpty, -⟩ := h.entry hListed
    obtain ⟨hPending, hSent, hOthers⟩ :=
      Connection.dispatch_response_some error result hListed hEmpty
    have hErased : ∀ m' j, (s.conn.pending.erase c.msgid).lookup m' = some j →
        s.conn.pending.lookup m' = some j ∧ j ≠ i := by
      intro m' j hEntry
      by_cases hm : m' = c.msgid
      · subst hm
        rw [AList.lookup_erase] at hEntry
        cases hEntry
      · rw [AList.lookup_erase_ne hm] at hEntry
        refine ⟨hEntry, ?_⟩
        rintro rfl
        exact hm (h.entry_of hCall hEntry).1.symm
    refine h.frame_of hLoop (fun {j d} hd => ?_) (fun j hj => ?_) fun m' j hEntry => ?_
    · have hFits := h.fits hd
      by_cases hj : j = i
      · subst hj
        rw [hCall] at hd
        cases hd
        rw [hSent]
        rw [hEmpty] at hFits
        exact hFits.outcome hFresh hDone error result
      · have hOther : d.note (.response c.msgid error result) = d := by
          refine if_neg ?_
          rintro ⟨hSame, hOpen, -⟩
          exact hj (h.distinct hd hCall (isDone_of_open hOpen) hDone hSame)
        rw [hOther, hOthers j hj, hPending]
        refine { hFits with awaited := fun hAwaited => (hFits.awaited hAwaited).imp_left fun hOld => ?_ }
        rw [AList.lookup_erase_ne, hOld]
        intro hSame
        rw [hSame, hListed] at hOld
        exact hj (Option.some.inj hOld).symm
    · have hOther : j ≠ i := by
        have := (List.getElem?_eq_some_iff.mp hCall).1
        omega
      rw [hOthers j hOther]
      exact h.beyond j hj
    · rw [hPending] at hEntry
      obtain ⟨hOld, hOther⟩ := hErased m' j hEntry
      obtain ⟨d, hd, -⟩ := h.entry hOld
      exact ⟨hOld, (hOthers j hOther).trans (h.entry_of hd hOld).2⟩

theorem Sound.otherFrame (h : s.Sound) {f : Frame} (hLoop : s.readLoop = .running)
    (hNote : ∀ c, Call.note f c = c) (hPending : (s.conn.dispatch f).pending = s.conn.pending)
    (hChannels : (s.conn.dispatch f).channels = s.conn.channels) :
    ({ s with conn := s.conn.dispatch f, calls := s.calls.map (Call.note f) } : System).Sound := by
  refine h.frame_of hLoop (fun {j c} hCall => ?_) (fun j hj => ?_) fun m j hEntry => ?_
  · rw [hNote, hPending, hChannels]
    exact h.fits hCall
  · rw [hChannels]
    exact h.beyond j hj
  · rw [hPending] at hEntry
    obtain ⟨c, hCall, -⟩ := h.entry hEntry
    rw [hChannels]
    exact ⟨hEntry, (h.entry_of hCall hEntry).2⟩

theorem Sound.stop (h : s.Sound) (hLoop : s.readLoop = .running) (reason : String) :
    ({ s with
      conn := s.conn.drain
      readLoop := .failing reason (s.conn.pending.entries.map (·.2)) } : System).Sound := by
  have hRunning : s.readLoop.isRunning = true := by rw [hLoop]; rfl
  refine ⟨h.distinct, fun {j c} hCall => ?_, h.beyond, fun {m j} hEntry => ?_, fun {j} hDrained => ?_⟩
  · have hFits := h.fits hCall
    exact {
      fresh := hFits.fresh
      kept := hFits.kept
      awaited := fun hAwaited => by
        rcases hFits.awaited hAwaited with hListed | hSent | hDrained
        · exact .inr (.inr (Connection.mem_senders.mpr ⟨_, hListed⟩))
        · exact .inr (.inl hSent)
        · rw [hLoop] at hDrained
          cases hDrained
      answered := hFits.answered
      late := fun hOpen hFirst o hSent => by
        have hStopped := (hFits.late hOpen hFirst o hSent).1
        rw [hRunning] at hStopped
        cases hStopped
      unanswered := fun hFirst r hReturned => by
        refine (hFits.unanswered hFirst r hReturned).imp_right fun hLate => ?_
        rw [hRunning] at hLate
        cases hLate.1 }
  · have hNone : (∅ : AList fun _ : UInt32 => Nat).lookup m = some j := hEntry
    rw [AList.lookup_empty] at hNone
    cases hNone
  · obtain ⟨m, hListed⟩ := Connection.mem_senders.mp hDrained
    obtain ⟨c, hCall, -, hFresh, hDone, hEmpty, -⟩ := h.entry hListed
    refine ⟨fun m' hNone => ?_, c, hCall, ?_, hFresh⟩
    · have hNone : (∅ : AList fun _ : UInt32 => Nat).lookup m' = some j := hNone
      rw [AList.lookup_empty] at hNone
      cases hNone
    · cases hFirst : c.first with
      | none => rfl
      | some o =>
        obtain ⟨hSent, hFailed, -⟩ := (h.fits hCall).answered hFirst
        cases hPhase : c.phase with
        | failed e => exact absurd hPhase (hFailed e)
        | done r => rw [hPhase] at hDone; cases hDone
        | allocated => exact absurd hPhase hFresh
        | _ =>
          have hFull := hSent (by rw [hPhase]; rfl)
          rw [hEmpty] at hFull
          cases hFull

theorem Sound.fail (h : s.Sound) {reason : String} {senders : List Nat}
    (hLoop : s.readLoop = .failing reason (i :: senders)) :
    ({ s with
      conn := s.conn.send i (.error (.string reason))
      readLoop := .failing reason senders } : System).Sound := by
  have hStopped : s.readLoop.isRunning = false := by rw [hLoop]; rfl
  have hDrained : s.readLoop.drained = i :: senders := by rw [hLoop]; rfl
  obtain ⟨hGone, c, hCall, hFirst, hFresh⟩ := h.drained (i := i) (by rw [hDrained]; simp)
  refine ⟨h.distinct, fun {j d} hd => ?_, fun j hj => ?_, fun {m j} hEntry => ?_, fun {j} hj => ?_⟩
  · have hFits := h.fits hd
    rw [Connection.pending_send]
    by_cases hj : j = i
    · subst hj
      rw [hCall] at hd
      cases hd
      exact hFits.failure hFirst hFresh
    · rw [Connection.channels_send_ne _ hj]
      exact {
        fresh := hFits.fresh
        kept := hFits.kept
        awaited := fun hAwaited => by
          refine (hFits.awaited hAwaited).imp_right (Or.imp_right fun hMem => ?_)
          rw [hDrained] at hMem
          exact (List.mem_cons.mp hMem).resolve_left hj
        answered := hFits.answered
        late := fun hOpen hNone o hSent => ⟨rfl, (hFits.late hOpen hNone o hSent).2⟩
        unanswered := fun hNone r hReturned =>
          (hFits.unanswered hNone r hReturned).imp_right fun hLate => ⟨rfl, hLate.2⟩ }
  · have hOther : j ≠ i := by
      have hLength : s.calls.length ≤ j := hj
      have := (List.getElem?_eq_some_iff.mp hCall).1
      omega
    exact (Connection.channels_send_ne _ hOther).trans (h.beyond j hj)
  · rw [Connection.pending_send] at hEntry
    obtain ⟨d, hd, hSame, hdFresh, hDone, hEmpty, hWaiting⟩ := h.entry hEntry
    have hOther : j ≠ i := by
      rintro rfl
      exact hGone m hEntry
    refine ⟨d, hd, hSame, hdFresh, hDone, (Connection.channels_send_ne _ hOther).trans hEmpty, ?_⟩
    intro hPhase
    have hRunning := hWaiting hPhase
    rw [hStopped] at hRunning
    cases hRunning
  · have hMem : j ∈ s.readLoop.drained := by
      rw [hDrained]
      exact List.mem_cons_of_mem i hj
    obtain ⟨hNone, hRest⟩ := h.drained hMem
    exact ⟨fun m => by rw [Connection.pending_send]; exact hNone m, hRest⟩

theorem Sound.finish (h : s.Sound) {reason : String} (hLoop : s.readLoop = .failing reason []) :
    ({ s with readLoop := .ended } : System).Sound := by
  have hStopped : s.readLoop.isRunning = false := by rw [hLoop]; rfl
  refine ⟨h.distinct, fun {j d} hd => ?_, h.beyond, fun {m j} hEntry => ?_, fun {j} hj => ?_⟩
  · have hFits := h.fits hd
    exact {
      fresh := hFits.fresh
      kept := hFits.kept
      awaited := fun hAwaited => by
        refine (hFits.awaited hAwaited).imp_right (Or.imp_right fun hMem => ?_)
        rw [hLoop] at hMem
        cases hMem
      answered := hFits.answered
      late := fun hOpen hNone o hSent => ⟨rfl, (hFits.late hOpen hNone o hSent).2⟩
      unanswered := fun hNone r hReturned =>
        (hFits.unanswered hNone r hReturned).imp_right fun hLate => ⟨rfl, hLate.2⟩ }
  · obtain ⟨d, hd, hSame, hFresh, hDone, hEmpty, hWaiting⟩ := h.entry hEntry
    refine ⟨d, hd, hSame, hFresh, hDone, hEmpty, fun hPhase => ?_⟩
    have hRunning := hWaiting hPhase
    rw [hStopped] at hRunning
    cases hRunning
  · cases hj

theorem Sound.step (h : s.Sound) {e : Event} (hOrdered : s.Ordered e) : (s.step e).Sound := by
  rcases step_cases (s := s) e with hSame | hTakes
  · rw [hSame]
    exact h
  · cases e with
    | start => exact h.start hOrdered
    | insert i =>
      generalize s.step (.insert i) = t at hTakes
      cases hTakes with
      | insert hCall hPhase => exact h.insert hCall hPhase
    | write i fault =>
      generalize s.step (.write i fault) = t at hTakes
      cases hTakes with
      | written hCall hPhase => exact h.written hCall hPhase (hOrdered _ hCall hPhase)
      | unwritten hCall hPhase => exact h.unwritten hCall hPhase (hOrdered _ hCall hPhase) _
    | remove i =>
      generalize s.step (.remove i) = t at hTakes
      cases hTakes with
      | remove hCall hPhase => exact h.remove hCall hPhase
    | receive i =>
      generalize s.step (.receive i) = t at hTakes
      cases hTakes with
      | receive hCall hPhase hChannel => exact h.receive hCall hPhase hChannel
      | cancelled hCall hPhase hChannel =>
        exact absurd hChannel ((h.fits hCall).kept (by rw [hPhase]; rfl))
    | frame f =>
      generalize hNext : s.step (.frame f) = t at hTakes
      cases hTakes with
      | frame hLoop =>
        cases f with
        | response m error result =>
          rw [← hNext]
          exact h.response hLoop (hOrdered (by rw [hLoop]; rfl))
        | notify method params =>
          have hSame := s.conn.dispatch_notify method params
          exact h.otherFrame hLoop (fun c => rfl) hSame.1 hSame.2
        | request m method params => exact h.otherFrame hLoop (fun c => rfl) rfl rfl
    | stop reason =>
      generalize s.step (.stop reason) = t at hTakes
      cases hTakes with
      | stop hLoop => exact h.stop hLoop reason
    | fail =>
      generalize s.step .fail = t at hTakes
      cases hTakes with
      | fail hLoop => exact h.fail hLoop
      | finish hLoop => exact h.finish hLoop

/-- In every run whose steps are ordered, the requests are correlated with their responses, in each
state that the run comes to. -/
theorem correlated_of_ordered (handlers : RpcServer) (events : List Event)
    (hOrdered : History.Each System.step System.Ordered (opened handlers) events) :
    (History.play System.step (opened handlers) events).Correlated :=
  (History.preserves (fun _ _ h hStep => h.step hStep) hOrdered (opened_sound handlers)).correlated

/-- Two requests, the second of which is sent before the first is answered, and answered first. -/
def roundTrip : List Event :=
  [.start, .insert 0, .start, .write 0 none, .insert 1, .write 1 none,
    .frame (.response 2 .nil (.string "second")), .frame (.response 1 .nil (.string "first")),
    .receive 0, .receive 1]

/-- Both calls get their own response. -/
theorem roundTrip_correlated :
    (History.play System.step (opened ⟨[], []⟩) roundTrip).Correlated := by
  have hSent (m : UInt32) (first : Option ResponseResult) :
      ∀ c ∈ [(⟨1, .waiting, none⟩ : Call), ⟨2, .waiting, first⟩], c.phase = .allocated → c.msgid ≠ m := by
    intro c hMem hPhase
    simp only [List.mem_cons, List.not_mem_nil, or_false] at hMem
    rcases hMem with rfl | rfl <;> cases hPhase
  refine correlated_of_ordered ⟨[], []⟩ roundTrip ⟨fun c hMem => (by cases hMem), trivial,
    fun c hMem _ => ?_, fun c _ _ => .inl rfl, trivial, fun c _ _ => .inl rfl, fun _ => hSent _ _,
    fun _ => hSent _ _, trivial, trivial, trivial⟩
  rw [List.mem_singleton.mp hMem]
  decide

def lateRequest : List Event :=
  [.stop "connection closed", .fail, .start, .insert 0, .write 0 none]

/-- Its entry stays, and nothing but another request changes the state that it waits in. -/
theorem lateRequest_waits :
    ¬(History.play System.step (opened ⟨[], []⟩) lateRequest).Correlated ∧
      ∀ e, e ≠ .start → (History.play System.step (opened ⟨[], []⟩) lateRequest).step e =
        History.play System.step (opened ⟨[], []⟩) lateRequest := by
  constructor
  · intro h
    obtain ⟨o, hSent⟩ := h.noWait rfl 0 ⟨1, .waiting, none⟩ rfl rfl
    cases hSent
  · intro e he
    cases e with
    | start => exact absurd rfl he
    | frame f => rfl
    | stop reason => rfl
    | fail => rfl
    | write i fault => cases i <;> rfl
    | insert i => cases i <;> rfl
    | remove i => cases i <;> rfl
    | receive i => cases i <;> rfl

end System

end Cronymax.Rpc
