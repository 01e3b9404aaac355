import Cronymax.Atomic.History
import Cronymax.Gips.Transport

/-! The frames that wait stand in a line, in the order of their calls.  A reply that does not wait for the
line overtakes it, and a failed flush puts more than one frame back in the other order. -/

namespace Cronymax.Gips

open Atomic
open GipsTransport (step)

namespace GipsTransport

variable (s : GipsTransport)

/-- The frames that a flush has still to send. -/
def frames : List Nat :=
  match s.acceptor with
  | .flushing flush => flush.frames
  | _ => []

/-- The reply that the sender waits for. -/
def replies : Option (Nat × Nat) :=
  match s.sender with
  | .replying c => some (s.sends, c)
  | _ => none

def flushes : Option (Nat × Nat) :=
  match s.acceptor with
  | .flushing ⟨c, frame :: _, none, _⟩ => some (frame, c)
  | _ => none

/-- The frame that an event delivers. -/
def reaches : Event → Option (Nat × Nat)
  | .reply true => s.replies
  | .flushReply true => s.flushes
  | _ => none

/-- The host has got a frame of a later call: its reply went over an older connection, or behind `close`,
and did not wait for the flush. -/
def overtaken (frame : Nat) : Bool := s.delivered.any (frame ≤ ·)

end GipsTransport

/-- What is asked of a step. -/
structure Right (s : GipsTransport) (e : Event) : Prop where
  order : (step s e).delivered.Pairwise (· < ·)
  caught : ∀ frame c, s.reaches e = some (frame, c) → s.closed = false → c = s.newest →
    ∀ m ∈ s.accepted, m < frame → m ∈ s.delivered
  restored : ∀ c failed since, e = .flushEnd → s.acceptor = .flushing ⟨c, [], some failed, since⟩ →
    s.closed = false → (step s e).pending = failed ++ since

/-- Nothing overtakes the line, and a flush that fails puts at most one frame back. -/
def Meets (s : GipsTransport) : Event → Prop
  | .reply true => ∀ c, s.sender = .replying c → s.closed = false → c = s.newest →
    s.pending = [] ∧ s.frames = []
  | .flushReply true => ∀ frame c, s.flushes = some (frame, c) → s.overtaken frame = false
  | .flushEnd => ∀ c failed since, s.acceptor = .flushing ⟨c, [], some failed, since⟩ →
    s.closed = false → failed.length ≤ 1
  | _ => True

/-- The frames in line: those of a flush, those put back, those that came since. -/
def Line (acceptor : Acceptor) (pending q : List Nat) : Prop :=
  match acceptor with
  | .flushing ⟨_, frames, none, since⟩ => q = frames ++ pending ∧ since = pending
  | .flushing ⟨_, frames, some failed, since⟩ =>
    ∃ back, failed = back ++ frames ∧ pending = back.reverse ++ since ∧ q = failed ++ since
  | _ => q = pending

/-- The frames that are still to be delivered. -/
structure Queue (s : GipsTransport) (q : List Nat) : Prop where
  line : Line s.acceptor s.pending q
  sorted : q.Pairwise (· < ·)
  waits : ∀ k ∈ q, k < s.sends ∧ k ∈ s.accepted ∧ k ∉ s.delivered
  covers : ∀ m ∈ s.accepted, m ∈ s.delivered ∨ m ∈ q

def GipsTransport.issued (s : GipsTransport) : Nat :=
  match s.sender with
  | .caching _ => s.sends + 1
  | _ => s.sends

/-- The frames are delivered in their order, and what is in line comes after. -/
structure Sound (s : GipsTransport) : Prop where
  ordered : s.delivered.Pairwise (· < ·)
  issued : ∀ k ∈ s.delivered, k < s.issued
  cached : ∀ c, s.sender = .caching c → s.sends ∈ s.delivered
  flushed : ∀ k ∈ s.frames, k < s.sends
  queue : s.closed = false → ∃ q, Queue s q

theorem sound_start : Sound .start where
  ordered := List.Pairwise.nil
  issued k hk := absurd hk List.not_mem_nil
  cached c h := by cases h
  flushed k hk := absurd hk List.not_mem_nil
  queue _ := ⟨[], rfl, List.Pairwise.nil, fun k hk => absurd hk List.not_mem_nil,
    fun m hm => absurd hm List.not_mem_nil⟩

section line

variable {acceptor : Acceptor} {pending q : List Nat}

theorem Line.push (h : Line acceptor pending q) (frame : Nat) :
    Line (acceptor.push frame) (pending ++ [frame]) (q ++ [frame]) := by
  cases acceptor with
  | idle | cached => exact congrArg (· ++ [frame]) h
  | flushing flush =>
    obtain ⟨c, frames, failed, since⟩ := flush
    cases failed with
    | none =>
      obtain ⟨rfl, rfl⟩ := h
      exact ⟨List.append_assoc _ _ _, rfl⟩
    | some failed =>
      obtain ⟨back, hFailed, rfl, rfl⟩ := h
      exact ⟨back, hFailed, List.append_assoc _ _ _, List.append_assoc _ _ _⟩

theorem frames_push (s : GipsTransport) (frame : Nat) :
    GipsTransport.frames { s with acceptor := s.acceptor.push frame } = s.frames := by
  unfold GipsTransport.frames
  cases s.acceptor with
  | idle | cached | flushing => rfl

theorem Line.nil_iff {s : GipsTransport} (h : Line s.acceptor s.pending q) :
    q = [] ↔ s.pending = [] ∧ s.frames = [] := by
  unfold GipsTransport.frames
  cases hAcceptor : s.acceptor with
  | idle | cached =>
    rw [hAcceptor] at h
    have h : q = s.pending := h
    simp [h]
  | flushing flush =>
    obtain ⟨c, frames, failed, since⟩ := flush
    rw [hAcceptor] at h
    cases failed with
    | none =>
      obtain ⟨rfl, -⟩ := h
      simp [and_comm]
    | some failed =>
      obtain ⟨back, rfl, hPending, rfl⟩ := h
      simp [hPending]
      tauto

theorem reverse_append_iff {l rest : List Nat} (hSorted : (l ++ rest).Pairwise (· < ·)) :
    l.reverse ++ rest = l ++ rest ↔ l.length ≤ 1 := by
  rw [List.append_left_inj]
  rcases l with - | ⟨a, - | ⟨b, l⟩⟩
  · simp
  · simp
  · refine iff_of_false (fun h => ?_) (by simp)
    have hLast := congrArg List.getLast? h
    rw [List.getLast?_reverse] at hLast
    have hMem : a ∈ b :: l := by
      rw [List.getLast?_cons_cons] at hLast
      exact List.mem_of_getLast? hLast.symm
    have hLess := (List.pairwise_cons.mp hSorted).1 a (List.mem_append_left _ hMem)
    exact Nat.lt_irrefl a hLess

end line

variable {s t : GipsTransport} {q : List Nat}

theorem Queue.frame (h : Queue s q) (hLine : Line t.acceptor t.pending q)
    (hDelivered : t.delivered = s.delivered) (hSends : s.sends ≤ t.sends)
    (hAccepted : ∀ m ∈ s.accepted, m ∈ t.accepted)
    (hNew : ∀ m ∈ t.accepted, m ∈ s.accepted ∨ m ∈ s.delivered) : Queue t q where
  line := hLine
  sorted := h.sorted
  waits k hk := by
    obtain ⟨hLess, hMem, hNot⟩ := h.waits k hk
    exact ⟨by omega, hAccepted k hMem, hDelivered ▸ hNot⟩
  covers m hm := by
    rw [hDelivered]
    rcases hNew m hm with hOld | hDone
    · exact h.covers m hOld
    · exact .inl hDone

theorem Sound.returns (h : Sound s) {ok : Bool} (hOk : ok = true → s.sends ∈ s.delivered)
    (connection : Option Nat) : Sound { s.returns ok with connection } := by
  have hLess : ∀ k ∈ s.delivered, k < s.sends + 1 := by
    intro k hk
    have := h.issued k hk
    unfold GipsTransport.issued at this
    split at this <;> omega
  refine ⟨h.ordered, hLess, fun c hCaching => (by cases hCaching),
    fun k hk => Nat.lt_succ_of_lt (h.flushed k hk), fun hOpen => ?_⟩
  obtain ⟨q, hQueue⟩ := h.queue hOpen
  refine ⟨q, hQueue.frame hQueue.line rfl (Nat.le_succ _) (fun m hm => ?_) fun m hm => ?_⟩
  · show m ∈ if ok then s.accepted ++ [s.sends] else s.accepted
    split
    · exact List.mem_append_left _ hm
    · exact hm
  · have hm : m ∈ if ok then s.accepted ++ [s.sends] else s.accepted := hm
    split at hm
    · rename_i hTrue
      rcases List.mem_append.mp hm with hOld | hNew
      · exact .inl hOld
      · exact .inr (List.mem_singleton.mp hNew ▸ hOk hTrue)
    · exact .inl hm

theorem Sound.failed (h : Sound s) : Sound (s.returns false) :=
  h.returns (fun hFalse : false = true => by cases hFalse) s.connection

theorem Sound.within (h : Sound s) {sender : Sender} (hBefore : s.issued = s.sends)
    (hAfter : ∀ c, sender ≠ .caching c) (connection : Option Nat) :
    Sound { s with sender, connection } := by
  refine ⟨h.ordered, fun k hk => ?_, fun c hCaching => absurd hCaching (hAfter c), h.flushed,
    fun hOpen => ?_⟩
  · have hIssued : GipsTransport.issued { s with sender, connection } = s.sends := by
      unfold GipsTransport.issued
      split
      · rename_i c hCaching
        exact absurd hCaching (hAfter c)
      · rfl
    rw [hIssued, ← hBefore]
    exact h.issued k hk
  · obtain ⟨q, hQueue⟩ := h.queue hOpen
    exact ⟨q, hQueue.frame hQueue.line rfl (Nat.le_refl _) (fun m hm => hm) fun m hm => .inl hm⟩

theorem Sound.check (h : Sound s) : Sound s.check := by
  unfold GipsTransport.check
  split
  · rename_i hIdle
    split
    · exact h.failed
    · refine h.within ?_ (fun c hc => by cases hc) s.connection
      unfold GipsTransport.issued
      rw [hIdle]
  · exact h

theorem Sound.take (h : Sound s) : Sound s.take := by
  unfold GipsTransport.take
  split
  · rename_i hChecked
    have hIssued : s.issued = s.sends := by
      unfold GipsTransport.issued
      rw [hChecked]
    split
    · exact h.failed
    · split
      · exact h.within hIssued (fun c hc => by cases hc) none
      · exact h.within hIssued (fun c hc => by cases hc) s.connection
  · exact h

theorem Sound.recache (h : Sound s) : Sound s.recache := by
  unfold GipsTransport.recache
  split
  · rename_i c hCaching
    exact h.returns (fun _ => h.cached c hCaching) (s.putBack c)
  · exact h

theorem Sound.buffer (h : Sound s) : Sound s.buffer := by
  unfold GipsTransport.buffer
  split
  · rename_i hBuffering
    have hLess : ∀ k ∈ s.delivered, k < s.sends := by
      intro k hk
      have := h.issued k hk
      unfold GipsTransport.issued at this
      rw [hBuffering] at this
      exact this
    refine ⟨h.ordered, fun k hk => Nat.lt_succ_of_lt (hLess k hk), fun c hc => (by cases hc),
      fun k hk => ?_, fun hOpen => ?_⟩
    · have hk : k ∈ GipsTransport.frames { s with acceptor := s.acceptor.push s.sends } := hk
      rw [frames_push] at hk
      exact Nat.lt_succ_of_lt (h.flushed k hk)
    obtain ⟨q, hQueue⟩ := h.queue hOpen
    refine ⟨q ++ [s.sends], hQueue.line.push s.sends, ?_, fun k hk => ?_, fun m hm => ?_⟩
    · refine List.pairwise_append.mpr ⟨hQueue.sorted, List.pairwise_singleton _ _, ?_⟩
      intro a ha b hb
      rw [List.mem_singleton.mp hb]
      exact (hQueue.waits a ha).1
    · show k < s.sends + 1 ∧ k ∈ s.accepted ++ [s.sends] ∧ k ∉ s.delivered
      rcases List.mem_append.mp hk with hOld | hNew
      · obtain ⟨hLt, hMem, hNot⟩ := hQueue.waits k hOld
        exact ⟨by omega, List.mem_append_left _ hMem, hNot⟩
      · rw [List.mem_singleton.mp hNew]
        exact ⟨by omega, by simp, fun hk => Nat.lt_irrefl _ (hLess _ hk)⟩
    · have hm : m ∈ s.accepted ++ [s.sends] := hm
      rcases List.mem_append.mp hm with hOld | hNew
      · exact (hQueue.covers m hOld).imp_right (List.mem_append_left _)
      · exact .inr (List.mem_append_right _ hNew)
  · exact h

theorem Sound.reply (h : Sound s) (ok : Bool) (hRight : Right s (.reply ok)) : Sound (s.reply ok) := by
  have hOrder : (s.reply ok).delivered.Pairwise (· < ·) := hRight.order
  revert hOrder
  unfold GipsTransport.reply
  split
  · rename_i c hReplying
    have hLess : ∀ k ∈ s.delivered, k < s.sends := by
      intro k hk
      have := h.issued k hk
      unfold GipsTransport.issued at this
      rw [hReplying] at this
      exact this
    split
    · intro hOrder
      refine ⟨hOrder, fun k hk => ?_, fun _ _ => List.mem_append_right _ (List.mem_singleton_self _),
        h.flushed, fun hOpen => ?_⟩
      · have hk : k ∈ s.delivered ++ [s.sends] := hk
        show k < s.sends + 1
        rcases List.mem_append.mp hk with hOld | hNew
        · exact Nat.lt_succ_of_lt (hLess k hOld)
        · rw [List.mem_singleton.mp hNew]
          omega
      · obtain ⟨q, hQueue⟩ := h.queue hOpen
        refine ⟨q, hQueue.line, hQueue.sorted, fun k hk => ?_, fun m hm => ?_⟩
        · obtain ⟨hLt, hMem, hNot⟩ := hQueue.waits k hk
          refine ⟨hLt, hMem, fun hk => ?_⟩
          rcases List.mem_append.mp hk with hOld | hNew
          · exact hNot hOld
          · exact Nat.ne_of_lt hLt (List.mem_singleton.mp hNew)
        · exact (hQueue.covers m hm).imp_left (List.mem_append_left _)
    · intro _
      exact h.failed
  · intro _
    exact h

theorem Sound.accepting (h : Sound s) (hDelivered : t.delivered = s.delivered)
    (hSender : t.sender = s.sender) (hSends : t.sends = s.sends) (hAccepted : t.accepted = s.accepted)
    (hFrames : ∀ k ∈ t.frames, k < s.sends)
    (hQueue : t.closed = false → s.closed = false ∧
      ∀ q, Line s.acceptor s.pending q → Line t.acceptor t.pending q) : Sound t := by
  have hIssued : t.issued = s.issued := by
    unfold GipsTransport.issued
    rw [hSender, hSends]
  refine ⟨hDelivered ▸ h.ordered, ?_, ?_, hSends.symm ▸ hFrames, fun hOpen => ?_⟩
  · rw [hDelivered, hIssued]
    exact h.issued
  · rw [hSender, hSends, hDelivered]
    exact h.cached
  · obtain ⟨hOpen, hLine⟩ := hQueue hOpen
    obtain ⟨q, hQueue⟩ := h.queue hOpen
    refine ⟨q, hQueue.frame (hLine q hQueue.line) hDelivered (Nat.le_of_eq hSends.symm) ?_ ?_⟩
    · rw [hAccepted]
      exact fun m hm => hm
    · rw [hAccepted]
      exact fun m hm => .inl hm

theorem Sound.accept (h : Sound s) (parsed : Bool) : Sound (s.accept parsed) := by
  unfold GipsTransport.accept
  split
  · rename_i hIdle
    cases parsed with
    | false | true =>
      refine h.accepting rfl rfl rfl rfl (fun k hk => absurd hk List.not_mem_nil)
        fun hOpen => ⟨hOpen, fun q hLine => ?_⟩
      rw [hIdle] at hLine
      exact hLine
  · exact h

theorem Sound.drain (h : Sound s) : Sound s.drain := by
  unfold GipsTransport.drain
  split
  · rename_i hCached
    split
    · rename_i c frame rest hOpen _ hPending
      have hFrames : ∀ k ∈ frame :: rest, k < s.sends := by
        obtain ⟨q, hQueue⟩ := h.queue hOpen
        have hLine := hQueue.line
        rw [hCached] at hLine
        have hLine : q = s.pending := hLine
        rw [← hPending, ← hLine]
        exact fun k hk => (hQueue.waits k hk).1
      refine h.accepting rfl rfl rfl rfl hFrames fun _ => ⟨hOpen, fun q hLine => ?_⟩
      rw [hCached] at hLine
      have hLine : q = s.pending := hLine
      exact ⟨by rw [hLine, hPending, List.append_nil], rfl⟩
    · refine h.accepting rfl rfl rfl rfl (fun k hk => absurd hk List.not_mem_nil)
        fun hOpen => ⟨hOpen, fun q hLine => ?_⟩
      rw [hCached] at hLine
      exact hLine
  · exact h

theorem Sound.requeue (h : Sound s) : Sound s.requeue := by
  unfold GipsTransport.requeue
  split
  · rename_i c frame rest failed since hFlushing
    have hFrames := h.flushed
    unfold GipsTransport.frames at hFrames
    rw [hFlushing] at hFrames
    refine h.accepting rfl rfl rfl rfl (fun k hk => hFrames k (List.mem_cons_of_mem _ hk))
      fun hOpen => ⟨hOpen, fun q hLine => ?_⟩
    rw [hFlushing] at hLine
    obtain ⟨back, hFailed, hPending, hq⟩ := hLine
    have hOpen : s.closed = false := hOpen
    refine ⟨back ++ [frame], ?_, ?_, hq⟩
    · rw [hFailed, List.append_assoc, List.singleton_append]
    · simp [hOpen, hPending]
  · exact h

theorem Sound.close (h : Sound s) : Sound s.close := by
  unfold GipsTransport.close
  split
  · exact h.accepting rfl rfl rfl rfl h.flushed fun hOpen => by cases hOpen
  · exact h

theorem Sound.flushEnd (h : Sound s) (hRight : Right s .flushEnd) : Sound s.flushEnd := by
  have hRestored : ∀ c failed since, s.acceptor = .flushing ⟨c, [], some failed, since⟩ →
      s.closed = false → s.flushEnd.pending = failed ++ since :=
    fun c failed since => hRight.restored c failed since rfl
  revert hRestored
  unfold GipsTransport.flushEnd
  split
  · rename_i c since hFlushing
    intro _
    refine h.accepting rfl rfl rfl rfl (fun k hk => absurd hk List.not_mem_nil)
      fun hOpen => ⟨hOpen, fun q hLine => ?_⟩
    rw [hFlushing] at hLine
    exact hLine.1
  · rename_i c failed since hFlushing
    intro hRestored
    refine h.accepting rfl rfl rfl rfl (fun k hk => absurd hk List.not_mem_nil)
      fun hOpen => ⟨hOpen, fun q hLine => ?_⟩
    rw [hFlushing] at hLine
    obtain ⟨back, -, -, hq⟩ := hLine
    exact hq.trans (hRestored c failed since hFlushing hOpen).symm
  · intro _
    exact h

theorem Sound.flushReply (h : Sound s) (ok : Bool) (hRight : Right s (.flushReply ok)) :
    Sound (s.flushReply ok) := by
  have hOrder : (s.flushReply ok).delivered.Pairwise (· < ·) := hRight.order
  have hFrames := h.flushed
  revert hOrder
  unfold GipsTransport.flushReply
  unfold GipsTransport.frames at hFrames
  split
  · rename_i c frame rest since hFlushing
    rw [hFlushing] at hFrames
    split
    · intro hOrder
      refine ⟨hOrder, fun k hk => ?_, fun c hc => List.mem_append_left _ (h.cached c hc),
        fun k hk => hFrames k (List.mem_cons_of_mem _ hk), fun hOpen => ?_⟩
      · rcases List.mem_append.mp hk with hOld | hNew
        · exact h.issued k hOld
        · rw [List.mem_singleton.mp hNew]
          have := hFrames frame List.mem_cons_self
          show frame < s.issued
          unfold GipsTransport.issued
          split <;> omega
      · obtain ⟨q, hQueue⟩ := h.queue hOpen
        have hLine := hQueue.line
        rw [hFlushing] at hLine
        obtain ⟨rfl, hSince⟩ := hLine
        obtain ⟨hFirst, hRest⟩ := List.pairwise_cons.mp hQueue.sorted
        refine ⟨rest ++ s.pending, ⟨rfl, hSince⟩, hRest, fun k hk => ?_, fun m hm => ?_⟩
        · obtain ⟨hLt, hMem, hNot⟩ := hQueue.waits k (List.mem_cons_of_mem _ hk)
          refine ⟨hLt, hMem, fun hk' => ?_⟩
          rcases List.mem_append.mp hk' with hOld | hNew
          · exact hNot hOld
          · exact Nat.ne_of_gt (hFirst k hk) (List.mem_singleton.mp hNew)
        · rcases hQueue.covers m hm with hDone | hWaits
          · exact .inl (List.mem_append_left _ hDone)
          · rcases List.mem_cons.mp hWaits with hSame | hRest
            · exact .inl (List.mem_append_right _ (List.mem_singleton.mpr hSame))
            · exact .inr hRest
    · intro _
      refine h.accepting rfl rfl rfl rfl hFrames fun hOpen => ⟨hOpen, fun q hLine => ?_⟩
      rw [hFlushing] at hLine
      obtain ⟨hq, hSince⟩ := hLine
      exact ⟨[], rfl, hSince.symm, by rw [hq, hSince]⟩
  · intro _
    exact h

theorem Sound.step (h : Sound s) {e : Event} (hRight : Right s e) : Sound (step s e) := by
  cases e with
  | check => exact h.check
  | take => exact h.take
  | buffer => exact h.buffer
  | reply ok => exact h.reply ok hRight
  | recache => exact h.recache
  | accept parsed => exact h.accept parsed
  | drain => exact h.drain
  | flushReply ok => exact h.flushReply ok hRight
  | requeue => exact h.requeue
  | flushEnd => exact h.flushEnd hRight
  | shutDown => exact ⟨h.ordered, h.issued, h.cached, h.flushed, fun hOpen =>
      (h.queue hOpen).imp fun q hQueue => ⟨hQueue.line, hQueue.sorted, hQueue.waits, hQueue.covers⟩⟩
  | close => exact h.close

theorem GipsTransport.delivered_step (s : GipsTransport) (e : Event) :
    (step s e).delivered = s.delivered ++ ((s.reaches e).map (·.1)).toList := by
  have hSame : s.delivered = s.delivered ++ ((none : Option (Nat × Nat)).map (·.1)).toList :=
    (List.append_nil _).symm
  cases e with
  | check =>
    show s.check.delivered = _
    unfold GipsTransport.check
    split
    · split <;> exact hSame
    · exact hSame
  | take =>
    show s.take.delivered = _
    unfold GipsTransport.take
    split
    · split
      · exact hSame
      · split <;> exact hSame
    · exact hSame
  | buffer =>
    show s.buffer.delivered = _
    unfold GipsTransport.buffer
    split <;> exact hSame
  | reply ok =>
    show (s.reply ok).delivered = _
    cases ok with
    | false =>
      unfold GipsTransport.reply
      split <;> exact hSame
    | true =>
      unfold GipsTransport.reply
      show _ = s.delivered ++ (s.replies.map (·.1)).toList
      unfold GipsTransport.replies
      cases s.sender with
      | replying c => rfl
      | idle | checked | buffering | caching c => exact hSame
  | recache =>
    show s.recache.delivered = _
    unfold GipsTransport.recache
    split <;> exact hSame
  | accept parsed =>
    show (s.accept parsed).delivered = _
    unfold GipsTransport.accept
    split <;> exact hSame
  | drain =>
    show s.drain.delivered = _
    unfold GipsTransport.drain
    split
    · split <;> exact hSame
    · exact hSame
  | flushReply ok =>
    show (s.flushReply ok).delivered = _
    cases ok with
    | false =>
      unfold GipsTransport.flushReply
      split <;> exact hSame
    | true =>
      show _ = s.delivered ++ (s.flushes.map (·.1)).toList
      unfold GipsTransport.flushReply GipsTransport.flushes
      cases s.acceptor with
      | idle | cached => exact hSame
      | flushing flush =>
        obtain ⟨c, frames, failed, since⟩ := flush
        cases frames with
        | nil => exact hSame
        | cons frame rest =>
          cases failed with
          | none => rfl
          | some failed => exact hSame
  | requeue =>
    show s.requeue.delivered = _
    unfold GipsTransport.requeue
    split <;> exact hSame
  | flushEnd =>
    show s.flushEnd.delivered = _
    unfold GipsTransport.flushEnd
    split <;> exact hSame
  | shutDown => exact hSame
  | close =>
    show s.close.delivered = _
    unfold GipsTransport.close
    split <;> exact hSame

theorem Sound.right_of_none (h : Sound s) {e : Event} (hReaches : s.reaches e = none)
    (hEnd : e ≠ .flushEnd) : Right s e where
  order := by
    rw [s.delivered_step, hReaches, Option.map_none, Option.toList_none, List.append_nil]
    exact h.ordered
  caught frame c hReached := by
    rw [hReaches] at hReached
    cases hReached
  restored c failed since hIs := absurd hIs hEnd

theorem Queue.caught_iff (h : Queue s q) :
    (∀ m ∈ s.accepted, m < s.sends → m ∈ s.delivered) ↔ s.pending = [] ∧ s.frames = [] := by
  rw [← h.line.nil_iff]
  constructor
  · intro hAll
    refine List.eq_nil_iff_forall_not_mem.mpr fun k hk => ?_
    obtain ⟨hLt, hMem, hNot⟩ := h.waits k hk
    exact hNot (hAll k hMem hLt)
  · intro hNil m hm _
    have hCovered := h.covers m hm
    rw [hNil] at hCovered
    exact hCovered.resolve_right List.not_mem_nil

theorem Sound.reply_iff (h : Sound s) : Right s (.reply true) ↔ Meets s (.reply true) := by
  show _ ↔ ∀ c, s.sender = .replying c → s.closed = false → c = s.newest → _
  cases hSender : s.sender with
  | idle | checked | buffering | caching =>
    refine iff_of_true (h.right_of_none ?_ (by decide)) fun c hc => by cases hc
    show s.replies = none
    unfold GipsTransport.replies
    rw [hSender]
  | replying c =>
    have hReaches : s.reaches (.reply true) = some (s.sends, c) := by
      show s.replies = _
      unfold GipsTransport.replies
      rw [hSender]
    have hLess : ∀ k ∈ s.delivered, k < s.sends := by
      intro k hk
      have := h.issued k hk
      unfold GipsTransport.issued at this
      rw [hSender] at this
      exact this
    constructor
    · intro hRight c' hc' hOpen hNewest
      obtain rfl : c = c' := Sender.replying.inj hc'
      obtain ⟨q, hQueue⟩ := h.queue hOpen
      exact hQueue.caught_iff.mp (hRight.caught s.sends c hReaches hOpen hNewest)
    · intro hMeets
      refine ⟨?_, fun frame c' hReached hOpen hNewest => ?_, fun _ _ _ hIs => by cases hIs⟩
      · rw [s.delivered_step, hReaches]
        refine List.pairwise_append.mpr ⟨h.ordered, List.pairwise_singleton _ _, fun a ha b hb => ?_⟩
        rw [List.mem_singleton.mp hb]
        exact hLess a ha
      · rw [hReaches] at hReached
        obtain ⟨rfl, rfl⟩ := Prod.mk.inj (Option.some.inj hReached)
        obtain ⟨q, hQueue⟩ := h.queue hOpen
        exact hQueue.caught_iff.mpr (hMeets c rfl hOpen hNewest)

theorem Sound.caught_flush (h : Sound s) {frame c : Nat}
    (hReached : s.reaches (.flushReply true) = some (frame, c)) (hOpen : s.closed = false) :
    ∀ m ∈ s.accepted, m < frame → m ∈ s.delivered := by
  have hReached : s.flushes = some (frame, c) := hReached
  unfold GipsTransport.flushes at hReached
  split at hReached
  · rename_i c' frame' rest since hFlushing
    obtain ⟨rfl, rfl⟩ := Prod.mk.inj (Option.some.inj hReached)
    obtain ⟨q, hQueue⟩ := h.queue hOpen
    have hLine := hQueue.line
    rw [hFlushing] at hLine
    obtain ⟨rfl, -⟩ := hLine
    intro m hm hLess
    refine (hQueue.covers m hm).resolve_right fun hWaits => ?_
    rcases List.mem_cons.mp hWaits with rfl | hRest
    · exact Nat.lt_irrefl _ hLess
    · exact Nat.lt_asymm hLess ((List.pairwise_cons.mp hQueue.sorted).1 m hRest)
  · cases hReached

theorem GipsTransport.overtaken_eq_false {frame : Nat} :
    s.overtaken frame = false ↔ ∀ k ∈ s.delivered, k < frame := by
  simp [GipsTransport.overtaken]

theorem Sound.flushReply_iff (h : Sound s) :
    Right s (.flushReply true) ↔ Meets s (.flushReply true) := by
  show _ ↔ ∀ frame c, s.reaches (.flushReply true) = some (frame, c) → s.overtaken frame = false
  simp only [GipsTransport.overtaken_eq_false]
  constructor
  · intro hRight frame c hReached k hk
    have hOrder := hRight.order
    rw [s.delivered_step, hReached] at hOrder
    exact (List.pairwise_append.mp hOrder).2.2 k hk frame (List.mem_singleton_self frame)
  · intro hMeets
    cases hReached : s.reaches (.flushReply true) with
    | none => exact h.right_of_none hReached (by decide)
    | some reached =>
      obtain ⟨frame, c⟩ := reached
      refine ⟨?_, fun frame c hReached hOpen _ => h.caught_flush hReached hOpen,
        fun _ _ _ hIs => by cases hIs⟩
      rw [s.delivered_step, hReached]
      refine List.pairwise_append.mpr ⟨h.ordered, List.pairwise_singleton _ _, fun a ha b hb => ?_⟩
      rw [List.mem_singleton.mp hb]
      exact hMeets frame c hReached a ha

theorem Sound.flushEnd_iff (h : Sound s) : Right s .flushEnd ↔ Meets s .flushEnd := by
  have hKeeps : ∀ c failed since, s.acceptor = .flushing ⟨c, [], some failed, since⟩ →
      s.closed = false → ((GipsTransport.step s .flushEnd).pending = failed ++ since ↔ failed.length ≤ 1) := by
    intro c failed since hFlushing hOpen
    obtain ⟨q, hQueue⟩ := h.queue hOpen
    have hLine := hQueue.line
    rw [hFlushing] at hLine
    obtain ⟨back, hFailed, hPending, rfl⟩ := hLine
    rw [List.append_nil] at hFailed
    have hSame : (GipsTransport.step s .flushEnd).pending = s.pending := by
      show s.flushEnd.pending = _
      unfold GipsTransport.flushEnd
      rw [hFlushing]
    rw [hSame, hPending, ← hFailed]
    exact reverse_append_iff hQueue.sorted
  constructor
  · intro hRight c failed since hFlushing hOpen
    exact (hKeeps c failed since hFlushing hOpen).mp
      (hRight.restored c failed since rfl hFlushing hOpen)
  · intro hMeets
    refine ⟨?_, fun frame c hReached => (by cases hReached), fun c failed since _ hFlushing hOpen => ?_⟩
    · rw [s.delivered_step]
      show (s.delivered ++ []).Pairwise _
      rw [List.append_nil]
      exact h.ordered
    · exact (hKeeps c failed since hFlushing hOpen).mpr (hMeets c failed since hFlushing hOpen)

theorem Sound.step_iff (h : Sound s) (e : Event) : Right s e ↔ Meets s e := by
  cases e with
  | check | take | buffer | recache | accept | drain | requeue | shutDown | close =>
    exact iff_of_true (h.right_of_none rfl (by simp)) trivial
  | reply ok =>
    cases ok with
    | false => exact iff_of_true (h.right_of_none rfl (by decide)) trivial
    | true => exact h.reply_iff
  | flushReply ok =>
    cases ok with
    | false => exact iff_of_true (h.right_of_none rfl (by decide)) trivial
    | true => exact h.flushReply_iff
  | flushEnd => exact h.flushEnd_iff

/-- In every run all steps are right exactly if every step meets the condition. -/
theorem transport_iff (es : List Event) :
    History.Each step Right .start es ↔ History.Each step Meets .start es :=
  History.each_congr sound_start (fun _ _ h hRight => h.step hRight) (fun _ e h => h.step_iff e) es

/-- Two frames are pending when the host sends its first message, and the reply with the first of them
fails: they stand in `pending` the other way round. -/
theorem flush_reversed :
    ¬History.Each step Right .start
      [.check, .take, .buffer, .check, .take, .buffer, .accept true, .drain, .flushReply false,
        .requeue, .requeue, .flushEnd] := by
  intro h
  have hRight := (((((((((((h.2).2).2).2).2).2).2).2).2).2).2).1
  exact absurd (hRight.restored 1 [0, 1] [] rfl rfl rfl) (by decide)

end Cronymax.Gips
