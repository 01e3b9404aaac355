import Cronymax.Agent.Conversation
import Cronymax.Agent.Tasks

/-! What a compaction keeps of a thread.  The turns that stay are found from the end of the thread, where a
turn counts only when an assistant's message comes right after the user's; when too few count, nothing
stays. -/

namespace Cronymax.Agent.Compaction

open Atomic Authority

/-- The system messages at the start of a thread. -/
def systems (thread : List ChatMessage) : List ChatMessage := thread.takeWhile (·.role = .system)

def afterSystems (thread : List ChatMessage) : List ChatMessage := thread.dropWhile (·.role = .system)

theorem systems_append (thread : List ChatMessage) : systems thread ++ afterSystems thread = thread :=
  List.takeWhile_append_dropWhile

/-- Every assistant message with calls is followed by their results. -/
inductive Blocks : List ChatMessage → Prop where
  | nil : Blocks []
  | block {thread : List ChatMessage} {m : ChatMessage} {results : List ChatMessage}
      (h : Blocks thread) (hBlock : Block m results) : Blocks (thread ++ m :: results)

/-- The threads of a session: after the system messages at its start a thread goes on with a user
message. -/
structure Conversation (thread : List ChatMessage) : Prop where
  blocks : Blocks thread
  opens : ∀ m ∈ (afterSystems thread).head?, m.role = .user

/-- The number of the user's messages. -/
def turns (thread : List ChatMessage) : Nat := thread.countP (·.role = .user)

/-- How many messages of the user are followed by one of the assistant. -/
@[grind =] def followed : List ChatMessage → Nat
  | [] => 0
  | m :: rest =>
    followed rest + if m.role = .user ∧ (rest.head?.map (·.role)) = some .assistant then 1 else 0

/-- The message that stands for what has been summarised. -/
def summaryMessage (summary : String) : ChatMessage := system ("[Conversation summary]\n" ++ summary)

/-- The recent turns stay whole, behind the system messages and the summary. -/
structure Kept (thread : List ChatMessage) (recencyTurns : Nat) (result : CompactionResult) : Prop where
  recent : result.compacted = true → ∃ older first later summary,
    thread = systems thread ++ older ++ first :: later ∧
      result.thread = systems thread ++ summaryMessage summary :: first :: later ∧
      first.role = .user ∧ min recencyTurns (turns thread) ≤ turns (first :: later) ∧
      Answers (first :: later)
  newest : ∀ pre m post, thread = pre ++ m :: post → m.role = .user → turns post = 0 →
    (m :: post) <:+ result.thread
  short : turns thread ≤ recencyTurns → result.thread = thread

/-- The thread is not compacted, since it is small or there is no summary, or enough of its turns go on
with an assistant's message. -/
def Meets (thread : List ChatMessage) (h : Host) (thresholdPct recencyTurns : Nat) : Prop :=
  tokenEstimate thread < contextWindowTokens * thresholdPct / 100 ∨
    afterSystems thread = [] ∨
    (∃ e, h.world.stream.bind (collectText "") = .error e) ∨
    recencyTurns ≤ followed thread

variable {thread older later : List ChatMessage} {m first : ChatMessage} {n : Nat}

theorem Blocks.wellFormed (h : Blocks thread) : WellFormed thread := by
  induction h with
  | nil => exact .nil
  | block _ hBlock ih => exact ih.append hBlock

theorem Blocks.suffix (h : Blocks thread) (hSplit : thread = older ++ first :: later)
    (hRole : first.role ≠ .tool) : Blocks (first :: later) := by
  induction h generalizing later with
  | nil => simp at hSplit
  | @block thread m results h hBlock ih =>
    obtain ⟨mid, hThread, rfl⟩ | ⟨rfl, rfl, rfl⟩ | ⟨mid, rfl, rfl⟩ := Atomic.split_cases hSplit
    · exact (ih hThread).block hBlock
    · exact Blocks.nil.block hBlock
    · exact absurd (hBlock.tools first (by simp)) hRole

/-- In such a thread the six messages of a reflection may begin with any one that is no result. -/
theorem Blocks.steady_reflection {l : ReactLoop} (h : Blocks l.history) (cfg : ReflectionConfig) (w : World) :
    Steady (.stream l.runId .reflection (l.reflectionRequest cfg)) w ↔
      ∀ first ∈ (l.history.drop (l.history.length - 6)).head?, first.role ≠ .tool := by
  have hRequest : (l.reflectionRequest cfg).messages.dropLast =
      l.history.drop (l.history.length - 6) := List.dropLast_concat
  change Answers _ ↔ _
  rw [hRequest]
  cases hWindow : l.history.drop (l.history.length - 6) with
  | nil => exact iff_of_true WellFormed.nil.answers nofun
  | cons first later =>
    refine ⟨fun hAnswers m hm hRole => ?_, fun hFirst => ?_⟩
    · obtain rfl := Option.some.inj hm
      -- no message is left before the first one that could call it
      obtain ⟨caller, hCaller, -⟩ := hAnswers [] first later rfl hRole
      cases hCaller
    · have hSplit := (List.take_append_drop (l.history.length - 6) l.history).symm
      rw [hWindow] at hSplit
      exact (h.suffix hSplit (hFirst first rfl)).wellFormed.answers

theorem turns_append (older later : List ChatMessage) :
    turns (older ++ later) = turns older + turns later := List.countP_append

theorem turns_cons_user (hRole : m.role = .user) (rest : List ChatMessage) :
    turns (m :: rest) = turns rest + 1 := by
  simp [turns, hRole]

theorem followed_le_turns (thread : List ChatMessage) : followed thread ≤ turns thread := by
  induction thread with
  | nil => exact Nat.le_refl 0
  | cons m rest ih =>
    rw [followed, turns, List.countP_cons]
    unfold turns at ih
    split
    · rename_i hFollowed
      rw [if_pos (by simpa using hFollowed.1)]
      exact Nat.add_le_add_right ih 1
    · exact ih.trans (Nat.le_add_right _ _)

theorem followed_append_of_none (hNone : ∀ m ∈ older, m.role ≠ .user) (later : List ChatMessage) :
    followed (older ++ later) = followed later := by
  induction older with
  | nil => rfl
  | cons m older ih =>
    rw [List.cons_append, followed, if_neg fun h => hNone m List.mem_cons_self h.1]
    exact ih fun m hm => hNone m (List.mem_cons_of_mem _ hm)

theorem followed_le_append (older later : List ChatMessage) :
    followed later ≤ followed (older ++ later) := by
  induction older with
  | nil => exact Nat.le_refl _
  | cons m older ih =>
    rw [List.cons_append, followed]
    exact ih.trans (Nat.le_add_right _ _)

theorem suffix_of_newest {pre post : List ChatMessage} (hSplit : thread = older ++ first :: later)
    (hRole : first.role = .user) (hNewest : thread = pre ++ m :: post) (hUser : m.role = .user)
    (hNone : turns post = 0) : (m :: post) <:+ (first :: later) := by
  rw [hNewest] at hSplit
  obtain ⟨mid, rfl, rfl⟩ | ⟨rfl, rfl, rfl⟩ | ⟨mid, rfl, rfl⟩ := Atomic.split_cases hSplit
  · exact ⟨first :: mid, rfl⟩
  · exact List.suffix_refl _
  · rw [turns_append, turns_cons_user hRole] at hNone
    exact absurd hNone (by omega)

theorem recencyStart_spec (n start : Nat) (left seen : List ChatMessage) :
    (∃ older first later, left.reverse ++ seen = older ++ first :: later ∧ first.role = .user ∧
      n ≤ followed (first :: later) ∧
      recencyStart n start (followed seen) (seen.head?.map (·.role)) left = older.length) ∨
    (recencyStart n start (followed seen) (seen.head?.map (·.role)) left = start ∧
      ∀ m ∈ left, m.role = .user → followed (left.reverse ++ seen) < n) := by
  induction left generalizing seen with
  | nil => exact .inr ⟨rfl, fun _ h => nomatch h⟩
  | cons msg rest ih =>
    have hNext := ih (msg :: seen)
    have hSame : rest.reverse ++ msg :: seen = (msg :: rest).reverse ++ seen := by simp
    rw [hSame] at hNext
    rw [recencyStart]
    split
    · rename_i hUser
      have hCount : (if seen.head?.map (·.role) = some .assistant then followed seen + 1
          else followed seen) = followed (msg :: seen) := by
        rw [followed]
        split <;> simp [*]
      simp only [hCount]
      split
      · rename_i hEnough
        exact .inl ⟨rest.reverse, msg, seen, by simp, hUser, hEnough, by simp⟩
      · rename_i hFew
        refine hNext.imp_right fun ⟨hScan, hNone⟩ => ⟨hScan, fun m hm hRole => ?_⟩
        by_cases hBefore : ∃ m ∈ rest, m.role = .user
        · obtain ⟨m, hm, hRole⟩ := hBefore
          exact hNone m hm hRole
        · rw [← hSame, followed_append_of_none fun m hm hRole => hBefore ⟨m, by simpa using hm, hRole⟩]
          exact Nat.lt_of_not_le hFew
    · rename_i hOther
      have hCount : followed seen = followed (msg :: seen) := by
        rw [followed, if_neg (fun h => hOther h.1), Nat.add_zero]
      rw [hCount]
      refine hNext.imp_right fun ⟨hScan, hNone⟩ => ⟨hScan, fun m hm hRole => ?_⟩
      rcases List.mem_cons.mp hm with rfl | hm
      · exact absurd hRole hOther
      · exact hNone m hm hRole

theorem split_cases (h : Conversation thread) (hRest : afterSystems thread ≠ []) (n : Nat) :
    (∃ older first later, thread = systems thread ++ older ++ first :: later ∧
      first.role = .user ∧ n ≤ followed (first :: later) ∧
      splitThread thread n = ((systems thread).length,
        (systems thread ++ older).length)) ∨
    (followed thread < n ∧
      splitThread thread n = ((systems thread).length, thread.length)) := by
  have hSpec := recencyStart_spec n thread.length thread.reverse []
  rw [List.reverse_reverse, List.append_nil] at hSpec
  have hJoin := systems_append thread
  rcases hSpec with ⟨older, first, later, hSplit, hUser, hEnough, hScan⟩ | ⟨hScan, hFew⟩
  · -- a user message is not among the system messages at the start
    have hSystems : systems thread = systems older := by
      rw [hSplit, systems, takeWhile_stop (by simp [hUser])]
      rfl
    have hOlder : systems thread ++ afterSystems older = older := by
      rw [hSystems, systems_append]
    refine .inl ⟨afterSystems older, first, later, by rw [hOlder]; exact hSplit, hUser, hEnough, ?_⟩
    have hScan : recencyStart n thread.length 0 none thread.reverse = older.length := hScan
    have hLe : (systems thread).length ≤ older.length := by
      rw [hSystems]
      exact (List.takeWhile_prefix _).length_le
    rw [splitThread, hScan, hOlder]
    exact congrArg (Prod.mk _) (max_eq_left hLe)
  · obtain ⟨m, rest, hCons⟩ := List.exists_cons_of_ne_nil hRest
    have hUser : m.role = .user := h.opens m (by rw [hCons]; rfl)
    have hMem : m ∈ thread := by
      rw [← hJoin, hCons]
      simp
    refine .inr ⟨hFew m (by simpa using hMem) hUser, ?_⟩
    have hScan : recencyStart n thread.length 0 none thread.reverse = thread.length := hScan
    have hLe : (systems thread).length ≤ thread.length := (List.takeWhile_prefix _).length_le
    rw [splitThread, hScan]
    exact congrArg (Prod.mk _) (max_eq_left hLe)

theorem take_systems (thread : List ChatMessage) :
    thread.take (systems thread).length = systems thread :=
  List.prefix_iff_eq_take.mp (List.takeWhile_prefix _) |>.symm

theorem drop_systems (thread : List ChatMessage) :
    thread.drop (systems thread).length = afterSystems thread := by
  have hJoin := systems_append thread
  exact (List.drop_left' rfl).symm.trans (congrArg _ hJoin) |>.symm

/-- What compaction makes of a thread, given the answer of the model. -/
def resultOf (thread : List ChatMessage) (answer : Except String String) (thresholdPct recencyTurns : Nat) :
    CompactionResult :=
  if tokenEstimate thread < contextWindowTokens * thresholdPct / 100 then ⟨thread, false, none⟩
  else
    let (prefixEnd, start) := splitThread thread recencyTurns
    if (thread.take start).drop prefixEnd = [] then ⟨thread, false, none⟩
    else
      match answer with
      | .error _ => ⟨thread, false, none⟩
      | .ok summary => ⟨compactedThread thread prefixEnd start summary, true, some summary⟩

theorem run_maybeCompact (thread : List ChatMessage) (model prompt : String) (pct n : Nat) (host : Host) :
    ((maybeCompact thread model prompt pct n).run host).1 =
      .ok (resultOf thread (host.world.stream.bind (collectText "")) pct n) := by
  unfold maybeCompact resultOf
  split
  · rfl
  · dsimp only
    split
    · rfl
    · rw [Prog.perform_bind, Prog.run]
      cases host.world.stream.bind (collectText "") <;> rfl

theorem kept_same (thread : List ChatMessage) (n : Nat) : Kept thread n ⟨thread, false, none⟩ where
  recent h := nomatch h
  newest pre _ _ hSplit _ _ := ⟨pre, hSplit.symm⟩
  short _ := rfl

theorem kept_of_enough (h : Conversation thread)
    (hSplit : thread = systems thread ++ older ++ first :: later) (hRole : first.role = .user)
    (hEnough : n ≤ followed (first :: later)) (hSome : older ≠ []) (summary : String) :
    Kept thread n
      ⟨systems thread ++ summaryMessage summary :: first :: later, true, some summary⟩ where
  recent _ := by
    have hNot : first.role ≠ .tool := by
      rw [hRole]
      nofun
    have hTurns := hEnough.trans (followed_le_turns _)
    exact ⟨older, first, later, summary, hSplit, rfl, hRole, (Nat.min_le_left _ _).trans hTurns,
      (h.blocks.suffix hSplit hNot).wellFormed.answers⟩
  newest pre m post hNewest hUser hNone := by
    refine (suffix_of_newest hSplit hRole hNewest hUser hNone).trans ?_
    exact ⟨systems thread ++ [summaryMessage summary], by simp⟩
  short hShort := by
    -- the older part would start with a user message, and so hold a turn
    have hDrop : afterSystems thread = older ++ first :: later := by
      have hJoin := systems_append thread
      rw [List.append_assoc] at hSplit
      exact List.append_cancel_left (hJoin.trans hSplit)
    obtain ⟨m, rest, rfl⟩ := List.exists_cons_of_ne_nil hSome
    have hUser : m.role = .user := h.opens m (by rw [hDrop]; rfl)
    have hTurns := congrArg turns hSplit
    rw [turns_append, turns_append, turns_cons_user hUser] at hTurns
    have hLater := hEnough.trans (followed_le_turns _)
    omega

theorem resultOf_kept_iff (h : Conversation thread) (answer : Except String String) (pct n : Nat) :
    Kept thread n (resultOf thread answer pct n) ↔
      tokenEstimate thread < contextWindowTokens * pct / 100 ∨ afterSystems thread = [] ∨
        (∃ e, answer = .error e) ∨ n ≤ followed thread := by
  unfold resultOf
  split
  · rename_i hSmall
    exact iff_of_true (kept_same thread n) (.inl hSmall)
  · rename_i hLarge
    rw [or_iff_right hLarge]
    by_cases hRest : afterSystems thread = []
    · have hNone : (thread.take (splitThread thread n).2).drop (splitThread thread n).1 = [] := by
        have hJoin := systems_append thread
        rw [hRest, List.append_nil] at hJoin
        refine List.drop_eq_nil_of_le ?_
        show _ ≤ (systems thread).length
        rw [hJoin]
        exact List.length_take_le' _ _
      simp only [hNone, if_true]
      exact iff_of_true (kept_same thread n) (.inl hRest)
    · rw [or_iff_right hRest]
      rcases split_cases h hRest n with ⟨older, first, later, hSplit, hRole, hEnough, hIndices⟩ |
        ⟨hFew, hIndices⟩
      · have hTake : thread.take (systems thread ++ older).length = systems thread ++ older :=
          (congrArg (List.take _) hSplit).trans (List.take_left' rfl)
        have hDrop : thread.drop (systems thread ++ older).length = first :: later :=
          (congrArg (List.drop _) hSplit).trans (List.drop_left' rfl)
        have hTurns : n ≤ followed thread := by
          rw [hSplit]
          exact hEnough.trans (followed_le_append _ _)
        refine iff_of_true ?_ (.inr hTurns)
        simp only [hIndices, hTake, hDrop, compactedThread, take_systems, List.drop_left']
        split
        · exact kept_same thread n
        · rename_i hSome
          cases answer with
          | error e => exact kept_same thread n
          | ok summary => exact kept_of_enough h hSplit hRole hEnough hSome summary
      · -- nothing recent is found, and the summary takes the place of all turns
        have hNot : ¬n ≤ followed thread := Nat.not_le_of_lt hFew
        simp only [hIndices, List.take_length, drop_systems, if_neg hRest, compactedThread,
          List.drop_length, take_systems, or_iff_left hNot]
        cases answer with
        | error e => exact iff_of_true (kept_same thread n) ⟨e, rfl⟩
        | ok summary =>
          refine iff_of_false (fun hKept => ?_) nofun
          obtain ⟨older, first, later, summary', -, hThread, -⟩ := hKept.recent rfl
          have hLength := congrArg List.length hThread
          simp at hLength

/-- A compaction keeps the recent turns of a conversation exactly when the condition is met. -/
theorem recent_turns_kept_iff (h : Conversation thread) (model prompt : String) (pct n : Nat)
    (host : Host) : ∃ result, ((maybeCompact thread model prompt pct n).run host).1 = .ok result ∧
      (Kept thread n result ↔ Meets thread host pct n) :=
  ⟨_, run_maybeCompact thread model prompt pct n host, resultOf_kept_iff h _ pct n⟩

theorem size_replicate (n : Nat) : (String.ofList (List.replicate n 'a')).utf8ByteSize = n := by
  induction n with
  | zero => rfl
  | succ n ih =>
    rw [List.replicate_succ, String.ofList_cons, String.utf8ByteSize_append, ih, Nat.add_comm]
    rfl

def reading (bytes : Nat) : List ChatMessage :=
  [user (String.ofList (List.replicate bytes 'a')), assistantText "Noted.", user "Who wrote it?",
    assistantText "It does not say."]

theorem block_alone (hRole : m.role = .user ∨ m.role = .assistant) (hCalls : m.toolCalls = []) :
    Block m [] where
  role h := by
    rw [h] at hRole
    rcases hRole with hRole | hRole <;> cases hRole
  tools _ h := nomatch h
  answered id h := by
    obtain ⟨-, call, hCall, -⟩ := h
    rw [hCalls] at hCall
    cases hCall
  answers _ h := nomatch h

section Reading

variable (bytes : Nat)

theorem reading_conversation : Conversation (reading bytes) where
  blocks := (((Blocks.nil.block (block_alone (.inl rfl) rfl)).block
    (block_alone (.inr rfl) rfl)).block (block_alone (.inl rfl) rfl)).block
      (block_alone (.inr rfl) rfl)
  opens m h := by
    obtain rfl := Option.mem_some_iff.mp h
    rfl

theorem reading_tokens : bytes / 4 ≤ tokenEstimate (reading bytes) := by
  have hSize : tokenEstimate (reading bytes) =
      (String.ofList (List.replicate bytes 'a')).utf8ByteSize / 4 +
        tokenEstimate [assistantText "Noted.", user "Who wrote it?", assistantText "It does not say."] := rfl
  rw [hSize, size_replicate]
  exact Nat.le_add_right _ _

theorem reading_followed : followed (reading bytes) = 2 := rfl

theorem reading_afterSystems : afterSystems (reading bytes) = reading bytes := rfl

end Reading

def summarising : Host := ⟨streaming [.delta "A document was read.", .done .stop], ∅⟩

theorem reading_summarised (summary : String) :
    (resultOf (reading 409600) (.ok summary) defaultThresholdPct 1).compacted = true := by
  have hLarge : ¬tokenEstimate (reading 409600) < contextWindowTokens * defaultThresholdPct / 100 :=
    fun hSmall => absurd ((reading_tokens 409600).trans_lt hSmall) (by decide)
  rw [resultOf, if_neg hLarge]
  rfl

/-- The last turn is to stay, and does, behind a summary of the first. -/
theorem recent_turns_kept_one : ∃ result,
    ((maybeCompact (reading 409600) "model" "Summarise." defaultThresholdPct 1).run summarising).1 =
      .ok result ∧ result.compacted = true ∧ Kept (reading 409600) 1 result := by
  obtain ⟨result, hRun, hKept⟩ :=
    recent_turns_kept_iff (reading_conversation 409600) "model" "Summarise." defaultThresholdPct 1 summarising
  refine ⟨result, hRun, ?_, hKept.mpr (.inr (.inr (.inr ?_)))⟩
  · rw [run_maybeCompact] at hRun
    rw [← Except.ok.inj hRun]
    exact reading_summarised _
  · rw [reading_followed]
    decide

/-- Six turns are to stay; there are two, and neither does. -/
theorem recent_turns_summarised : ¬∃ result,
    ((maybeCompact (reading 409600) "model" "Summarise." defaultThresholdPct defaultRecencyTurns).run
      summarising).1 = .ok result ∧ Kept (reading 409600) defaultRecencyTurns result := by
  rintro ⟨result, hRun, hKept⟩
  rw [run_maybeCompact] at hRun
  obtain rfl := Except.ok.inj hRun
  rcases (resultOf_kept_iff (reading_conversation _) _ _ _).mp hKept with hSmall | hNone | ⟨e, hFails⟩ |
    hEnough
  · exact absurd ((reading_tokens 409600).trans_lt hSmall) (by decide)
  · rw [reading_afterSystems] at hNone
    cases hNone
  · cases hFails
  · rw [reading_followed] at hEnough
    exact absurd hEnough (by decide)

end Cronymax.Agent.Compaction
