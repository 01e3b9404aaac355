import Cronymax.Authority.Sections
import Cronymax.Llm.Sse

/-! The flush of a thread with reflections.  All reflections but the newest one give way to a summary of
them, which stands where the first of them stood.  A summary is no reflection, so that it is not
summarised again. -/

namespace Cronymax.Agent

open Atomic Authority

/-- An access of the session manager: a stream, the thread, or the memory. -/
inductive ManagerAct where
  | stream (request : LlmRequest)
  | writeMemory (space : MemoryNamespaceId) (key value : String)
  | locked (x : Section)

/-- What the session manager acts on. -/
structure ManagerWorld where
  authority : RuntimeAuthority
  streams : List (Except String (List LlmEvent))
  memories : List (MemoryNamespaceId × String × String)

instance : Acts ManagerAct ManagerWorld where
  apply
    | .stream _, w => { w with streams := w.streams.tail }
    | .writeMemory space key value, w => { w with memories := w.memories ++ [(space, key, value)] }
    | .locked x, w => { w with authority := x.apply w.authority }

abbrev ManagerOp := Prog ManagerAct ManagerWorld AuthorityError

def ManagerWorld.thread? (w : ManagerWorld) (sid : SessionId) : Option (List ChatMessage) :=
  (w.authority.inner.snapshot.sessions.lookup sid).map (·.thread)

/-- `SessionManager`, with the memory or without. -/
structure SessionManager where
  memory : Bool

def opensWith (start : String) (m : ChatMessage) : Bool :=
  m.role = .system ∧ start.toList <+: (m.content.getD "").toList

def isReflection (m : ChatMessage) : Bool := opensWith "[REFLECTION]" m

def isSentinel (m : ChatMessage) : Bool := opensWith "[REFLECTION:SUMMARY]" m

/-- Where the reflections of a thread stand. -/
def reflectionIndices (thread : List ChatMessage) : List Nat :=
  thread.zipIdx.filterMap fun l => if isReflection l.1 then some l.2 else none

def decaySummarizePrompt : String :=
  "You are a concise summariser.\n    Output only the summary paragraph — no preamble, no lists, no headings."

/-- `str::trim`. -/
def trimmed (text : String) : String :=
  String.ofList ((text.toList.dropWhile Llm.isWhitespace).rdropWhile Llm.isWhitespace)

/-- The text of a stream. -/
def deltaText : List LlmEvent → String
  | [] => ""
  | .delta content :: events => content ++ deltaText events
  | _ :: events => deltaText events

/-- `llm_summarise_reflections`. -/
def llmSummariseReflections (reflections : List String) (model : String) : ManagerOp String := do
  let combined := "\n\n".intercalate (reflections.mapIdx fun i r => (i + 1).repr ++ ". " ++ r)
  let prompt := "Summarise the following agent self-reflection notes into one concise paragraph " ++
    "that captures the most important insights and lessons. " ++
    "Do not repeat each note verbatim.\n\n" ++ combined
  let w ← Prog.perform (.stream
    ⟨model, [system decaySummarizePrompt, user prompt], [], none, none, none⟩)
  match w.streams.headD (.ok []) with
  | .error _ => pure (" | ".intercalate reflections)
  | .ok events =>
    let summary := trimmed (deltaText events)
    if summary = "" then pure (" | ".intercalate reflections) else pure summary

/-- The message that stands for older reflections. -/
def sentinel (summary : String) : ChatMessage := system ("[REFLECTION:SUMMARY] " ++ summary)

/-- The older reflections go, and the sentinel comes in the place of the first. -/
def compactOlder (older : List Nat) (summary : String) : Bool → List (ChatMessage × Nat) → List ChatMessage
  | _, [] => []
  | inserted, (msg, i) :: rest =>
    if i ∈ older then
      if inserted then compactOlder older summary true rest
      else sentinel summary :: compactOlder older summary true rest
    else msg :: compactOlder older summary inserted rest

/-- `flush_thread` of the authority. -/
def flushThread (sid : SessionId) (thread : List ChatMessage) : ManagerOp Unit := do
  let x : Section := .operation (.flushThread sid thread)
  let w ← Prog.perform (.locked x)
  match w.authority.answer (x.decide w.authority) with
  | .ok _ => pure ()
  | .error e => .fail e

/-- `flush_thread_with_reflections`. -/
def SessionManager.flushThreadWithReflections (m : SessionManager) (sid : SessionId) (runId : RunId)
    (thread : List ChatMessage) (writeNamespace : Option MemoryNamespaceId) (model : String) :
    ManagerOp Unit :=
  let reflections := reflectionIndices thread
  if reflections.length < 2 then flushThread sid thread
  else do
    let older := reflections.dropLast
    let olderTexts := older.map fun i => ((thread[i]?.bind (·.content)).getD "")
    let summary ← llmSummariseReflections olderTexts model
    match writeNamespace, m.memory with
    | some space, true => do
      let key := "reflect/" ++ runId.uuid ++ "/decay"
      let _ ← Prog.perform (.writeMemory space key summary)
      let _ ← Prog.perform (.locked (.operation (.emitForRun runId (.trace runId.uuid (.object
        [("kind", .string "memory_write"), ("namespace", .string space.text), ("key", .string key),
          ("source", .string "reflection_decay")])))))
      flushThread sid (compactOlder older summary false thread.zipIdx)
    | _, _ => flushThread sid (compactOlder older summary false thread.zipIdx)

def reflectionsFrom (k : Nat) (thread : List ChatMessage) : List Nat :=
  (thread.zipIdx k).filterMap fun l => if isReflection l.1 then some l.2 else none

variable {thread thread' : List ChatMessage} {k : Nat}

theorem reflectionIndices_eq : reflectionIndices thread = reflectionsFrom 0 thread := rfl

theorem reflectionsFrom_append :
    reflectionsFrom k (thread ++ thread') =
      reflectionsFrom k thread ++ reflectionsFrom (k + thread.length) thread' := by
  simp [reflectionsFrom, List.zipIdx_append]

theorem reflectionsFrom_cons (m : ChatMessage) :
    reflectionsFrom k (m :: thread) =
      (if isReflection m then [k] else []) ++ reflectionsFrom (k + 1) thread := by
  cases h : isReflection m <;> simp [reflectionsFrom, h]

theorem length_reflectionsFrom : (reflectionsFrom k thread).length = thread.countP isReflection := by
  induction thread generalizing k with
  | nil => rfl
  | cons m thread ih =>
    rw [reflectionsFrom_cons, List.length_append, ih, List.countP_cons]
    cases isReflection m <;> simp [Nat.add_comm]

theorem mem_reflectionsFrom {i : Nat} (h : i ∈ reflectionsFrom k thread) :
    k ≤ i ∧ i < k + thread.length := by
  simp only [reflectionsFrom, List.mem_filterMap, Option.ite_none_right_eq_some, Option.some.injEq] at h
  obtain ⟨⟨m, j⟩, hMem, -, rfl⟩ := h
  exact ⟨List.le_snd_of_mem_zipIdx hMem, List.snd_lt_add_of_mem_zipIdx hMem⟩

theorem mem_reflectionsFrom_iff {l : ChatMessage × Nat} (h : l ∈ thread.zipIdx k) :
    l.2 ∈ reflectionsFrom k thread ↔ isReflection l.1 := by
  induction thread generalizing k with
  | nil => simp at h
  | cons m thread ih =>
    rw [List.zipIdx_cons, List.mem_cons] at h
    rw [reflectionsFrom_cons, List.mem_append]
    rcases h with rfl | h
    · have hNot : k ∉ reflectionsFrom (k + 1) thread := fun hk => by
        have := mem_reflectionsFrom hk
        omega
      cases isReflection m <;> simp [hNot]
    · have hAfter := List.le_snd_of_mem_zipIdx h
      have hNot : l.2 ∉ (if isReflection m then [k] else []) := by
        split <;> simp
        omega
      simp [hNot, ih h]

theorem reflectionsFrom_plain (h : ∀ m ∈ thread, ¬isReflection m) : reflectionsFrom k thread = [] := by
  rw [← List.length_eq_zero_iff, length_reflectionsFrom]
  simpa [List.countP_eq_zero] using h

section Replacement

variable {older : List Nat} {summary : String} {ls rest : List (ChatMessage × Nat)}

theorem compactOlder_kept {inserted : Bool} (h : ∀ l ∈ ls, l.2 ∉ older) :
    compactOlder older summary inserted (ls ++ rest) =
      ls.map (·.1) ++ compactOlder older summary inserted rest := by
  induction ls with
  | nil => rfl
  | cons l ls ih =>
    rw [List.cons_append, compactOlder, if_neg (h l List.mem_cons_self),
      ih fun l' h' => h l' (List.mem_cons_of_mem _ h')]
    rfl

theorem compactOlder_inserted :
    compactOlder older summary true ls = (ls.filter fun l => l.2 ∉ older).map (·.1) := by
  induction ls with
  | nil => rfl
  | cons l ls ih =>
    rw [compactOlder, List.filter_cons]
    by_cases h : l.2 ∈ older <;> simp [h, ih]

end Replacement

theorem isReflection_sentinel (summary : String) : isReflection (sentinel summary) = false := by
  simp [isReflection, opensWith, sentinel, system]

theorem isSentinel_sentinel (summary : String) : isSentinel (sentinel summary) = true := by
  simp [isSentinel, opensWith, sentinel, system]

/-- Neither a reflection nor a sentinel. -/
def isPlain (m : ChatMessage) : Bool := !isReflection m && !isSentinel m

/-- What is stored of a thread with several reflections.  What stands before the first and after the
newest of them stays; a sentinel takes the place of the first, and those in between are gone. -/
structure Decayed (summary : String) (thread stored : List ChatMessage) : Prop where
  parts : ∃ pre first mid newest post,
    thread = pre ++ first :: mid ++ newest :: post ∧
      (∀ m ∈ pre, ¬isReflection m) ∧ isReflection first ∧ isReflection newest ∧
      (∀ m ∈ post, ¬isReflection m) ∧
      stored = pre ++ sentinel summary :: mid.filter (fun m => !isReflection m) ++ newest :: post ∧
      stored.filter isReflection = [newest]
  plain : stored.filter isPlain = thread.filter isPlain
  sentinels : stored.countP isSentinel = thread.countP isSentinel + 1

theorem split_reflections (h : 2 ≤ thread.countP isReflection) :
    ∃ pre first mid newest post,
      thread = pre ++ first :: (mid ++ newest :: post) ∧
        (∀ m ∈ pre, ¬isReflection m) ∧ isReflection first ∧ isReflection newest ∧
        ∀ m ∈ post, ¬isReflection m := by
  obtain ⟨first, hFind⟩ := Option.isSome_iff_exists.mp
    (List.find?_isSome.mpr (List.countP_pos_iff.mp (by omega : 0 < thread.countP isReflection)))
  obtain ⟨hFirst, pre, rest, rfl, hPre⟩ := List.find?_eq_some_iff_append.mp hFind
  have hNone : pre.countP isReflection = 0 := List.countP_eq_zero.mpr (by simpa using hPre)
  rw [List.countP_append, List.countP_cons, hNone, if_pos hFirst] at h
  have hRest : 0 < rest.reverse.countP isReflection := by rw [List.countP_reverse]; omega
  obtain ⟨newest, hFind'⟩ := Option.isSome_iff_exists.mp
    (List.find?_isSome.mpr (List.countP_pos_iff.mp hRest))
  obtain ⟨hNewest, post, mid, hSplit, hPost⟩ := List.find?_eq_some_iff_append.mp hFind'
  refine ⟨pre, first, mid.reverse, newest, post.reverse, ?_, by simpa using hPre, hFirst, hNewest,
    by simpa using hPost⟩
  rw [← List.reverse_reverse rest, hSplit]
  simp

theorem compactOlder_split {pre mid post : List ChatMessage} {first newest : ChatMessage}
    (summary : String) (hPre : ∀ m ∈ pre, ¬isReflection m) (hFirst : isReflection first)
    (hNewest : isReflection newest) (hPost : ∀ m ∈ post, ¬isReflection m) :
    compactOlder (reflectionsFrom 0 (pre ++ first :: (mid ++ newest :: post))).dropLast summary false
        (pre ++ first :: (mid ++ newest :: post)).zipIdx =
      pre ++ sentinel summary :: mid.filter (fun m => !isReflection m) ++ newest :: post := by
  have hOlder : (reflectionsFrom 0 (pre ++ first :: (mid ++ newest :: post))).dropLast =
      pre.length :: reflectionsFrom (pre.length + 1) mid := by
    rw [reflectionsFrom_append, reflectionsFrom_plain hPre, reflectionsFrom_cons, if_pos hFirst,
      reflectionsFrom_append, reflectionsFrom_cons, if_pos hNewest, reflectionsFrom_plain hPost]
    simp only [List.append_nil, Nat.zero_add, List.nil_append, List.singleton_append]
    rw [← List.cons_append, List.dropLast_concat]
  have hMid {i : Nat} (h : i ∈ reflectionsFrom (pre.length + 1) mid) :
      pre.length + 1 ≤ i ∧ i < pre.length + 1 + mid.length := mem_reflectionsFrom h
  rw [hOlder, List.zipIdx_append, compactOlder_kept, List.zipIdx_cons, compactOlder,
    if_pos (by simp), if_neg (by simp), List.zipIdx_append, compactOlder_inserted, List.filter_append]
  · have hKept : ((newest :: post).zipIdx (pre.length + 1 + mid.length)).filter
        (fun l => l.2 ∉ pre.length :: reflectionsFrom (pre.length + 1) mid) =
          (newest :: post).zipIdx (pre.length + 1 + mid.length) := by
      rw [List.filter_eq_self]
      intro l hl
      have hAfter := List.le_snd_of_mem_zipIdx hl
      simp only [List.mem_cons, decide_eq_true_eq, not_or]
      exact ⟨by omega, fun h => by have := hMid h; omega⟩
    have hDropped : (mid.zipIdx (pre.length + 1)).filter
        (fun l => l.2 ∉ pre.length :: reflectionsFrom (pre.length + 1) mid) =
          (mid.zipIdx (pre.length + 1)).filter fun l => !isReflection l.1 := by
      refine List.filter_congr fun l hl => ?_
      have hAfter := List.le_snd_of_mem_zipIdx hl
      have hNot : l.2 ≠ pre.length := by omega
      simp [hNot, mem_reflectionsFrom_iff hl]
    have hFst : ((mid.zipIdx (pre.length + 1)).filter fun l => !isReflection l.1).map (·.1) =
        mid.filter fun m => !isReflection m := by
      conv => rhs; rw [← List.zipIdx_map_fst (pre.length + 1) mid, List.filter_map]
      rfl
    rw [Nat.zero_add, hKept, hDropped, List.map_append, hFst, List.zipIdx_map_fst,
      List.zipIdx_map_fst, List.append_assoc, List.cons_append]
  · intro l hl
    have hBefore := List.snd_lt_add_of_mem_zipIdx hl
    simp only [List.mem_cons, not_or]
    exact ⟨by omega, fun h => by have := hMid h; omega⟩

theorem isSentinel_of_reflection {m : ChatMessage} (h : isReflection m) : isSentinel m = false := by
  rw [Bool.eq_false_iff]
  intro hSentinel
  simp only [isReflection, isSentinel, opensWith, decide_eq_true_eq] at h hSentinel
  have hPrefix := List.prefix_of_prefix_length_le h.2 hSentinel.2 (by decide)
  revert hPrefix
  decide

theorem decayed (summary : String) (h : 2 ≤ thread.countP isReflection) :
    Decayed summary thread
      (compactOlder (reflectionsFrom 0 thread).dropLast summary false thread.zipIdx) := by
  obtain ⟨pre, first, mid, newest, post, rfl, hPre, hFirst, hNewest, hPost⟩ := split_reflections h
  have hNoPre : pre.filter isReflection = [] := List.filter_eq_nil_iff.mpr hPre
  have hNoPost : post.filter isReflection = [] := List.filter_eq_nil_iff.mpr hPost
  have hPlain {m : ChatMessage} (hm : isReflection m) : isPlain m = false := by simp [isPlain, hm]
  have hSummary : isPlain (sentinel summary) = false := by simp [isPlain, isSentinel_sentinel]
  rw [compactOlder_split summary hPre hFirst hNewest hPost]
  refine ⟨⟨pre, first, mid, newest, post, by simp, hPre, hFirst, hNewest, hPost, rfl, ?_⟩, ?_, ?_⟩
  · simp [hNoPre, hNoPost, isReflection_sentinel, hNewest, List.filter_filter]
  · have hMid : (mid.filter fun m => !isReflection m).filter isPlain = mid.filter isPlain := by
      rw [List.filter_filter]
      exact List.filter_congr fun m _ => by simp [isPlain]; tauto
    simp [hMid, hSummary, hPlain hFirst, hPlain hNewest]
  · have hMid : (mid.filter fun m => !isReflection m).countP isSentinel = mid.countP isSentinel := by
      rw [List.countP_filter]
      refine List.countP_congr fun m _ => ?_
      cases hm : isReflection m with
      | true => simp [isSentinel_of_reflection hm]
      | false => simp
    simp [hMid, isSentinel_sentinel, isSentinel_of_reflection hFirst,
      isSentinel_of_reflection hNewest]
    omega

/-- A flush that ends with storing `stored` as the thread of its session, and leaves the thread of every
session before. -/
structure Stores (sid : SessionId) (stored : List ChatMessage) (tr : List (ManagerAct × ManagerWorld)) :
    Prop where
  last : ∃ before w, tr = before ++ [(.locked (.operation (.flushThread sid stored)), w)] ∧
    (∀ e ∈ before, ∀ s, (Acts.apply e.1 e.2).thread? s = e.2.thread? s) ∧
    ∀ s, (Acts.apply (ManagerAct.locked (.operation (.flushThread sid stored))) w).thread? s =
      if s = sid then (w.thread? s).map fun _ => stored else w.thread? s

theorem thread_flushThread (w : ManagerWorld) (sid s : SessionId) :
    (Acts.apply (ManagerAct.locked (.operation (.flushThread sid thread))) w).thread? s =
      if s = sid then (w.thread? s).map fun _ => thread else w.thread? s := by
  simp only [ManagerWorld.thread?, Acts.apply, Section.snapshot_apply, Section.decide, Operation.decide,
    RuntimeAuthority.flushThread]
  rcases eq_or_ne s sid with rfl | hs <;> cases hLookup : w.authority.inner.snapshot.sessions.lookup _ <;>
    simp [RuntimeAuthority.keep, RuntimeAuthority.put, Decision.snapshot, Snapshot.setSession, *]

theorem flushThread_stores {sid : SessionId} {tr : List (ManagerAct × ManagerWorld)}
    {r : Except AuthorityError Unit} (h : Prog.Yields (flushThread sid thread) tr r) :
    Stores sid thread tr := by
  obtain ⟨w, tr', rfl, hRest⟩ := Prog.yields_perform.mp h
  have hEnd : tr' = [] := by
    split at hRest
    · exact (Prog.yields_done.mp hRest).1
    · exact (Prog.yields_fail.mp hRest).1
  subst hEnd
  exact ⟨[], w, rfl, by simp, thread_flushThread w sid⟩

theorem Stores.cons {sid : SessionId} {tr : List (ManagerAct × ManagerWorld)} (h : Stores sid thread tr)
    {e : ManagerAct × ManagerWorld} (he : ∀ s, (Acts.apply e.1 e.2).thread? s = e.2.thread? s) :
    Stores sid thread (e :: tr) := by
  obtain ⟨before, w, rfl, hBefore, hLast⟩ := h.last
  exact ⟨e :: before, w, rfl, List.forall_mem_cons.mpr ⟨he, hBefore⟩, hLast⟩

theorem summarise_yields {reflections : List String} {model : String}
    {tr : List (ManagerAct × ManagerWorld)} {r : Except AuthorityError String}
    (h : Prog.Yields (llmSummariseReflections reflections model) tr r) :
    ∃ request w summary, tr = [(.stream request, w)] ∧ r = .ok summary := by
  obtain ⟨w, tr', rfl, hRest⟩ := Prog.yields_perform.mp h
  split at hRest
  · obtain ⟨rfl, rfl⟩ := Prog.yields_done.mp hRest
    exact ⟨_, w, _, rfl, rfl⟩
  · dsimp only at hRest
    split at hRest
    all_goals
      obtain ⟨rfl, rfl⟩ := Prog.yields_done.mp hRest
      exact ⟨_, w, _, rfl, rfl⟩

section Flush

variable {m m' : SessionManager} {sid : SessionId} {runId runId' : RunId}
  {space space' : Option MemoryNamespaceId} {model model' : String}
  {tr tr' : List (ManagerAct × ManagerWorld)} {r r' : Except AuthorityError Unit}

theorem flush_few (hFew : thread.countP isReflection < 2)
    (h : Prog.Yields (m.flushThreadWithReflections sid runId thread space model) tr r) :
    Stores sid thread tr := by
  rw [← length_reflectionsFrom (k := 0)] at hFew
  rw [SessionManager.flushThreadWithReflections, reflectionIndices_eq] at h
  exact flushThread_stores (by rwa [if_pos hFew] at h)

theorem flush_several (hSeveral : 2 ≤ thread.countP isReflection)
    (h : Prog.Yields (m.flushThreadWithReflections sid runId thread space model) tr r) :
    ∃ summary stored, Decayed summary thread stored ∧ Stores sid stored tr := by
  have hNotFew : ¬(reflectionsFrom 0 thread).length < 2 := by rw [length_reflectionsFrom]; omega
  rw [SessionManager.flushThreadWithReflections, reflectionIndices_eq, if_neg hNotFew] at h
  rcases Prog.yields_bind.mp h with ⟨summary, tr1, tr2, rfl, h1, h2⟩ | ⟨e, -, h1⟩
  · obtain ⟨request, w, -, rfl, -⟩ := summarise_yields h1
    refine ⟨summary, _, decayed summary hSeveral, Stores.cons ?_ fun _ => rfl⟩
    split at h2
    · obtain ⟨w', tr3, rfl, h3⟩ := Prog.yields_perform.mp h2
      obtain ⟨w'', tr4, rfl, h4⟩ := Prog.yields_perform.mp h3
      refine .cons (.cons (flushThread_stores h4) fun s => ?_) fun _ => rfl
      simp only [ManagerWorld.thread?, Acts.apply, Section.snapshot_apply]
      rfl
    · exact flushThread_stores h2
  · obtain ⟨_, _, _, _, hOk⟩ := summarise_yields h1
    cases hOk

/-- A flush stores a thread with fewer than two reflections as it is and lets the older ones of a longer
thread decay.  What is stored, with whatever but reflections is said after it, is stored as it is from
then on. -/
theorem flush_decays (h : Prog.Yields (m.flushThreadWithReflections sid runId thread space model) tr r) :
    ∃ stored, Stores sid stored tr ∧
      (thread.countP isReflection < 2 → stored = thread) ∧
      (2 ≤ thread.countP isReflection → ∃ summary, Decayed summary thread stored) ∧
      ∀ (m' : SessionManager) (runId' : RunId) (space' : Option MemoryNamespaceId) (model' : String)
        (more : List ChatMessage) (tr' : List (ManagerAct × ManagerWorld))
        (r' : Except AuthorityError Unit), (∀ x ∈ more, ¬isReflection x) →
        Prog.Yields (m'.flushThreadWithReflections sid runId' (stored ++ more) space' model') tr' r' →
        Stores sid (stored ++ more) tr' := by
  have hAgain {stored more : List ChatMessage} (hFew : stored.countP isReflection < 2)
      (hMore : ∀ x ∈ more, ¬isReflection x) : (stored ++ more).countP isReflection < 2 := by
    rw [List.countP_append, List.countP_eq_zero.mpr hMore]
    exact hFew
  rcases Nat.lt_or_ge (thread.countP isReflection) 2 with hFew | hSeveral
  · exact ⟨thread, flush_few hFew h, fun _ => rfl, fun hSeveral => by omega,
      fun _ _ _ _ _ _ _ hMore => flush_few (hAgain hFew hMore)⟩
  · obtain ⟨summary, stored, hDecayed, hStores⟩ := flush_several hSeveral h
    have hOne : stored.countP isReflection < 2 := by
      obtain ⟨_, _, _, _, _, -, -, -, -, -, -, hNewest⟩ := hDecayed.parts
      simp [List.countP_eq_length_filter, hNewest]
    exact ⟨stored, hStores, fun hFew => by omega, fun _ => ⟨summary, hDecayed⟩,
      fun _ _ _ _ _ _ _ hMore => flush_few (hAgain hOne hMore)⟩

end Flush

def reflectedThread : List ChatMessage :=
  [sentinel "first", system "[REFLECTION] second", user "Go on.", system "[REFLECTION] third"]

def reflectedWorld : ManagerWorld :=
  ⟨.start .empty .empty [] [], [.ok [.delta "shorter"]], []⟩

/-- Three reflections, the later two of which stay beside the summary of the first. -/
theorem reflectedThread_decays : 2 ≤ reflectedThread.countP isReflection ∧ ∃ summary stored,
    Decayed summary reflectedThread stored ∧
      Stores ⟨"s"⟩ stored (((⟨false⟩ : SessionManager).flushThreadWithReflections ⟨"s"⟩ ⟨"r"⟩
        reflectedThread none "m").trace reflectedWorld) := by
  have hSeveral : 2 ≤ reflectedThread.countP isReflection := by decide
  obtain ⟨stored, hStores, -, hDecays, -⟩ := flush_decays (Prog.trace_yields
    ((⟨false⟩ : SessionManager).flushThreadWithReflections ⟨"s"⟩ ⟨"r"⟩ reflectedThread none "m")
    reflectedWorld)
  obtain ⟨summary, hDecayed⟩ := hDecays hSeveral
  exact ⟨hSeveral, summary, stored, hDecayed, hStores⟩

end Cronymax.Agent
