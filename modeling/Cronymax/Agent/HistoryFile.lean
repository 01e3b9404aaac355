import Mathlib.Data.Bool.AllAny
import Cronymax.Agent.Tasks
import Cronymax.Atomic.History
import Cronymax.Llm.Sse

/-! The bytes of a history file: `append_turns`, which may be cut off at any byte, and `load_history`, which
skips what it cannot parse.  A record that is cut off runs together with whatever is appended next, so that
the records of a run come back as long as none is written behind such a fragment. -/

namespace Cronymax.Agent.HistoryFile

open Atomic Authority

/-- `serde_json` for the messages of a history file. -/
structure Serde where
  toString : ChatMessage → List Char
  fromStr : List Char → Option ChatMessage

variable (c : Serde)

/-- The bytes of one record, without the end of its line. -/
def textBytes (m : ChatMessage) : List UInt8 := Utf8.encode (c.toString m)

/-- A line of the file. -/
def record (m : ChatMessage) : List UInt8 := textBytes c m ++ [10]

/-- The bytes of an append. -/
@[grind =] def records (turns : List ChatMessage) : List UInt8 := turns.flatMap (record c)

def isFeed (b : UInt8) : Bool := b = 10

/-- `BufRead::lines` takes a return before the feed off. -/
def stripReturn (line : List UInt8) : List UInt8 :=
  if line.getLast? = some 13 then line.dropLast else line

/-- `BufRead::lines`, before the lines are decoded. -/
def rawLines (file : List UInt8) : List (List UInt8) :=
  (Framing.cutAt isFeed file).1.map stripReturn ++
    if (Framing.cutAt isFeed file).2 = [] then [] else [(Framing.cutAt isFeed file).2]

/-- `map_while`. -/
def mapWhile {α β : Type} (f : α → Option β) : List α → List β
  | [] => []
  | a :: rest =>
    match f a with
    | some b => b :: mapWhile f rest
    | none => []

/-- `load_history` passes over blank lines and those that do not parse. -/
def parseLine (line : List Char) : Option ChatMessage :=
  if line.all Llm.isWhitespace then none else c.fromStr line

/-- The lines of a file up to the first that is not text. -/
def lines (file : List UInt8) : List Line :=
  (mapWhile Utf8.text? (rawLines file)).map fun line => ⟨parseLine c line⟩

/-- `load_history`.  A file that is missing is read like an empty one. -/
def loadHistory (file : List UInt8) : List ChatMessage := ChatStore.loadHistory (lines c file)

/-- One append, cut off after so many bytes or whole. -/
structure Append where
  turns : List ChatMessage
  cut : Option Nat

/-- The records that a cut leaves whole, and the torn one. -/
def survivors : List ChatMessage → Nat → List ChatMessage × Option (List UInt8 × ChatMessage)
  | [], _ => ([], none)
  | m :: rest, n =>
    if (record c m).length ≤ n then
      (m :: (survivors rest (n - (record c m).length)).1, (survivors rest (n - (record c m).length)).2)
    else if n = 0 then ([], none)
    else ([], some ((record c m).take n, m))

namespace Append

variable (a : Append)

/-- The bytes that have come to the file. -/
def bytes : List UInt8 :=
  match a.cut with
  | none => records c a.turns
  | some n => (records c a.turns).take n

def outcome : List ChatMessage × Option (List UInt8 × ChatMessage) :=
  match a.cut with
  | none => (a.turns, none)
  | some n => survivors c a.turns n

/-- The records that have come whole. -/
def complete : List ChatMessage := (a.outcome c).1

/-- The record that is cut, with the bytes of it that are there. -/
def torn : Option (List UInt8 × ChatMessage) := (a.outcome c).2

end Append

def append (file : List UInt8) (a : Append) : List UInt8 := file ++ a.bytes c

/-- The file after these appends. -/
def fileAfter (run : List Append) : List UInt8 := History.play (append c) [] run

/-- What is loaded are the whole records of each append, or also the torn one, in order. -/
def Recovered (run : List Append) (loaded : List ChatMessage) : Prop :=
  ∃ parts : List (List ChatMessage), loaded = parts.flatten ∧
    List.Forall₂ (fun a part => part = a.complete c ∨
      ∃ q, a.torn c = some q ∧ part = a.complete c ++ [q.2]) run parts

/-- A file in which the next record begins a line. -/
def FreshLine (file : List UInt8) : Prop := file = [] ∨ file.getLast? = some 10

/-- A record is completely written only where it begins a line. -/
def Unbroken (run : List Append) : Prop :=
  History.Each (append c) (fun file a => a.complete c ≠ [] → FreshLine file) [] run

/-- What is relied on for some messages.  Their texts are objects without control characters, which are
parsed as the messages; where texts that are cut off run together, the whole of one alone is parsed. -/
structure Serde.Faithful (messages : List ChatMessage) : Prop where
  visible : ∀ m ∈ messages, ∀ ch ∈ c.toString m, 32 ≤ ch.toNat
  object : ∀ m ∈ messages, '{' ∈ c.toString m
  parsed : ∀ m ∈ messages, c.fromStr (c.toString m) = some m
  strict : ∀ (qs : List (List UInt8 × ChatMessage)) (text : List Char) (m : ChatMessage),
    (∀ q ∈ qs, q.2 ∈ messages ∧ q.1 ≠ [] ∧ q.1 <+: textBytes c q.2) →
    Utf8.encode text = (qs.map (·.1)).flatten → c.fromStr text = some m →
    ∃ q, qs = [q] ∧ q.1 = textBytes c q.2

variable {c} {messages : List ChatMessage} {m : ChatMessage}

namespace Serde.Faithful

variable (h : c.Faithful messages)

include h

theorem visible_bytes (hm : m ∈ messages) {b : UInt8} (hb : b ∈ textBytes c m) : 32 ≤ b.toNat := by
  by_contra hLow
  obtain ⟨ch, hMem, hVal⟩ := Utf8.mem_encode hb (by omega)
  have hVisible := h.visible m hm ch hMem
  rw [← Char.toNat_val, hVal] at hVisible
  exact hLow hVisible

theorem no_feed (hm : m ∈ messages) : ∀ b ∈ textBytes c m, isFeed b = false := by
  intro b hb
  have hVisible := h.visible_bytes hm hb
  rw [isFeed, decide_eq_false_iff_not]
  rintro rfl
  exact absurd hVisible (by decide)

theorem strip (hm : m ∈ messages) : stripReturn (textBytes c m) = textBytes c m := by
  rw [stripReturn, if_neg]
  intro hLast
  have hVisible := h.visible_bytes hm (List.mem_of_getLast? hLast)
  exact absurd hVisible (by decide)

theorem parseLine_text (hm : m ∈ messages) : parseLine c (c.toString m) = some m := by
  rw [parseLine, if_neg, h.parsed m hm]
  rw [List.all_eq_true]
  intro hBlank
  exact absurd (hBlank _ (h.object m hm)) (by decide)

end Serde.Faithful

theorem cutAt_records (h : c.Faithful messages) {done : List ChatMessage} (hDone : ∀ m ∈ done, m ∈ messages)
    {rest : List UInt8} (hRest : ∀ b ∈ rest, isFeed b = false) :
    Framing.cutAt isFeed (records c done ++ rest) = (done.map (textBytes c), rest) := by
  induction done with
  | nil => exact Framing.cutAt_of_none hRest
  | cons m done ih =>
    obtain ⟨hm, hDone⟩ := List.forall_mem_cons.mp hDone
    have hFirst : records c (m :: done) ++ rest = textBytes c m ++ 10 :: (records c done ++ rest) := by
      simp [records, record]
    rw [hFirst, Framing.cutAt_line (h.no_feed hm) rfl, ih hDone]
    rfl

theorem lines_records (h : c.Faithful messages) {done : List ChatMessage} (hDone : ∀ m ∈ done, m ∈ messages)
    {rest : List UInt8} (hRest : ∀ b ∈ rest, isFeed b = false) :
    lines c (records c done ++ rest) = done.map (fun m => ⟨some m⟩) ++
      if rest = [] then [] else ((Utf8.text? rest).map fun text => ⟨parseLine c text⟩).toList := by
  rw [lines, rawLines, cutAt_records h hDone hRest]
  induction done with
  | nil =>
    split_ifs with hNone
    · rfl
    · cases hText : Utf8.text? rest <;> simp [mapWhile, hText]
  | cons m done ih =>
    obtain ⟨hm, hDone⟩ := List.forall_mem_cons.mp hDone
    have hText : Utf8.text? (textBytes c m) = some (c.toString m) := Utf8.text?_encode _
    have ihDone := ih hDone
    simp only [List.map_cons, List.cons_append, mapWhile, h.strip hm, hText, h.parseLine_text hm]
    rw [ihDone]

theorem load_records (h : c.Faithful messages) {done : List ChatMessage} (hDone : ∀ m ∈ done, m ∈ messages)
    {rest : List UInt8} (hRest : ∀ b ∈ rest, isFeed b = false) :
    loadHistory c (records c done ++ rest) = done ++
      if rest = [] then [] else ((Utf8.text? rest).bind (parseLine c)).toList := by
  rw [loadHistory, lines_records h hDone hRest, ChatStore.loadHistory, List.filterMap_append,
    List.filterMap_map]
  congr 1
  · simp
  · split_ifs
    · rfl
    · cases hText : Utf8.text? rest with
      | none => rfl
      | some text => cases hParse : parseLine c text <;> simp [hParse]

/-- The fragment is the start of a text. -/
structure Fragment (messages : List ChatMessage) (q : List UInt8 × ChatMessage) : Prop where
  message : q.2 ∈ messages
  some : q.1 ≠ []
  start : q.1 <+: textBytes c q.2

theorem survivors_bytes (turns : List ChatMessage) (n : Nat) :
    (records c turns).take n = records c (survivors c turns n).1 ++
      ((survivors c turns n).2.map (·.1)).getD [] := by
  induction turns generalizing n with
  | nil => simp [records, survivors]
  | cons m rest ih =>
    have hSplit : records c (m :: rest) = record c m ++ records c rest := rfl
    rw [survivors]
    split_ifs with hWhole hNone
    · rw [hSplit, List.take_append, List.take_of_length_le hWhole, ih]
      simp [records]
    · simp [hNone, records]
    · rw [hSplit, List.take_append_of_le_length (by omega)]
      simp [records]

theorem survivors_mem (turns : List ChatMessage) (n : Nat) :
    (∀ m ∈ (survivors c turns n).1, m ∈ turns) ∧
      ∀ q ∈ (survivors c turns n).2, Fragment (c := c) turns q := by
  induction turns generalizing n with
  | nil => simp [survivors]
  | cons m rest ih =>
    rw [survivors]
    split_ifs with hWhole hNone
    · obtain ⟨hComplete, hTorn⟩ := ih (n - (record c m).length)
      refine ⟨fun m' hm' => ?_, fun q hq => ?_⟩
      · rcases List.mem_cons.mp hm' with rfl | hm'
        · exact List.mem_cons_self
        · exact List.mem_cons_of_mem _ (hComplete m' hm')
      · obtain ⟨hMessage, hSome, hStart⟩ := hTorn q hq
        exact ⟨List.mem_cons_of_mem _ hMessage, hSome, hStart⟩
    · simp
    · refine ⟨by simp, fun q hq => ?_⟩
      obtain rfl : ((record c m).take n, m) = q := by simpa using hq
      refine ⟨List.mem_cons_self, ?_, ?_⟩
      · simp [record, hNone]
      · have hLength : (record c m).length = (textBytes c m).length + 1 := by simp [record]
        rw [record, List.take_append_of_le_length (by omega)]
        exact List.take_prefix _ _

theorem Append.bytes_eq (a : Append) :
    a.bytes c = records c (a.complete c) ++ ((a.torn c).map (·.1)).getD [] := by
  cases hCut : a.cut with
  | none => simp [Append.bytes, Append.complete, Append.torn, Append.outcome, hCut]
  | some n =>
    simp only [Append.bytes, Append.complete, Append.torn, Append.outcome, hCut]
    exact survivors_bytes a.turns n

theorem Append.outcome_mem (a : Append) :
    (∀ m ∈ a.complete c, m ∈ a.turns) ∧ ∀ q ∈ a.torn c, Fragment (c := c) a.turns q := by
  cases hCut : a.cut with
  | none => simp [Append.complete, Append.torn, Append.outcome, hCut]
  | some n =>
    simp only [Append.complete, Append.torn, Append.outcome, hCut]
    exact survivors_mem a.turns n

def fragments (c : Serde) (run : List Append) : List (List UInt8 × ChatMessage) := run.filterMap (·.torn c)

theorem fragments_mem {run : List Append} {q : List UInt8 × ChatMessage} (h : q ∈ fragments c run) :
    Fragment (c := c) (run.flatMap (·.turns)) q := by
  obtain ⟨a, ha, hTorn⟩ := List.mem_filterMap.mp h
  obtain ⟨hMessage, hSome, hStart⟩ := a.outcome_mem.2 q hTorn
  exact ⟨List.mem_flatMap.mpr ⟨a, ha, hMessage⟩, hSome, hStart⟩

theorem fileAfter_concat (run : List Append) (a : Append) :
    fileAfter c (run ++ [a]) = fileAfter c run ++ a.bytes c := by
  simp [fileAfter, append]

theorem not_fresh (h : c.Faithful messages) {whole : List UInt8} {qs : List (List UInt8 × ChatMessage)}
    (hQs : ∀ q ∈ qs, Fragment (c := c) messages q) (hSome : qs ≠ []) :
    ¬FreshLine (whole ++ (qs.map (·.1)).flatten) := by
  obtain ⟨front, q, rfl⟩ := (List.eq_nil_or_concat qs).resolve_left hSome
  rw [List.concat_eq_append] at hQs ⊢
  obtain ⟨hMessage, hBytes, hStart⟩ := hQs q (by simp)
  obtain ⟨bytes, b, hLast⟩ := (List.eq_nil_or_concat q.1).resolve_left hBytes
  rw [List.concat_eq_append] at hLast
  have hb : isFeed b = false := h.no_feed hMessage b (hStart.subset (by simp [hLast]))
  rintro (hEmpty | hFeed)
  · simp [hLast] at hEmpty
  · obtain rfl : b = 10 := by simpa [hLast] using hFeed
    cases hb

theorem file_unbroken {run : List Append} (h : c.Faithful messages)
    (hRun : ∀ m ∈ run.flatMap (·.turns), m ∈ messages) (hUnbroken : Unbroken c run) :
    fileAfter c run = records c (run.flatMap (·.complete c)) ++ ((fragments c run).map (·.1)).flatten ∧
      (run.flatMap fun a => a.complete c ++ ((a.torn c).map (·.2)).toList) =
        run.flatMap (·.complete c) ++ (fragments c run).map (·.2) := by
  induction run using List.reverseRecOn with
  | nil => simp [fileAfter, records, fragments]
  | append_singleton run a ih =>
    rw [Unbroken, History.each_append] at hUnbroken
    obtain ⟨hBefore, hFresh, -⟩ := hUnbroken
    have hMem : ∀ m ∈ run.flatMap (·.turns), m ∈ messages := fun m hm =>
      hRun m (by rw [List.flatMap_append]; exact List.mem_append_left _ hm)
    obtain ⟨ihFile, ihParts⟩ := ih hMem hBefore
    have hFragments : fragments c (run ++ [a]) = fragments c run ++ (a.torn c).toList := by
      cases hTorn : a.torn c <;> simp [fragments, List.filterMap_append, hTorn]
    -- A record that is completely written begins a line, and so there is no fragment yet.
    have hNone : a.complete c ≠ [] → fragments c run = [] := by
      intro hComplete
      by_contra hSome
      have hBegins : FreshLine (fileAfter c run) := hFresh hComplete
      rw [ihFile] at hBegins
      refine not_fresh h (fun q hq => ?_) hSome hBegins
      obtain ⟨hMessage, hBytes, hStart⟩ := fragments_mem hq
      exact ⟨hMem _ hMessage, hBytes, hStart⟩
    rw [fileAfter_concat, ihFile, a.bytes_eq, hFragments, List.flatMap_append, List.flatMap_append,
      ihParts]
    rcases eq_or_ne (a.complete c) [] with hEmpty | hComplete
    · cases hTorn : a.torn c <;> simp [hEmpty, hTorn, records]
    · rw [hNone hComplete]
      cases hTorn : a.torn c <;> simp [hTorn, records]

theorem load_fragments (h : c.Faithful messages) {qs : List (List UInt8 × ChatMessage)}
    (hQs : ∀ q ∈ qs, Fragment (c := c) messages q) {m : ChatMessage}
    (hRead : (Utf8.text? (qs.map (·.1)).flatten).bind (parseLine c) = some m) :
    qs.map (·.2) = [m] := by
  obtain ⟨text, hText, hParse⟩ := Option.bind_eq_some_iff.mp hRead
  have hBytes := Utf8.text?_eq_some.mp hText
  have hStr : c.fromStr text = some m := by
    rw [parseLine] at hParse
    split_ifs at hParse
    exact hParse
  obtain ⟨q, rfl, hWhole⟩ := h.strict qs text m
    (fun q hq => ⟨(hQs q hq).message, (hQs q hq).some, (hQs q hq).start⟩) hBytes.symm hStr
  have hMessage := (hQs q (by simp)).message
  have hSame : text = c.toString q.2 := by
    have hTexts : Utf8.text? (textBytes c q.2) = some text := by simpa [hWhole] using hText
    rw [textBytes, Utf8.text?_encode] at hTexts
    exact (Option.some.inj hTexts).symm
  rw [hSame, h.parsed q.2 hMessage] at hStr
  simpa using hStr

theorem recovered_parts (run : List Append) (part : Append → List ChatMessage)
    (hPart : ∀ a ∈ run, part a = a.complete c ∨ ∃ q, a.torn c = some q ∧ part a = a.complete c ++ [q.2]) :
    Recovered c run (run.flatMap part) := by
  refine ⟨run.map part, List.flatMap_def, ?_⟩
  rw [List.forall₂_map_right_iff, List.forall₂_same]
  exact hPart

theorem unbroken_recovers {run : List Append} (h : c.Faithful (run.flatMap (·.turns)))
    (hUnbroken : Unbroken c run) : Recovered c run (loadHistory c (fileAfter c run)) := by
  obtain ⟨hFile, hParts⟩ := file_unbroken h (fun _ hm => hm) hUnbroken
  have hDone : ∀ m ∈ run.flatMap (·.complete c), m ∈ run.flatMap (·.turns) := by
    intro m hm
    obtain ⟨a, ha, hm⟩ := List.mem_flatMap.mp hm
    exact List.mem_flatMap.mpr ⟨a, ha, a.outcome_mem.1 m hm⟩
  have hRest : ∀ b ∈ ((fragments c run).map (·.1)).flatten, isFeed b = false := by
    intro b hb
    obtain ⟨bytes, hBytes, hb⟩ := List.mem_flatten.mp hb
    obtain ⟨q, hq, rfl⟩ := List.mem_map.mp hBytes
    obtain ⟨hMessage, -, hStart⟩ := fragments_mem hq
    exact h.no_feed hMessage b (hStart.subset hb)
  rw [hFile, load_records h hDone hRest]
  have hOnly : Recovered c run (run.flatMap (·.complete c)) :=
    recovered_parts run (·.complete c) fun _ _ => .inl rfl
  split_ifs with hNone
  · simpa using hOnly
  · cases hRead : (Utf8.text? ((fragments c run).map (·.1)).flatten).bind (parseLine c) with
    | none => simpa using hOnly
    | some m =>
      rw [Option.toList_some, ← load_fragments h (fun q hq => fragments_mem hq) hRead, ← hParts]
      refine recovered_parts run (fun a => a.complete c ++ ((a.torn c).map (·.2)).toList) fun a _ => ?_
      cases hTorn : a.torn c with
      | none => exact .inl (by simp)
      | some q => exact .inr ⟨q, rfl, by simp⟩

theorem whole_recovers {run : List Append} (h : c.Faithful (run.flatMap (·.turns)))
    (hWhole : ∀ a ∈ run, a.cut = none) : loadHistory c (fileAfter c run) = run.flatMap (·.turns) := by
  have hFile : fileAfter c run = records c (run.flatMap (·.turns)) ++ [] := by
    clear h
    induction run using List.reverseRecOn with
    | nil => rfl
    | append_singleton run a ih =>
      have hBefore := ih fun a ha => hWhole a (List.mem_append_left _ ha)
      rw [fileAfter_concat, hBefore, Append.bytes, hWhole a (by simp)]
      simp [records]
  rw [hFile, load_records h (fun _ hm => hm) (by simp), if_pos rfl, List.append_nil]

/-- An unbroken run loses nothing but the messages that are cut off; and a run without a cut loses
nothing. -/
theorem run_recovers {run : List Append} (h : c.Faithful (run.flatMap (·.turns))) :
    (Unbroken c run → Recovered c run (loadHistory c (fileAfter c run))) ∧
      ((∀ a ∈ run, a.cut = none) → loadHistory c (fileAfter c run) = run.flatMap (·.turns)) :=
  ⟨unbroken_recovers h, whole_recovers h⟩

def greeting : ChatMessage :=
  { role := .user, content := some "hi", toolCalls := [], toolCallId := none, name := none }

def greetingText : List Char := "\x7b\"role\":\"user\",\"content\":\"hi\"\x7d".toList

def greetings : Serde where
  toString _ := greetingText
  fromStr text := if text = greetingText then some greeting else none

theorem greetings_faithful : greetings.Faithful [greeting, greeting] where
  visible _ _ := show ∀ ch ∈ greetingText, 32 ≤ ch.toNat from List.all_iff_forall_prop.mp (by decide)
  object := by decide
  parsed := by decide
  strict := by
    intro qs text m hQs hText hRead
    have hSame : text = greetingText := by
      by_contra hOther
      simp [greetings, hOther] at hRead
    -- Each fragment begins with a brace, and the text has but one.
    have hBrace : ∀ q ∈ qs, 1 ≤ q.1.count 123 := by
      intro q hq
      obtain ⟨-, hSome, hStart⟩ := hQs q hq
      obtain ⟨b, rest, hFirst⟩ := List.exists_cons_of_ne_nil hSome
      obtain ⟨tail, hTail⟩ := hStart
      rw [hFirst] at hTail ⊢
      obtain rfl : b = 123 := (List.cons.inj (hTail.trans (show textBytes greetings q.2 = 123 :: _ from rfl))).1
      simp
    have hCount : ((qs.map (·.1)).flatten).count 123 = 1 := by
      rw [← hText, hSame]
      decide +kernel
    rw [List.count_flatten, List.map_map] at hCount
    match qs, hQs, hText, hBrace, hCount with
    | [], _, _, _, hCount => simp at hCount
    | [q], _, hText, _, _ => exact ⟨q, rfl, by simpa [hSame, textBytes, greetings] using hText.symm⟩
    | q :: q' :: rest, _, _, hBrace, hCount =>
      have hFirst := hBrace q (by simp)
      have hSecond := hBrace q' (by simp)
      simp only [List.map_cons, List.sum_cons, Function.comp_apply] at hCount
      omega

/-- The second of two appends is cut within its record. -/
theorem greeted_recovers :
    Recovered greetings [⟨[greeting], none⟩, ⟨[greeting], some 5⟩]
      (loadHistory greetings (fileAfter greetings [⟨[greeting], none⟩, ⟨[greeting], some 5⟩])) :=
  (run_recovers greetings_faithful).1 ⟨fun _ => .inl rfl, fun h => absurd (by decide +kernel) h, trivial⟩

/-- The record that is written behind a fragment is lost with it. -/
theorem fragment_loses :
    greetings.Faithful [greeting, greeting] ∧
      ¬Recovered greetings [⟨[greeting], some 5⟩, ⟨[greeting], none⟩]
        (loadHistory greetings (fileAfter greetings [⟨[greeting], some 5⟩, ⟨[greeting], none⟩])) := by
  refine ⟨greetings_faithful, ?_⟩
  have hLoad : loadHistory greetings
      (fileAfter greetings [⟨[greeting], some 5⟩, ⟨[greeting], none⟩]) = [] := by decide +kernel
  rw [hLoad]
  rintro ⟨parts, hParts, hRun⟩
  obtain ⟨part, rest, -, hRest, rfl⟩ := List.forall₂_cons_left_iff.mp hRun
  obtain ⟨part', rest', hPart, -, rfl⟩ := List.forall₂_cons_left_iff.mp hRest
  obtain rfl | ⟨q, -, rfl⟩ := hPart <;> simp [Append.complete, Append.outcome] at hParts

end Cronymax.Agent.HistoryFile
