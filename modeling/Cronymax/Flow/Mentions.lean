import Cronymax.Text.Lines
import Cronymax.Text.Scan
import Cronymax.Utf8.Lossy
import Mathlib.Data.Finset.Insert

/-! The two readings of mentions in a document.  `parse_mentions` knows the letters of ASCII and the fences of
code, and `handle_mention_parse` all letters and no fences, so that they find the same mentions just where
neither makes a difference. -/

namespace Cronymax.Flow

open Utf8 (encode)

/-- The tables of `char` that the regular expression and the reader ask. -/
structure Unicode where
  isAlphabetic : Char → Bool
  isNumeric : Char → Bool
  alphabetic_ascii : ∀ c : Char, c.toNat < 128 → isAlphabetic c = c.isAlpha
  numeric_ascii : ∀ c : Char, c.toNat < 128 → isNumeric c = c.isDigit

def Unicode.isAlphanumeric (u : Unicode) (c : Char) : Bool := u.isAlphabetic c || u.isNumeric c

structure ParsedMention where
  name : List Char
  byteOffset : Nat
  line : Nat
  column : Nat
deriving DecidableEq

/-- `[a-zA-Z_]`. -/
def startsSlug (c : Char) : Bool := c.isAlpha || c = '_'

/-- `[a-zA-Z0-9_-]`. -/
def isSlug (c : Char) : Bool := c.isAlphanum || c = '_' || c = '-'

/-- `is_ascii_alphanumeric`, or an underscore. -/
def isWordByte (b : UInt8) : Bool :=
  (48 ≤ b.toNat && b.toNat ≤ 57) || (65 ≤ b.toNat && b.toNat ≤ 90) || (97 ≤ b.toNat && b.toNat ≤ 122) ||
    b.toNat = 95

/-- The numbers of the fenced lines from a line on, inside a fence or not. -/
def fencedFrom : Bool → Nat → List (List Char) → List Nat
  | _, _, [] => []
  | inside, n, line :: lines =>
    if "```".toList <+: line then n :: fencedFrom (!inside) (n + 1) lines
    else (if inside then [n] else []) ++ fencedFrom inside (n + 1) lines

/-- `fenced_lines`. -/
def fencedLines (text : List Char) : List Nat := fencedFrom false 1 (Text.lines text)

/-- The number of the line on which the text goes on. -/
def lineAfter (before : List Char) : Nat := before.count '\n' + 1

/-- `re.find_iter`: what is before each match, and its name. -/
def findIter (text : List Char) : List (List Char × List Char) :=
  Text.scan '@' (fun _ rest => rest.head?.any startsSlug) isSlug [] text

/-- `parse_mentions`. -/
def parseMentions (text : List Char) : List ParsedMention :=
  (findIter text).filterMap fun m =>
    let byteOffset := (encode m.1).length
    if (encode m.1).getLast?.any isWordByte then none
    else
      let lastNewline := byteOffset - (encode (m.1.rtakeWhile (· ≠ '\n'))).length
      if lineAfter m.1 ∈ fencedLines text then none
      else some ⟨m.2, byteOffset, lineAfter m.1, byteOffset - lastNewline + 1⟩

section Handler

variable (u : Unicode)

def isName (c : Char) : Bool := u.isAlphanumeric c || c = '_' || c = '-'

/-- The mention at an `@` is read. -/
def startsName (before rest : List Char) : Bool :=
  !(before.getLast?.any fun c => u.isAlphanumeric c || c = '_') &&
    rest.head?.any fun c => u.isAlphabetic c || c = '_'

/-- The names behind an `@`, each with the text before it. -/
def readNames (text : List Char) : List (List Char × List Char) :=
  Text.scan '@' (startsName u) (isName u) [] text

/-- `handle_mention_parse`: the names known and those unknown. -/
def handleMentionParse (known : Finset (List Char)) (text : List Char) : List (List Char) × List (List Char) :=
  (((readNames u text).map (·.2)).filter (· ∈ known), ((readNames u text).map (·.2)).filter (· ∉ known))

end Handler

/-- Both find the same mentions, and the handler tells the known ones from the others. -/
structure Agree (u : Unicode) (known : Finset (List Char)) (text : List Char) : Prop where
  found : ((readNames u text).map fun m => ((encode m.1).length, m.2)) =
    (parseMentions text).map fun m => (m.byteOffset, m.name)
  mentions : (handleMentionParse u known text).1 = ((parseMentions text).map (·.name)).filter (· ∈ known)
  unknown : (handleMentionParse u known text).2 = ((parseMentions text).map (·.name)).filter (· ∉ known)

def isAsciiWord (c : Char) : Bool := c.isAlphanum || c = '_'

/-- Behind a letter that is not ASCII a mark has no name that either reader takes; elsewhere it is in no
fence, and its name is ASCII. -/
def Plain (u : Unicode) (text : List Char) : Prop :=
  ∀ before c rest, text = before ++ '@' :: c :: rest → (∀ b ∈ before.getLast?, isAsciiWord b = false) →
    (u.isAlphabetic c ∨ c = '_') →
    if before.getLast?.any u.isAlphanumeric then lineAfter before ∈ fencedLines text ∨ 128 ≤ c.toNat
    else lineAfter before ∉ fencedLines text ∧ ∀ d ∈ (c :: rest).takeWhile (isName u), d.toNat < 128

theorem isWordByte_char (c : Char) : (String.utf8EncodeChar c).getLast?.any isWordByte = isAsciiWord c := by
  by_cases hAscii : c.val.toNat < 0x80
  · have hByte : (UInt8.ofNat c.val.toNat).toNat = c.val.toNat := Utf8.toNat_byte (by omega)
    have hBar : c = '_' ↔ c.val.toNat = 95 := by
      rw [← Char.val_inj, ← UInt32.toNat_inj]
      rfl
    rw [Utf8.encodeChar_ascii hAscii, List.getLast?_singleton, Option.any_some, isWordByte, hByte, isAsciiWord,
      Bool.eq_iff_iff]
    have hDigits : '0'.val.toNat = 48 ∧ '9'.val.toNat = 57 := ⟨rfl, rfl⟩
    have hUpper : 'A'.val.toNat = 65 ∧ 'Z'.val.toNat = 90 := ⟨rfl, rfl⟩
    have hLower : 'a'.val.toNat = 97 ∧ 'z'.val.toNat = 122 := ⟨rfl, rfl⟩
    delta Char.isAlphanum Char.isAlpha Char.isUpper Char.isLower Char.isDigit
    simp only [ge_iff_le, UInt32.le_iff_toNat_le, Bool.or_eq_true, Bool.and_eq_true, decide_eq_true_eq, hBar]
    omega
  · have hNot : isAsciiWord c = false := by
      rw [← Bool.not_eq_true, isAsciiWord, Bool.or_eq_true, decide_eq_true_eq]
      rintro (hAlphanum | rfl)
      · exact hAscii (Utf8.ascii_of_isAlphanum hAlphanum)
      · exact hAscii (by decide)
    rw [hNot, ← Bool.not_eq_true]
    intro hAny
    obtain ⟨b, hb, hWord⟩ := Option.any_eq_true .. |>.mp hAny
    have hLow : b.toNat < 0x80 := by
      simp only [isWordByte, Bool.or_eq_true, Bool.and_eq_true, decide_eq_true_eq] at hWord
      omega
    have hVal := Utf8.toNat_of_mem_encodeChar (List.mem_of_mem_getLast? hb) hLow
    omega

theorem isWordByte_encode (before : List Char) :
    (encode before).getLast?.any isWordByte = before.getLast?.any isAsciiWord := by
  rcases List.eq_nil_or_concat before with rfl | ⟨front, c, rfl⟩
  · rfl
  · have hLast : (encode (front ++ [c])).getLast? = (String.utf8EncodeChar c).getLast? := by
      rw [Utf8.encode_append, Utf8.encode_cons, Utf8.encode_nil, List.append_nil,
        List.getLast?_append_of_ne_nil _ (Utf8.encode_char_ne_nil c)]
    rw [List.concat_eq_append, hLast, isWordByte_char, List.getLast?_concat, Option.any_some]

section Sites

variable (u : Unicode) (text : List Char)

/-- `parse_mentions` takes the mention there. -/
def takes (s : List Char × List Char) : Bool :=
  s.2.head?.any startsSlug && (!s.1.getLast?.any isAsciiWord && decide (lineAfter s.1 ∉ fencedLines text))

theorem parsed_eq : (parseMentions text).map (fun m => (m.byteOffset, m.name)) =
    ((Text.sites '@' [] text).filter (takes text)).map fun s => ((encode s.1).length, s.2.takeWhile isSlug) := by
  rw [parseMentions, findIter, Text.scan_eq (by decide)]
  induction Text.sites '@' [] text with
  | nil => rfl
  | cons s rest ih =>
    rw [List.filter_cons, List.filter_cons]
    by_cases hStarts : s.2.head?.any startsSlug = true
    · rw [if_pos hStarts, List.map_cons, List.filterMap_cons]
      have hWord := isWordByte_encode s.1
      by_cases hBefore : s.1.getLast?.any isAsciiWord = true
      · have hNot : ¬takes text s = true := by simp [takes, hBefore]
        rw [if_neg hNot, ← ih]
        simp only [hWord, hBefore, if_true]
      · by_cases hFenced : lineAfter s.1 ∈ fencedLines text
        · have hNot : ¬takes text s = true := by simp [takes, hFenced]
          rw [if_neg hNot, ← ih]
          simp only [hWord, hBefore, hFenced, if_true]
          rfl
        · have hTakes : takes text s = true := by simp [takes, hStarts, hBefore, hFenced]
          rw [if_pos hTakes, List.map_cons, ← ih]
          simp only [hWord, hBefore, hFenced, if_false]
          rfl
    · have hNot : ¬takes text s = true := by simp [takes, hStarts]
      rw [if_neg hStarts, if_neg hNot, ih]

theorem read_eq : (readNames u text).map (fun m => ((encode m.1).length, m.2)) =
    ((Text.sites '@' [] text).filter fun s => startsName u s.1 s.2).map fun s =>
      ((encode s.1).length, s.2.takeWhile (isName u)) := by
  have hMark : isName u '@' = false := by
    rw [isName, Unicode.isAlphanumeric, u.alphabetic_ascii _ (by decide), u.numeric_ascii _ (by decide)]
    decide
  rw [readNames, Text.scan_eq hMark, List.map_map]
  rfl

theorem encode_length_lt {before before' : List Char} (h : before <+: before')
    (hShort : before.length < before'.length) : (encode before).length < (encode before').length := by
  obtain ⟨more, rfl⟩ := h
  cases more with
  | nil => simp at hShort
  | cons c more =>
    have hByte := List.length_pos_iff.mpr (Utf8.encode_char_ne_nil c)
    rw [Utf8.encode_append, Utf8.encode_cons, List.length_append, List.length_append]
    omega

theorem sites_offsets : (Text.sites '@' [] text).Pairwise fun s s' => (encode s.1).length ≠ (encode s'.1).length := by
  have hPrefix {s : List Char × List Char} (hs : s ∈ Text.sites '@' [] text) : s.1 <+: text := by
    obtain ⟨pre, hText, hBefore⟩ := Text.mem_sites.mp hs
    rw [List.nil_append] at hBefore
    exact ⟨'@' :: s.2, by rw [hBefore, hText]⟩
  refine List.Pairwise.imp_of_mem (fun hs hs' hShort => Nat.ne_of_lt ?_) (Text.sites_ordered [] text)
  exact encode_length_lt (List.prefix_of_prefix_length_le (hPrefix hs) (hPrefix hs') (Nat.le_of_lt hShort)) hShort

end Sites

section Classes

variable (u : Unicode) {c : Char}

theorem alphanumeric_ascii (h : c.toNat < 128) : u.isAlphanumeric c = c.isAlphanum := by
  rw [Unicode.isAlphanumeric, u.alphabetic_ascii c h, u.numeric_ascii c h]
  rfl

theorem isSlug_iff : isSlug c = true ↔ isName u c = true ∧ c.toNat < 128 := by
  have hSlug : isSlug c = true → c.toNat < 128 := by
    unfold isSlug
    rw [Bool.or_eq_true, Bool.or_eq_true, decide_eq_true_eq, decide_eq_true_eq]
    rintro ((hAlphanum | rfl) | rfl)
    · exact Utf8.ascii_of_isAlphanum hAlphanum
    · decide
    · decide
  by_cases hAscii : c.toNat < 128
  · rw [isName, alphanumeric_ascii u hAscii]
    exact ⟨fun h => ⟨h, hAscii⟩, fun h => h.1⟩
  · exact iff_of_false (fun h => hAscii (hSlug h)) fun h => hAscii h.2

theorem startsSlug_iff : startsSlug c = true ↔ (u.isAlphabetic c = true ∨ c = '_') ∧ c.toNat < 128 := by
  have hStarts : startsSlug c = true → c.toNat < 128 := by
    unfold startsSlug
    rw [Bool.or_eq_true, decide_eq_true_eq]
    rintro (hAlpha | rfl)
    · exact Utf8.ascii_of_isAlphanum (by rw [Char.isAlphanum, hAlpha, Bool.true_or])
    · decide
  by_cases hAscii : c.toNat < 128
  · rw [u.alphabetic_ascii c hAscii, startsSlug, Bool.or_eq_true, decide_eq_true_eq]
    exact ⟨fun h => ⟨h, hAscii⟩, fun h => h.1⟩
  · exact iff_of_false (fun h => hAscii (hStarts h)) fun h => hAscii h.2

theorem isAsciiWord_imp (h : isAsciiWord c = true) : u.isAlphanumeric c = true ∨ c = '_' := by
  unfold isAsciiWord at h
  rw [Bool.or_eq_true, decide_eq_true_eq] at h
  refine h.imp_left fun hAlphanum => ?_
  rwa [alphanumeric_ascii u (Utf8.ascii_of_isAlphanum hAlphanum)]

theorem takeWhile_eq_iff {α : Type*} {p q : α → Bool} (h : ∀ x, p x = true → q x = true) (l : List α) :
    l.takeWhile q = l.takeWhile p ↔ ∀ x ∈ l.takeWhile q, p x = true := by
  induction l with
  | nil => simp
  | cons x l ih =>
    rw [List.takeWhile_cons, List.takeWhile_cons]
    by_cases hq : q x = true
    · rw [if_pos hq, List.forall_mem_cons]
      by_cases hp : p x = true
      · rw [if_pos hp, List.cons.injEq, ih]
        simp [hp]
      · rw [if_neg hp]
        simp [hp]
    · rw [if_neg hq, if_neg fun hp => hq (h x hp)]
      simp

end Classes

theorem beforeName_iff (u : Unicode) (before : List Char) :
    before.getLast?.any (fun c => u.isAlphanumeric c || c = '_') =
      (before.getLast?.any isAsciiWord || before.getLast?.any u.isAlphanumeric) := by
  cases before.getLast? with
  | none => rfl
  | some b =>
    simp only [Option.any_some]
    cases hWord : isAsciiWord b with
    | true => simpa using isAsciiWord_imp u hWord
    | false =>
      have hBar : b ≠ '_' := by
        rintro rfl
        cases hWord
      simp [hBar]

/-- What is asked of one place of an `@`. -/
theorem site_iff (u : Unicode) (text before rest : List Char) :
    (startsName u before rest = takes text (before, rest) ∧
      (startsName u before rest = true → rest.takeWhile (isName u) = rest.takeWhile isSlug)) ↔
    ∀ c more, rest = c :: more → (∀ b ∈ before.getLast?, isAsciiWord b = false) →
      (u.isAlphabetic c ∨ c = '_') →
      if before.getLast?.any u.isAlphanumeric then lineAfter before ∈ fencedLines text ∨ 128 ≤ c.toNat
      else lineAfter before ∉ fencedLines text ∧ ∀ d ∈ (c :: more).takeWhile (isName u), d.toNat < 128 := by
  cases rest with
  | nil => simp [startsName, takes]
  | cons c more =>
    have hFree : (∀ b ∈ before.getLast?, isAsciiWord b = false) ↔ before.getLast?.any isAsciiWord = false := by
      simp [Option.any_eq_false]
    have hOnce (P : Char → List Char → Prop) :
        (∀ c' more', c :: more = c' :: more' → P c' more') ↔ P c more := by
      refine ⟨fun h => h c more rfl, fun h c' more' hSame => ?_⟩
      obtain ⟨rfl, rfl⟩ := List.cons.inj hSame
      exact h
    rw [hOnce, hFree, startsName, beforeName_iff, takes]
    simp only [List.head?_cons, Option.any_some]
    have hSlug := startsSlug_iff u (c := c)
    cases before.getLast?.any isAsciiWord with
    | true => simp
    | false =>
      by_cases hStarts : u.isAlphabetic c = true ∨ c = '_'
      · have hLetter : (u.isAlphabetic c || decide (c = '_')) = true := by simpa using hStarts
        cases before.getLast?.any u.isAlphanumeric with
        | true =>
          have hStartsSlug : startsSlug c = false ↔ 128 ≤ c.toNat := by
            rw [← Bool.not_eq_true, hSlug]
            simp [hStarts]
          rw [← hStartsSlug]
          by_cases hFenced : lineAfter before ∈ fencedLines text
          · simp [hFenced]
          · cases startsSlug c <;> simp [hFenced, hStarts]
        | false =>
          have hFirst : isName u c = true := by
            rw [isName, Unicode.isAlphanumeric]
            rcases hStarts with hAlpha | rfl <;> simp [*]
          have hRun : (c :: more).takeWhile (isName u) = (c :: more).takeWhile isSlug ↔
              ∀ d ∈ (c :: more).takeWhile (isName u), d.toNat < 128 := by
            rw [takeWhile_eq_iff (p := isSlug) (q := isName u) (fun d hd => ((isSlug_iff u).mp hd).1)]
            exact forall₂_congr fun d hd => (isSlug_iff u).trans (and_iff_right (List.mem_takeWhile_imp hd))
          rw [hRun]
          constructor
          · rintro ⟨hTakes, hAscii⟩ - -
            have hAscii := hAscii (by simpa using hLetter)
            have hTaken : startsSlug c = true ∧ lineAfter before ∉ fencedLines text := by
              simpa [hLetter] using hTakes
            exact ⟨hTaken.2, hAscii⟩
          · intro h
            obtain ⟨hOpen, hAscii⟩ := h rfl hStarts
            have hSlugged : startsSlug c = true := hSlug.mpr ⟨hStarts, hAscii c (by simp [hFirst])⟩
            exact ⟨by simp [hLetter, hSlugged, hOpen], fun _ => hAscii⟩
      · have hLetter : (u.isAlphabetic c || decide (c = '_')) = false := by simpa using hStarts
        have hNot : startsSlug c = false := by
          rw [← Bool.not_eq_true, hSlug]
          exact fun h => hStarts h.1
        simp [hLetter, hNot, hStarts]

/-- The two find the same mentions just where every name that starts behind an `@` is plain. -/
theorem agree_iff (u : Unicode) (known : Finset (List Char)) (text : List Char) :
    Agree u known text ↔ Plain u text := by
  have hFound : ((readNames u text).map fun m => ((encode m.1).length, m.2)) =
      ((parseMentions text).map fun m => (m.byteOffset, m.name)) ↔ Plain u text := by
    rw [parsed_eq, read_eq, Text.filter_map_eq_iff (sites_offsets text)]
    constructor
    · intro h before c rest hText
      have hSite := (site_iff u text before (c :: rest)).mp (h (before, c :: rest) (Text.mem_sites.mpr ⟨before, hText, rfl⟩))
      exact hSite c rest rfl
    · intro h s hs
      obtain ⟨pre, hText, hBefore⟩ := Text.mem_sites.mp hs
      rw [List.nil_append] at hBefore
      refine (site_iff u text s.1 s.2).mpr fun c more hRest => ?_
      exact h s.1 c more (by rw [hBefore, ← hRest, hText])
  constructor
  · intro h
    exact hFound.mp h.found
  · intro h
    have hSame := hFound.mpr h
    have hNames : (readNames u text).map (·.2) = (parseMentions text).map (·.name) := by
      have hSeconds := congrArg (List.map Prod.snd) hSame
      rwa [List.map_map, List.map_map] at hSeconds
    refine ⟨hSame, ?_, ?_⟩
    · rw [handleMentionParse, hNames]
    · rw [handleMentionParse, hNames]

section Examples

def asciiOnly : Unicode := ⟨Char.isAlpha, Char.isDigit, fun _ _ => rfl, fun _ _ => rfl⟩

def fencedText : List Char := "```\n@writer\n```\n".toList

/-- A mention in fenced code is read by the handler alone. -/
theorem fenced_disagree :
    (handleMentionParse asciiOnly {"writer".toList} fencedText).1 = ["writer".toList] ∧
    (parseMentions fencedText).map (·.name) = [] ∧ ¬Agree asciiOnly {"writer".toList} fencedText := by
  have hRead : (readNames asciiOnly fencedText).map (·.2) = ["writer".toList] := by
    rw [readNames, Text.scan_eq (by decide)]
    decide
  have hMentions : (handleMentionParse asciiOnly {"writer".toList} fencedText).1 = ["writer".toList] := by
    rw [handleMentionParse, hRead]
    decide
  have hParsed : (parseMentions fencedText).map (·.name) = [] := by
    have hNone : (parseMentions fencedText).map (fun m => (m.byteOffset, m.name)) = [] := by
      rw [parsed_eq]
      decide
    rw [List.map_eq_nil_iff.mp hNone, List.map_nil]
  refine ⟨hMentions, hParsed, fun h => ?_⟩
  have hSame := hMentions.symm.trans h.mentions
  rw [hParsed] at hSame
  exact absurd hSame (by decide)

end Examples

end Cronymax.Flow
