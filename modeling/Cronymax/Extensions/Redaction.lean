import Mathlib.Data.Bool.AllAny
import Cronymax.Llm.Sse
import Cronymax.Text.Seams
import Cronymax.Text.Occurrences
import Cronymax.Text.Words

/-! The redaction of a text for a diagnostic bundle: `redact_text`, the scanner for `Bearer` tokens, and
the pass over `Authorization` headers.  The scanner is described word by word: it writes over a word
behind a word that ends in `Bearer` and exactly one space, unless it has written over that one too. -/

namespace Cronymax.Extensions

open Llm (isWhitespace)

def redacted : List Char := "REDACTED".toList

/-- `to_ascii_lowercase`. -/
@[grind =] def lower (s : List Char) : List Char := s.map Char.toLower

/-- What a token ends at. -/
def endsToken (c : Char) : Bool := isWhitespace c || c = '"' || c = ',' || c = '\''

def keyword : List Char := "bearer ".toList

/-- The next occurrence of the keyword, in any case. -/
@[grind =] def findKeyword : List Char → Option (List Char × List Char)
  | [] => none
  | c :: rest =>
    if keyword <+: lower (c :: rest) then
      some ((c :: rest).take keyword.length, (c :: rest).drop keyword.length)
    else (findKeyword rest).map fun found => (c :: found.1, found.2)

theorem findKeyword_some {line through after : List Char}
    (h : findKeyword line = some (through, after)) :
    line = through ++ after ∧ keyword <:+ lower through := by
  induction line generalizing through with
  | nil => cases h
  | cons c rest ih =>
    rw [findKeyword] at h
    split_ifs at h with hHere
    · cases h
      refine ⟨(List.take_append_drop _ _).symm, ?_⟩
      rw [lower, List.map_take]
      exact ⟨[], List.prefix_iff_eq_take.mp hHere⟩
    · obtain ⟨⟨through', after'⟩, hFound, hEq⟩ := Option.map_eq_some_iff.mp h
      cases hEq
      obtain ⟨rfl, hSuffix⟩ := ih hFound
      exact ⟨rfl, hSuffix.trans (List.suffix_cons _ _)⟩

theorem findKeyword_shorter {line through after : List Char}
    (h : findKeyword line = some (through, after)) : after.length < line.length := by
  obtain ⟨rfl, hSuffix⟩ := findKeyword_some h
  have hLength := hSuffix.length_le
  have hSeven : keyword.length = 7 := by decide
  simp only [lower, List.length_map, hSeven] at hLength
  rw [List.length_append]
  omega

/-- `redact_bearer`. -/
def redactBearer (line : List Char) : List Char :=
  match _h : findKeyword line with
  | none => line
  | some (through, after) =>
    let token := after.takeWhile fun c => !endsToken c
    through ++ (if token = [] then [] else redacted) ++
      redactBearer (after.dropWhile fun c => !endsToken c)
termination_by line.length
decreasing_by
  have hShorter := findKeyword_shorter _h
  have hLess := (after.dropWhile_suffix fun c => !endsToken c).length_le
  omega

def trimEnd (s : List Char) : List Char := s.rdropWhile isWhitespace

/-- The text up to the first colon, without the indent. -/
@[grind =] def headerKey (line : List Char) : List Char := (line.dropWhile isWhitespace).takeWhile (· ≠ ':')

/-- The line is a header of that name. -/
@[grind =] def isAuthorization (line : List Char) : Bool :=
  ':' ∈ line.dropWhile isWhitespace &&
    lower (trimEnd ((headerKey line).dropWhile isWhitespace)) = "authorization".toList

def redactedHeader (line : List Char) : List Char :=
  line.takeWhile isWhitespace ++ trimEnd (headerKey line) ++ ": ".toList ++ redacted

/-- `redact_authorization_header`. -/
def redactAuthorizationHeader (line : List Char) : List Char :=
  if isAuthorization line then redactedHeader line else line

/-- What `redact_text` makes of a line. -/
def redactLine (line : List Char) : List Char := redactAuthorizationHeader (redactBearer line)

/-- The home directory gives way to a tilde. -/
def homeDone (text home : List Char) : List Char :=
  if home = [] then text else Text.replaceAll home ['~'] text

def redactChars (text home : List Char) : List Char :=
  Text.joined ((Text.pieces (homeDone text home)).map redactLine)

/-- `redact_text`. -/
def redactText (text home : String) : String := String.ofList (redactChars text.toList home.toList)

theorem toNat_of_endsToken {c : Char} (h : endsToken c) : c.toNat < 65 ∨ 122 < c.toNat := by
  simp only [endsToken, isWhitespace, Bool.or_eq_true, decide_eq_true_eq, List.mem_cons,
    List.not_mem_nil, or_false, ← Char.toNat_inj] at h
  simp at h
  omega

theorem toLower_of_endsToken {c : Char} (h : endsToken c) : c.toLower = c := by
  have hRange := toNat_of_endsToken h
  delta Char.toLower
  rw [dif_neg]
  simp only [ge_iff_le, UInt32.le_iff_toNat_le]
  have hVal : c.val.toNat = c.toNat := rfl
  simp
  omega

theorem eq_of_toLower {c : Char} (h : endsToken c.toLower) : c.toLower = c := by
  have hRange : c.toLower.toNat < 65 ∨ 122 < c.toLower.toNat := toNat_of_endsToken h
  delta Char.toLower at hRange ⊢
  split_ifs at hRange ⊢ with hUpper
  · exfalso
    have hShift : ('a'.val - 'A'.val).toNat = 32 := by decide
    have hZ : 'Z'.val.toNat = 90 := by decide
    have hA : 'A'.val.toNat = 65 := by decide
    simp only [ge_iff_le, UInt32.le_iff_toNat_le, hZ, hA] at hUpper
    rw [← Char.toNat_val] at hRange
    simp only [UInt32.toNat_add, hShift] at hRange
    omega
  · rfl

def endsBearer (w : List Char) : Bool := "bearer".toList <:+ lower w

/-- The keyword, with one blank behind it. -/
@[grind =] def isDirect (e : List Char × List Char) : Bool := endsBearer e.1 && e.2 = [' ']

/-- The words, those behind the keyword redacted. -/
@[grind =] def writeAfter : Bool → List (List Char × List Char) → List (List Char × List Char)
  | _, [] => []
  | true, (_, s) :: rest => (redacted, s) :: writeAfter false rest
  | false, (w, s) :: rest => (w, s) :: writeAfter (isDirect (w, s)) rest

section Scanner

variable {w s t rest after : List Char}

theorem keyword_here {k : List Char} (hk : ∀ c ∈ k, endsToken c = false)
    (hw : ∀ c ∈ w, endsToken c = false) (ht : ∀ c ∈ t.head?, endsToken c) :
    k ++ [' '] <+: lower (w ++ t) ↔ lower w = k ∧ t.head? = some ' ' := by
  induction k generalizing w with
  | nil =>
    cases w with
    | nil =>
      cases t with
      | nil => simp [lower]
      | cons c t =>
        have hc : c.toLower = c := toLower_of_endsToken (ht c rfl)
        simp [lower, hc, eq_comm]
    | cons c w =>
      have hc : ¬ ' ' = c.toLower := by
        intro hSpace
        have hSame : c.toLower = c := eq_of_toLower (by rw [← hSpace]; decide)
        have hWord := hw c List.mem_cons_self
        rw [← hSame, ← hSpace] at hWord
        revert hWord
        decide
      simp [lower, hc]
  | cons a k ih =>
    obtain ⟨ha, hk⟩ := List.forall_mem_cons.mp hk
    cases w with
    | nil =>
      cases t with
      | nil => simp [lower]
      | cons c t =>
        have hEnd := ht c rfl
        have hc : ¬a = c.toLower := by
          rintro rfl
          rw [toLower_of_endsToken hEnd, hEnd] at ha
          cases ha
        simp [lower, hc]
    | cons c w =>
      have hRest := ih hk fun c' h' => hw c' (List.mem_cons_of_mem _ h')
      simp only [lower, List.cons_append, List.map_cons, List.cons_prefix_cons, List.cons.injEq] at hRest ⊢
      rw [hRest]
      constructor
      · rintro ⟨rfl, rfl, h⟩
        exact ⟨⟨rfl, rfl⟩, h⟩
      · rintro ⟨⟨rfl, rfl⟩, h⟩
        exact ⟨rfl, rfl, h⟩

theorem bearer_letters : ∀ c ∈ "bearer".toList, endsToken c = false := List.all_iff_forall_prop.mp (by decide)

theorem keyword_iff (hw : ∀ c ∈ w, endsToken c = false) (ht : ∀ c ∈ t.head?, endsToken c) :
    keyword <+: lower (w ++ t) ↔ lower w = "bearer".toList ∧ t.head? = some ' ' :=
  keyword_here bearer_letters hw ht

theorem endsBearer_cons (c : Char) (w : List Char) :
    endsBearer (c :: w) ↔ lower (c :: w) = "bearer".toList ∨ endsBearer w := by
  simp only [endsBearer, decide_eq_true_eq]
  exact List.suffix_cons_iff.trans (or_congr_left eq_comm)

theorem findKeyword_found (hw : ∀ c ∈ w, endsToken c = false) (hBearer : endsBearer w) :
    findKeyword (w ++ ' ' :: t) = some (w ++ [' '], t) := by
  induction w with
  | nil => exact absurd hBearer (by decide)
  | cons c w ih =>
    have hHere := keyword_iff (t := ' ' :: t) hw (by simp; decide)
    rw [List.cons_append, findKeyword]
    split_ifs with h
    · have hLength : (c :: w).length = 6 := by
        have hLower := congrArg List.length (hHere.mp h).1
        rwa [lower, List.length_map] at hLower
      have hSeven : keyword.length = (c :: w ++ [' ']).length := by
        rw [List.length_append, hLength]
        decide
      have hAll : c :: (w ++ ' ' :: t) = (c :: w ++ [' ']) ++ t := by simp
      rw [hSeven, hAll, List.take_left, List.drop_left]
    · have hLater : endsBearer w :=
        ((endsBearer_cons c w).mp hBearer).resolve_left fun hLower => h (hHere.mpr ⟨hLower, rfl⟩)
      rw [ih (fun c' h' => hw c' (List.mem_cons_of_mem _ h')) hLater]
      rfl

theorem findKeyword_word (hw : ∀ c ∈ w, endsToken c = false) (ht : ∀ c ∈ t.head?, endsToken c)
    (hNot : ¬(endsBearer w ∧ t.head? = some ' ')) :
    findKeyword (w ++ t) = (findKeyword t).map fun found => (w ++ found.1, found.2) := by
  induction w with
  | nil => simp
  | cons c w ih =>
    have hHere : ¬keyword <+: lower (c :: w ++ t) := fun h =>
      hNot ⟨(endsBearer_cons c w).mpr (.inl ((keyword_iff hw ht).mp h).1), ((keyword_iff hw ht).mp h).2⟩
    have hRest := ih (fun c' h' => hw c' (List.mem_cons_of_mem _ h')) fun h =>
      hNot ⟨(endsBearer_cons c w).mpr (.inr h.1), h.2⟩
    rw [List.cons_append] at hHere ⊢
    rw [findKeyword, if_neg hHere, hRest, Option.map_map]
    rfl

theorem findKeyword_separators (hs : ∀ c ∈ s, endsToken c) :
    findKeyword (s ++ t) = (findKeyword t).map fun found => (s ++ found.1, found.2) := by
  induction s with
  | nil => simp
  | cons c s ih =>
    obtain ⟨hc, hs⟩ := List.forall_mem_cons.mp hs
    have hHere : ¬keyword <+: lower (c :: (s ++ t)) := by
      rw [← List.nil_append (c :: (s ++ t)), keyword_iff (by simp) (by simpa using hc)]
      exact fun h => absurd h.1 (by decide)
    rw [List.cons_append, findKeyword, if_neg hHere, ih hs, Option.map_map]
    rfl

theorem redactBearer_none (h : findKeyword rest = none) : redactBearer rest = rest := by
  rw [redactBearer]
  split
  · rfl
  · rename_i hFound
    rw [h] at hFound
    cases hFound

theorem redactBearer_some {through : List Char} (h : findKeyword rest = some (through, after)) :
    redactBearer rest = through ++
      (if (after.takeWhile fun c => !endsToken c) = [] then [] else redacted) ++
        redactBearer (after.dropWhile fun c => !endsToken c) := by
  rw [redactBearer]
  split
  · rename_i hFound
    rw [h] at hFound
    cases hFound
  · rename_i hFound
    rw [h] at hFound
    cases hFound
    rfl

theorem redactBearer_passed
    (h : findKeyword (t ++ rest) = (findKeyword rest).map fun found => (t ++ found.1, found.2)) :
    redactBearer (t ++ rest) = t ++ redactBearer rest := by
  cases hRest : findKeyword rest with
  | none => rw [redactBearer_none hRest, redactBearer_none (by rw [h, hRest]; rfl)]
  | some found =>
    rw [hRest] at h
    rw [redactBearer_some hRest, redactBearer_some h, List.append_assoc, List.append_assoc,
      List.append_assoc]

theorem takeWhile_word (hw : ∀ c ∈ w, endsToken c = false) (ht : ∀ c ∈ t.head?, endsToken c) :
    ((w ++ t).takeWhile fun c => !endsToken c) = w ∧
      ((w ++ t).dropWhile fun c => !endsToken c) = t := by
  have hWord : ∀ c ∈ w, (!endsToken c) = true := by simpa using hw
  rw [List.takeWhile_append_of_pos hWord, List.dropWhile_append_of_pos hWord]
  cases t with
  | nil => simp
  | cons c t =>
    have hc := ht c rfl
    simp [hc]

end Scanner

variable {ws : List (List Char × List Char)}

theorem head_unsplit {w s : List Char} {rest : List (List Char × List Char)}
    (h : Text.IsSplit endsToken ((w, s) :: rest)) :
    ∀ c ∈ (s ++ Text.unsplit rest).head?, endsToken c := by
  obtain ⟨-, hSep, -, hNext, -⟩ := h
  intro c hc
  cases s with
  | cons c' s =>
    obtain rfl : c' = c := by simpa using hc
    exact hSep _ List.mem_cons_self
  | nil =>
    cases rest with
    | nil => cases hc
    | cons e rest => exact absurd rfl (hNext e rfl).1

theorem redactBearer_unsplit (h : Text.IsSplit endsToken ws) :
    redactBearer (Text.unsplit ws) = Text.unsplit (writeAfter false ws) ∧
      ((∀ e ∈ ws.head?, e.1 ≠ []) →
        (if ((Text.unsplit ws).takeWhile fun c => !endsToken c) = [] then [] else redacted) ++
            redactBearer ((Text.unsplit ws).dropWhile fun c => !endsToken c) =
          Text.unsplit (writeAfter true ws)) := by
  induction ws with
  | nil => simp [redactBearer_none (show findKeyword [] = none from rfl), writeAfter]
  | cons e rest ih =>
    obtain ⟨w, s⟩ := e
    have hHead := head_unsplit h
    obtain ⟨hWord, hSep, -, hNext, hRest⟩ := h
    obtain ⟨ihScan, ihToken⟩ := ih hRest
    have hPassed : redactBearer (s ++ Text.unsplit rest) = s ++ redactBearer (Text.unsplit rest) :=
      redactBearer_passed (findKeyword_separators hSep)
    obtain ⟨hTake, hDrop⟩ := takeWhile_word hWord hHead
    rw [Text.unsplit_cons]
    refine ⟨?_, fun hw => ?_⟩
    · by_cases hFound : endsBearer w ∧ (s ++ Text.unsplit rest).head? = some ' '
      · obtain ⟨hBearer, hSpace⟩ := hFound
        cases s with
        | nil =>
          cases rest with
          | nil => cases hSpace
          | cons e rest => exact absurd rfl (hNext e rfl).1
        | cons c tail =>
          obtain rfl : c = ' ' := by simpa using hSpace
          rw [List.cons_append, redactBearer_some (findKeyword_found hWord hBearer)]
          cases tail with
          | nil =>
            have hDirect : isDirect (w, [' ']) = true := by simp [isDirect, hBearer]
            rw [writeAfter, hDirect, Text.unsplit_cons, List.append_assoc, List.nil_append,
              ihToken fun e he => (hNext e he).2]
            simp
          | cons c tail =>
            have hc : endsToken c := hSep c (by simp)
            have hNot : isDirect (w, ' ' :: c :: tail) = false := by simp [isDirect]
            have hTailSep : ∀ c' ∈ c :: tail, endsToken c' := fun c' h' =>
              hSep c' (List.mem_cons_of_mem _ h')
            have hTail : redactBearer (c :: (tail ++ Text.unsplit rest)) =
                c :: (tail ++ redactBearer (Text.unsplit rest)) :=
              redactBearer_passed (findKeyword_separators hTailSep)
            rw [writeAfter, hNot, Text.unsplit_cons, ← ihScan]
            simp [hc, hTail]
      · have hNot : isDirect (w, s) = false := by
          rw [Bool.eq_false_iff]
          intro hDirect
          simp only [isDirect, Bool.and_eq_true, decide_eq_true_eq] at hDirect
          exact hFound ⟨hDirect.1, by rw [hDirect.2]; rfl⟩
        rw [redactBearer_passed (findKeyword_word hWord hHead hFound), hPassed, ihScan, writeAfter, hNot,
          Text.unsplit_cons]
    · rw [hTake, hDrop, if_neg (hw _ rfl), hPassed, ihScan, writeAfter, Text.unsplit_cons]

theorem redacted_word : redacted ≠ [] ∧ ∀ c ∈ redacted, endsToken c = false :=
  ⟨by decide, List.all_iff_forall_prop.mp (by decide)⟩

theorem isSplit_writeAfter (h : Text.IsSplit endsToken ws) (armed : Bool) :
    Text.IsSplit endsToken (writeAfter armed ws) := by
  induction ws generalizing armed with
  | nil => trivial
  | cons e rest ih =>
    obtain ⟨w, s⟩ := e
    obtain ⟨hWord, hSep, hSome, hNext, hRest⟩ := h
    have hNext' (armed : Bool) : ∀ e ∈ (writeAfter armed rest).head?, s ≠ [] ∧ e.1 ≠ [] := by
      cases rest with
      | nil => simp [writeAfter]
      | cons e rest =>
        obtain ⟨hs, hw⟩ := hNext e rfl
        cases armed <;> simp [writeAfter, hs, hw, redacted_word.1]
    cases armed with
    | true => exact ⟨redacted_word.2, hSep, .inl redacted_word.1, hNext' _, ih hRest _⟩
    | false => exact ⟨hWord, hSep, hSome, hNext' _, ih hRest _⟩

theorem writeAfter_writeAfter (armed : Bool) (ws : List (List Char × List Char)) :
    writeAfter armed (writeAfter armed ws) = writeAfter armed ws := by
  induction ws generalizing armed with
  | nil => rfl
  | cons e rest ih => cases armed <;> simp only [writeAfter, ih]

/-- A line by its words and what stands between them. -/
def words (line : List Char) : List (List Char × List Char) := Text.split endsToken line

theorem redactBearer_eq (line : List Char) :
    redactBearer line = Text.unsplit (writeAfter false (words line)) := by
  rw [words, ← (redactBearer_unsplit (Text.isSplit_split line)).1, Text.unsplit_split]

theorem words_redactBearer (line : List Char) :
    words (redactBearer line) = writeAfter false (words line) := by
  rw [redactBearer_eq]
  exact Text.split_unsplit (isSplit_writeAfter (Text.isSplit_split line) false)

theorem redactBearer_redactBearer (line : List Char) :
    redactBearer (redactBearer line) = redactBearer line := by
  rw [redactBearer_eq (redactBearer line), words_redactBearer, writeAfter_writeAfter,
    ← redactBearer_eq]

section Headers

variable {p line : List Char}

theorem mem_dropWhile {s : List Char} {c : Char} (h : c ∈ s) (hc : isWhitespace c = false) :
    c ∈ s.dropWhile isWhitespace := by
  rw [← List.takeWhile_append_dropWhile (p := isWhitespace) (l := s)] at h
  refine (List.mem_append.mp h).resolve_left fun hTake => ?_
  rw [List.mem_takeWhile_imp hTake] at hc
  cases hc

theorem mem_trimEnd {s : List Char} {c : Char} (h : c ∈ s) (hc : isWhitespace c = false) :
    c ∈ trimEnd s :=
  List.mem_reverse.mpr (mem_dropWhile (List.mem_reverse.mpr h) hc)

theorem dropWhile_known {c : Char} (h : c ∈ p) (hc : isWhitespace c = false) (t : List Char) :
    (p ++ t).dropWhile isWhitespace = p.dropWhile isWhitespace ++ t := by
  rw [List.dropWhile_append, if_neg]
  rw [List.isEmpty_iff]
  exact List.ne_nil_of_mem (mem_dropWhile h hc)

theorem header_known (h : ':' ∈ p) (t : List Char) :
    isAuthorization (p ++ t) = isAuthorization p ∧ redactedHeader (p ++ t) = redactedHeader p := by
  have hColon : isWhitespace ':' = false := by decide
  have hMem := mem_dropWhile h hColon
  have hKey : headerKey (p ++ t) = headerKey p := by
    rw [headerKey, dropWhile_known h hColon, List.takeWhile_append, if_neg]
    · rfl
    · intro hLength
      have hAll := (List.takeWhile_prefix _).eq_of_length hLength
      rw [← hAll] at hMem
      simpa using List.mem_takeWhile_imp hMem
  have hIndent : (p ++ t).takeWhile isWhitespace = p.takeWhile isWhitespace := by
    rw [List.takeWhile_append, if_neg]
    intro hLength
    have hAll := (List.takeWhile_prefix _).eq_of_length hLength
    rw [← hAll] at h
    rw [List.mem_takeWhile_imp h] at hColon
    cases hColon
  constructor
  · rw [isAuthorization, isAuthorization, hKey, dropWhile_known h hColon]
    simp [hMem]
  · rw [redactedHeader, redactedHeader, hKey, hIndent]

theorem keyword_letter (hKeyword : keyword <:+ lower p) :
    ∃ c ∈ p, c.toLower = 'b' ∧ isWhitespace c = false := by
  have hLetter : 'b' ∈ keyword := by decide
  obtain ⟨c, hMem, hb⟩ := List.mem_map.mp (hKeyword.subset hLetter)
  refine ⟨c, hMem, hb, Bool.eq_false_iff.mpr fun hSpace => ?_⟩
  have hSame : c.toLower = c := toLower_of_endsToken (by rw [endsToken, hSpace]; rfl)
  have hNot : isWhitespace 'b' = false := by decide
  rw [← hb, hSame, hSpace] at hNot
  cases hNot

theorem not_header (h : ':' ∉ p) (hKeyword : keyword <:+ lower p) (t : List Char) :
    isAuthorization (p ++ t) = false := by
  obtain ⟨c, hMem, hb, hc⟩ := keyword_letter hKeyword
  have hFree : ∀ c' ∈ p.dropWhile isWhitespace, decide (c' ≠ ':') = true := fun c' hc' =>
    decide_eq_true fun hEq => h (hEq ▸ (List.dropWhile_sublist _).subset hc')
  have hKey : c ∈ headerKey (p ++ t) := by
    rw [headerKey, dropWhile_known hMem hc, List.takeWhile_append_of_pos hFree]
    exact List.mem_append_left _ (mem_dropWhile hMem hc)
  have hLetter : 'b' ∈ lower (trimEnd ((headerKey (p ++ t)).dropWhile isWhitespace)) :=
    List.mem_map.mpr ⟨c, mem_trimEnd (mem_dropWhile hKey hc) hc, hb⟩
  have hNone : 'b' ∉ "authorization".toList := by decide
  have hNot : lower (trimEnd ((headerKey (p ++ t)).dropWhile isWhitespace)) ≠
      "authorization".toList := fun hEq => hNone (hEq ▸ hLetter)
  rw [isAuthorization, decide_eq_false hNot, Bool.and_false]

theorem isAuthorization_redactBearer (line : List Char) :
    isAuthorization (redactBearer line) = isAuthorization line ∧
      (isAuthorization line → redactedHeader (redactBearer line) = redactedHeader line) := by
  cases hFound : findKeyword line with
  | none => simp [redactBearer_none hFound]
  | some found =>
    obtain ⟨through, after⟩ := found
    obtain ⟨rfl, hKeyword⟩ := findKeyword_some hFound
    rw [redactBearer_some hFound, List.append_assoc]
    by_cases hColon : ':' ∈ through
    · obtain ⟨hIs, hForm⟩ := header_known hColon after
      rw [hIs, hForm, (header_known hColon _).1, (header_known hColon _).2]
      simp
    · simp [not_header hColon hKeyword]

theorem redactLine_eq (line : List Char) :
    redactLine line = if isAuthorization line then redactedHeader line else redactBearer line := by
  obtain ⟨hIs, hForm⟩ := isAuthorization_redactBearer line
  rw [redactLine, redactAuthorizationHeader, hIs]
  split_ifs with h
  · exact hForm h
  · rfl

/-- A header line: what stands before its colon, and its value. -/
structure Header (line indent key gap value : List Char) : Prop where
  line : line = indent ++ (key ++ (gap ++ ':' :: value))
  indent : ∀ c ∈ indent, isWhitespace c
  key : lower key = "authorization".toList
  gap : ∀ c ∈ gap, isWhitespace c

theorem Header.key_free {indent key gap value : List Char} (h : Header line indent key gap value) :
    ∀ c ∈ key, isWhitespace c = false ∧ c ≠ ':' := by
  have hLetters : ∀ c ∈ "authorization".toList, endsToken c = false ∧ c ≠ ':' :=
    List.all_iff_forall_prop.mp (by decide)
  intro c hc
  have hMem : c.toLower ∈ lower key := List.mem_map_of_mem hc
  rw [h.key] at hMem
  have hLower := hLetters _ hMem
  constructor
  · rw [Bool.eq_false_iff]
    intro hSpace
    have hEnd : endsToken c = true := by simp [endsToken, hSpace]
    rw [toLower_of_endsToken hEnd, hEnd] at hLower
    cases hLower.1
  · rintro rfl
    exact hLower.2 rfl

theorem dropWhile_free {q : Char → Bool} {s : List Char} (h : ∀ c ∈ s, q c = false) :
    s.dropWhile q = s := by
  cases s with
  | nil => rfl
  | cons c s => simp [h c List.mem_cons_self]

theorem Header.recognized {indent key gap value : List Char} (h : Header line indent key gap value) :
    isAuthorization line ∧ redactedHeader line = indent ++ (key ++ (": ".toList ++ redacted)) := by
  obtain ⟨c, key', rfl⟩ : ∃ c key', key = c :: key' := by
    cases key with
    | nil => cases h.key
    | cons c key' => exact ⟨c, key', rfl⟩
  have hFree := h.key_free
  have hGap : ∀ c ∈ gap, decide (c ≠ ':') = true := fun c' hc' => decide_eq_true fun hEq => by
    have hSpace := h.gap c' hc'
    rw [hEq] at hSpace
    revert hSpace
    decide
  have hRest : line.dropWhile isWhitespace = c :: key' ++ (gap ++ ':' :: value) := by
    rw [h.line, List.dropWhile_append_of_pos h.indent]
    simp [(hFree c List.mem_cons_self).1]
  have hIndent : line.takeWhile isWhitespace = indent := by
    rw [h.line, List.takeWhile_append_of_pos h.indent]
    simp [(hFree c List.mem_cons_self).1]
  have hKey : headerKey line = c :: key' ++ gap := by
    rw [headerKey, hRest, List.takeWhile_append_of_pos fun c' hc' => decide_eq_true (hFree c' hc').2,
      List.takeWhile_append_of_pos hGap]
    simp
  have hTrim : trimEnd (c :: key' ++ gap) = c :: key' := by
    rw [trimEnd, List.rdropWhile, List.reverse_append,
      List.dropWhile_append_of_pos fun c' hc' => h.gap c' (List.mem_reverse.mp hc'),
      dropWhile_free fun c' hc' => (hFree c' (List.mem_reverse.mp hc')).1, List.reverse_reverse]
  constructor
  · have hTrimStart : (c :: key' ++ gap).dropWhile isWhitespace = c :: key' ++ gap := by
      simp [(hFree c List.mem_cons_self).1]
    rw [isAuthorization, hRest, hKey, hTrimStart, hTrim, h.key]
    simp
  · rw [redactedHeader, hIndent, hKey, hTrim]
    simp

theorem exists_header (h : isAuthorization line) :
    ∃ indent key gap value, Header line indent key gap value := by
  simp only [isAuthorization, Bool.and_eq_true, decide_eq_true_eq] at h
  obtain ⟨hColon, hKey⟩ := h
  have hStart : (headerKey line).dropWhile isWhitespace = headerKey line := by
    cases hEq : headerKey line with
    | nil => rfl
    | cons c key =>
      have hHead : (line.dropWhile isWhitespace).head? = some c := by
        rw [headerKey] at hEq
        have hPrefix := List.takeWhile_prefix (p := (· ≠ ':')) (l := line.dropWhile isWhitespace)
        rw [hEq] at hPrefix
        obtain ⟨rest, hRest⟩ := hPrefix
        rw [← hRest]
        rfl
      have hc := List.head?_dropWhile_not isWhitespace line
      rw [hHead] at hc
      simp [hc]
  obtain ⟨value, hValue⟩ : ∃ value, line.dropWhile isWhitespace = headerKey line ++ ':' :: value := by
    obtain ⟨front, value, hEq, hFront⟩ := List.eq_append_cons_of_mem hColon
    have hBefore : ∀ c ∈ front, decide (c ≠ ':') = true := fun c hc =>
      decide_eq_true fun h => hFront (h ▸ hc)
    refine ⟨value, ?_⟩
    rw [headerKey, hEq, List.takeWhile_append_of_pos hBefore]
    simp
  refine ⟨line.takeWhile isWhitespace, trimEnd (headerKey line),
    (headerKey line).rtakeWhile isWhitespace, value, ?_, ?_, ?_, ?_⟩
  · rw [← List.append_assoc (trimEnd _), trimEnd, List.rdropWhile_append_rtakeWhile, ← hValue,
      List.takeWhile_append_dropWhile]
  · exact fun c hc => List.mem_takeWhile_imp hc
  · rw [← hStart]
    exact hKey
  · exact fun c hc => List.mem_rtakeWhile_imp hc

theorem redactLine_redactLine (line : List Char) : redactLine (redactLine line) = redactLine line := by
  rw [redactLine_eq line]
  split_ifs with h
  · obtain ⟨indent, key, gap, value, hHeader⟩ := exists_header h
    rw [hHeader.recognized.2]
    have hAgain : Header (indent ++ (key ++ (": ".toList ++ redacted))) indent key []
      (' ' :: redacted) := ⟨by simp, hHeader.indent, hHeader.key, by simp⟩
    rw [redactLine_eq, if_pos hAgain.recognized.1, hAgain.recognized.2]
  · obtain ⟨hIs, -⟩ := isAuthorization_redactBearer line
    rw [redactLine_eq, hIs, if_neg h, redactBearer_redactBearer]

end Headers

end Cronymax.Extensions
