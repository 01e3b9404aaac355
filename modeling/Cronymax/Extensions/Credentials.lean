import Cronymax.Extensions.Redaction

/-! What a redacted text may show.  A credential is a word behind the word `Bearer`, blanks, and perhaps a
quotation mark.  The scanner writes over the word behind a single space and whatever ends in `Bearer`, unless
that one has been written over as well.  Lines that are headers lose their values in any case.  A second
redaction changes nothing unless the home directory comes about over an edge of what the first has written. -/

namespace Cronymax.Extensions

def isBlank (c : Char) : Bool := c = ' ' || c = '\t'

/-- Blanks, with a quotation mark behind them at most. -/
def isGap (s : List Char) : Bool :=
  s.takeWhile isBlank ≠ [] && [[], ['"'], ['\'']].contains (s.dropWhile isBlank)

/-- It ends with the word `Bearer`, with no letter, digit or underscore before it. -/
def namesBearer (w : List Char) : Bool :=
  endsBearer w && (w.rdrop 6).getLast?.all fun c => !(c.isAlphanum || c = '_')

/-- The word is Bearer and a credential can follow it. -/
def exposes (e : List Char × List Char) : Bool := namesBearer e.1 && isGap e.2

/-- The words with those that are exposed written over. -/
def hideAfter : Bool → List (List Char × List Char) → List (List Char × List Char)
  | _, [] => []
  | follows, (w, s) :: rest => (if follows then redacted else w, s) :: hideAfter (exposes (w, s)) rest

/-- The line with its credentials gone. -/
def safeLine (line : List Char) : List Char :=
  if isAuthorization line then redactedHeader line
  else Text.unsplit (hideAfter false (words line))

/-- The line has neither a credential nor a header. -/
def Harmless (line : List Char) : Prop :=
  isAuthorization line = false ∧ ∀ before e e' after, words line = before ++ e :: e' :: after → ¬exposes e

/-- What the redaction of a text promises. -/
structure Redacts (text home : String) : Prop where
  lines : (redactText text home).toList =
    Text.joined ((Text.pieces (homeDone text.toList home.toList)).map safeLine)
  again : redactText (redactText text home) home = redactText text home
  unchanged : (home = "" ∨ ¬home.toList <:+: text.toList) →
    (∀ line ∈ Text.pieces text.toList, Harmless line) → redactText text home = text

/-- The scanner writes over just the words that are exposed. -/
def Reached (line : List Char) : Prop :=
  ∀ before e w s after, words line = before ++ e :: (w, s) :: after →
    w = redacted ∨ (exposes e ↔ isDirect e ∧ ∀ e' ∈ before.getLast?, ¬exposes e')

section Scan

variable {ws : List (List Char × List Char)}

theorem not_direct_redacted (s : List Char) : isDirect (redacted, s) = false := by
  have hNot : endsBearer redacted = false := by decide
  simp [isDirect, hNot]

/-- The words that the scan redacts are those that have to go. -/
def ReachedFrom : Bool → Bool → List (List Char × List Char) → Prop
  | _, _, [] => True
  | follows, armed, (w, s) :: rest => (w = redacted ∨ follows = armed) ∧
      ReachedFrom (exposes (w, s)) (isDirect (w, s) && !follows) rest

theorem writeAfter_eq_iff {follows armed : Bool} :
    writeAfter armed ws = hideAfter follows ws ↔ ReachedFrom follows armed ws := by
  induction ws generalizing follows armed with
  | nil => simp [writeAfter, hideAfter, ReachedFrom]
  | cons e rest ih =>
    obtain ⟨w, s⟩ := e
    cases armed with
    | true =>
      rw [writeAfter, hideAfter, List.cons.injEq, ReachedFrom, ih]
      cases follows with
      | true => simp
      | false =>
        simp only [Bool.false_eq_true, if_false, Prod.mk.injEq, and_true, or_false, Bool.not_false,
          Bool.and_true]
        refine ⟨fun ⟨hw, h⟩ => ⟨hw.symm, ?_⟩, fun ⟨hw, h⟩ => ⟨hw.symm, ?_⟩⟩
        · rwa [← hw, not_direct_redacted, hw]
        · rwa [hw, not_direct_redacted, ← hw] at h
    | false =>
      rw [writeAfter, hideAfter, List.cons.injEq, Prod.mk.injEq, ih, ReachedFrom]
      cases follows with
      | false => simp
      | true =>
        simp only [if_true, and_true, reduceCtorEq, or_false, Bool.not_true, Bool.and_false]
        refine and_congr_right fun hw => ?_
        rw [hw, not_direct_redacted]

theorem reachedFrom_iff {follows armed : Bool} : ReachedFrom follows armed ws ↔
    (∀ e ∈ ws.head?, e.1 = redacted ∨ follows = armed) ∧
    (∀ e w s after, ws = e :: (w, s) :: after →
      w = redacted ∨ (exposes e ↔ isDirect e ∧ follows = false)) ∧
    ∀ before e' e w s after, ws = before ++ e' :: e :: (w, s) :: after →
      w = redacted ∨ (exposes e ↔ isDirect e ∧ ¬exposes e') := by
  induction ws generalizing follows armed with
  | nil => simp [ReachedFrom]
  | cons e rest ih =>
    rw [ReachedFrom, ih]
    constructor
    · rintro ⟨hFirst, hSecond, hThird, hLater⟩
      refine ⟨by simpa using hFirst, fun e w s after hEq => ?_, fun before e' e w s after hEq => ?_⟩
      · cases hEq
        exact (hSecond (w, s) rfl).imp_right fun h => by rw [h]; simp
      · cases before with
        | nil =>
          cases hEq
          simpa using hThird e w s after rfl
        | cons b before =>
          cases hEq
          exact hLater before e' e w s after rfl
    · rintro ⟨hFirst, hSecond, hLater⟩
      refine ⟨by simpa using hFirst, fun next hNext => ?_, fun e' w s after hEq => ?_,
        fun before e' e w s after hEq => ?_⟩
      · obtain ⟨after, rfl⟩ := List.head?_eq_some_iff.mp hNext
        exact (hSecond e next.1 next.2 after rfl).imp_right fun h => Bool.eq_iff_iff.mpr (h.trans (by simp))
      · subst hEq
        simpa using hLater [] e e' w s after rfl
      · subst hEq
        exact hLater (_ :: before) e' e w s after rfl

theorem isSplit_hideAfter (h : Text.IsSplit endsToken ws) (follows : Bool) :
    Text.IsSplit endsToken (hideAfter follows ws) := by
  induction ws generalizing follows with
  | nil => trivial
  | cons e rest ih =>
    obtain ⟨w, s⟩ := e
    obtain ⟨hWord, hSep, hSome, hNext, hRest⟩ := h
    have hNext' (follows : Bool) : ∀ e ∈ (hideAfter follows rest).head?, s ≠ [] ∧ e.1 ≠ [] := by
      cases rest with
      | nil => simp [hideAfter]
      | cons e rest =>
        obtain ⟨hs, hw⟩ := hNext e rfl
        cases follows <;> simp [hideAfter, hs, hw, redacted_word.1]
    cases follows with
    | true => exact ⟨redacted_word.2, hSep, .inl redacted_word.1, hNext' _, ih hRest _⟩
    | false => exact ⟨hWord, hSep, hSome, hNext' _, ih hRest _⟩

theorem reached_iff (line : List Char) :
    redactBearer line = Text.unsplit (hideAfter false (words line)) ↔ Reached line := by
  have hSplit : Text.IsSplit endsToken (words line) := Text.isSplit_split line
  rw [redactBearer_eq, Text.unsplit_inj (isSplit_writeAfter hSplit _) (isSplit_hideAfter hSplit _),
    writeAfter_eq_iff, reachedFrom_iff, Reached]
  constructor
  · rintro ⟨-, hSecond, hLater⟩ before e w s after hEq
    rcases List.eq_nil_or_concat before with rfl | ⟨before, e', rfl⟩
    · simpa using hSecond e w s after hEq
    · simpa using hLater before e' e w s after (by simpa using hEq)
  · refine fun h => ⟨by simp, fun e w s after hEq => ?_, fun before e' e w s after hEq => ?_⟩
    · simpa using h [] e w s after hEq
    · simpa using h (before ++ [e']) e w s after (by simpa using hEq)

theorem redactLine_safe_iff (line : List Char) :
    redactLine line = safeLine line ↔ (isAuthorization line = false → Reached line) := by
  rw [redactLine_eq, safeLine, ← reached_iff]
  split_ifs with h <;> simp [h]

theorem safeLine_harmless {line : List Char} (h : Harmless line) : safeLine line = line := by
  have hWords (ws : List (List Char × List Char))
      (hWs : ∀ before e e' after, ws = before ++ e :: e' :: after → ¬exposes e) :
      hideAfter false ws = ws := by
    induction ws with
    | nil => rfl
    | cons e rest ih =>
      have ihRest := ih fun before e₁ e₂ after hEq => hWs (e :: before) e₁ e₂ after (by rw [hEq]; rfl)
      cases rest with
      | nil => rfl
      | cons e' rest =>
        have hNot : exposes e = false := Bool.eq_false_iff.mpr (hWs [] e e' rest rfl)
        rw [hideAfter, hNot, ihRest]
        rfl
  rw [safeLine, h.1, if_neg (by simp), hWords _ h.2, words, Text.unsplit_split]

end Scan

/-- The home directory comes about over an edge of what is written into the line. -/
def Overruns (home line : List Char) : Prop :=
  home <:+: safeLine line ∧ if isAuthorization line then ':' ∈ home else ∃ c ∈ home, endsToken c

section Again

variable {home line : List Char} {ws : List (List Char × List Char)}

theorem countP_redactBearer_le {p : Char → Bool} (hp : redacted.countP p = 0) (line : List Char) :
    (redactBearer line).countP p ≤ line.countP p := by
  have hWords (ws : List (List Char × List Char)) (armed : Bool) :
      (Text.unsplit (writeAfter armed ws)).countP p ≤ (Text.unsplit ws).countP p := by
    induction ws generalizing armed with
    | nil => exact le_rfl
    | cons e rest ih =>
      obtain ⟨w, s⟩ := e
      cases armed with
      | true =>
        have ih := ih false
        simp only [writeAfter, Text.unsplit_cons, List.countP_append, hp]
        omega
      | false =>
        have ih := ih (isDirect (w, s))
        simp only [writeAfter, Text.unsplit_cons, List.countP_append]
        omega
  rw [redactBearer_eq]
  refine (hWords _ _).trans_eq ?_
  rw [words, Text.unsplit_split]

theorem isAuthorization_redactedHeader (h : isAuthorization line) : isAuthorization (redactedHeader line) := by
  obtain ⟨indent, key, gap, value, hHeader⟩ := exists_header h
  have hAgain : Header (redactedHeader line) indent key [] (' ' :: redacted) :=
    ⟨by rw [hHeader.recognized.2]; rfl, hHeader.indent, hHeader.key, by simp⟩
  exact hAgain.recognized.1

/-- A header is put back as it was unless its colon goes. -/
theorem header_again_iff (hHome : home ≠ []) (hAbsent : ¬home <:+: line)
    (h : isAuthorization line) :
    redactLine (Text.replaceAll home ['~'] (redactedHeader line)) = redactedHeader line ↔
      ¬(home <:+: redactedHeader line ∧ ':' ∈ home) := by
  obtain ⟨indent, key, gap, value, hHeader⟩ := exists_header h
  have hForm := hHeader.recognized.2
  constructor
  · rintro hAgain ⟨hOccurs, hColon⟩
    have hLess : (Text.replaceAll home ['~'] (redactedHeader line)).count ':' < _ :=
      Text.count_replaceAll_lt (by decide) hColon hOccurs
    have hOne : (redactedHeader line).count ':' = 1 := by
      have hFree (part : List Char) (hPart : ∀ c ∈ part, c ≠ ':') : part.count ':' = 0 :=
        List.count_eq_zero.mpr fun hMem => hPart _ hMem rfl
      have hIndent : ∀ c ∈ indent, c ≠ ':' := by
        rintro c hc rfl
        exact absurd (hHeader.indent _ hc) (by decide)
      have hWritten : (": ".toList ++ redacted).count ':' = 1 := by decide
      rw [hForm, List.count_append, List.count_append, hFree indent hIndent,
        hFree key fun c hc => (hHeader.key_free c hc).2, hWritten]
    have hNone : ':' ∉ Text.replaceAll home ['~'] (redactedHeader line) := List.count_eq_zero.mp (by omega)
    have hBare : isAuthorization (Text.replaceAll home ['~'] (redactedHeader line)) = false := by
      rw [isAuthorization, decide_eq_false fun hMem => hNone ((List.dropWhile_sublist _).subset hMem), Bool.false_and]
    rw [redactLine_eq, hBare, if_neg Bool.false_ne_true] at hAgain
    have hCount : (redactBearer (Text.replaceAll home ['~'] (redactedHeader line))).count ':' ≤ _ :=
      countP_redactBearer_le (by decide) _
    rw [hAgain] at hCount
    exact Nat.not_lt.mpr hCount hLess
  · intro hNot
    by_cases hOccurs : home <:+: redactedHeader line
    · have hColon : ':' ∉ home := fun hMem => hNot ⟨hOccurs, hMem⟩
      have hSplit : redactedHeader line = (indent ++ key) ++ ':' :: (' ' :: redacted) := by
        rw [hForm, List.append_assoc]
        rfl
      have hKept : Text.replaceAll home ['~'] (indent ++ key) = indent ++ key :=
        Text.replaceAll_of_absent fun hIn => hAbsent (hIn.trans ⟨[], gap ++ ':' :: value, by
          rw [List.nil_append, List.append_assoc, ← hHeader.line]⟩)
      have hAgain : Header (Text.replaceAll home ['~'] (redactedHeader line)) indent key []
          (Text.replaceAll home ['~'] (' ' :: redacted)) :=
        ⟨by rw [hSplit, Text.replaceAll_between hHome hColon, hKept, List.append_assoc]; rfl, hHeader.indent,
          hHeader.key, by simp⟩
      rw [redactLine_eq, if_pos hAgain.recognized.1, hAgain.recognized.2, hForm]
    · rw [Text.replaceAll_of_absent hOccurs, redactLine_eq, if_pos (isAuthorization_redactedHeader h)]
      have hTwice := redactLine_redactLine line
      rw [redactLine_eq line, if_pos h, redactLine_eq, if_pos (isAuthorization_redactedHeader h)] at hTwice
      exact hTwice

/-- The words with the home directory replaced in each. -/
def replaceWords (home : List Char) (ws : List (List Char × List Char)) : List (List Char × List Char) :=
  ws.map fun e => (Text.replaceAll home ['~'] e.1, e.2)

theorem replaceAll_unsplit (hHome : home ≠ []) (hFree : ∀ c ∈ home, endsToken c = false)
    (h : Text.IsSplit endsToken ws) :
    Text.replaceAll home ['~'] (Text.unsplit ws) = Text.unsplit (replaceWords home ws) := by
  have hApart {c : Char} (hc : endsToken c) : c ∉ home := fun hMem => by
    rw [hFree c hMem] at hc
    cases hc
  induction ws with
  | nil => rfl
  | cons e rest ih =>
    obtain ⟨w, s⟩ := e
    obtain ⟨-, hSep, -, hNext, hRest⟩ := h
    rw [Text.unsplit_cons, replaceWords, List.map_cons, Text.unsplit_cons, ← replaceWords, ← ih hRest]
    cases s with
    | nil =>
      cases rest with
      | nil => simp [Text.replaceAll, Text.replaceFrom]
      | cons e rest => exact absurd rfl (hNext e rfl).1
    | cons c s =>
      obtain ⟨hc, hs⟩ := List.forall_mem_cons.mp hSep
      rw [List.cons_append, Text.replaceAll_between hHome (hApart hc),
        Text.replaceAll_behind hHome fun d hd => hApart (hs d hd)]
      rfl

theorem isSplit_replaceWords (hHome : home ≠ []) (h : Text.IsSplit endsToken ws) :
    Text.IsSplit endsToken (replaceWords home ws) := by
  have hTilde : ['~'].countP endsToken = 0 := by decide
  induction ws with
  | nil => trivial
  | cons e rest ih =>
    obtain ⟨w, s⟩ := e
    obtain ⟨hWord, hSep, hSome, hNext, hRest⟩ := h
    have hCount : (Text.replaceAll home ['~'] w).countP endsToken ≤ _ :=
      Text.countP_replaceAll_le hHome (by omega) w
    have hNone : w.countP endsToken = 0 := List.countP_eq_zero.mpr fun c hc => Bool.eq_false_iff.mp (hWord c hc)
    have hGone := List.countP_eq_zero.mp (Nat.le_zero.mp (hNone ▸ hCount))
    refine ⟨fun c hc => Bool.eq_false_iff.mpr (hGone c hc), hSep,
      hSome.imp_left (Text.replaceAll_ne_nil (List.cons_ne_nil _ _)), fun e he => ?_, ih hRest⟩
    obtain ⟨e', he', rfl⟩ := Option.mem_map.mp (List.head?_map .. ▸ he)
    exact ⟨(hNext e' he').1, Text.replaceAll_ne_nil (List.cons_ne_nil _ _) (hNext e' he').2⟩

theorem writeAfter_replaceWords (hWords : ∀ e ∈ ws, ¬home <:+: e.1) (armed : Bool) :
    writeAfter armed (replaceWords home (writeAfter armed ws)) = writeAfter armed ws := by
  induction ws generalizing armed with
  | nil => rfl
  | cons e rest ih =>
    obtain ⟨w, s⟩ := e
    obtain ⟨hWord, hRest⟩ := List.forall_mem_cons.mp hWords
    cases armed with
    | true => exact congrArg ((redacted, s) :: ·) (ih hRest false)
    | false =>
      have hKept : replaceWords home (writeAfter false ((w, s) :: rest)) =
          (w, s) :: replaceWords home (writeAfter (isDirect (w, s)) rest) := by
        rw [writeAfter, replaceWords, List.map_cons, Text.replaceAll_of_absent hWord]
        rfl
      rw [hKept, writeAfter, writeAfter, ih hRest]

theorem not_infix_word (h : ¬home <:+: Text.unsplit ws) : ∀ e ∈ ws, ¬home <:+: e.1 := by
  induction ws with
  | nil => simp
  | cons e rest ih =>
    rw [Text.unsplit_cons] at h
    refine List.forall_mem_cons.mpr ⟨fun hIn => h (hIn.trans List.infix_append_left), ih fun hIn => h ?_⟩
    exact hIn.trans (List.infix_append_right.trans List.infix_append_right)

/-- A line that is no header is put back as it was unless a separator goes. -/
theorem words_again_iff (hHome : home ≠ []) (hAbsent : ¬home <:+: line) (h : isAuthorization line = false) :
    redactLine (Text.replaceAll home ['~'] (redactBearer line)) = redactBearer line ↔
      ¬(home <:+: redactBearer line ∧ ∃ c ∈ home, endsToken c) := by
  have hLine : isAuthorization (redactBearer line) = false := (isAuthorization_redactBearer line).1.trans h
  constructor
  · rintro hAgain ⟨hOccurs, c, hc, hEnds⟩
    have hPositive : 0 < home.countP endsToken := List.countP_pos_iff.mpr ⟨c, hc, hEnds⟩
    have hLess := Text.countP_replaceAll_lt
      (show ['~'].countP endsToken < home.countP endsToken from hPositive) hOccurs
    rw [redactLine_eq] at hAgain
    split_ifs at hAgain with hHeader
    · rw [← hAgain, isAuthorization_redactedHeader hHeader] at hLine
      cases hLine
    · have hCount := countP_redactBearer_le (p := endsToken) (by decide)
        (Text.replaceAll home ['~'] (redactBearer line))
      rw [hAgain] at hCount
      exact Nat.not_lt.mpr hCount hLess
  · intro hNot
    by_cases hOccurs : home <:+: redactBearer line
    · have hFree : ∀ c ∈ home, endsToken c = false := fun c hc =>
        Bool.eq_false_iff.mpr fun hEnds => hNot ⟨hOccurs, c, hc, hEnds⟩
      have hSplit : Text.IsSplit endsToken (writeAfter false (words line)) :=
        isSplit_writeAfter (Text.isSplit_split line) false
      have hWords : ∀ e ∈ words line, ¬home <:+: e.1 := not_infix_word (by rwa [words, Text.unsplit_split])
      have hAgain : redactBearer (Text.replaceAll home ['~'] (redactBearer line)) = redactBearer line := by
        rw [redactBearer_eq line, replaceAll_unsplit hHome hFree hSplit,
          (redactBearer_unsplit (isSplit_replaceWords hHome hSplit)).1]
        exact congrArg _ (writeAfter_replaceWords hWords false)
      have hIs := (isAuthorization_redactBearer (Text.replaceAll home ['~'] (redactBearer line))).1
      rw [hAgain, hLine] at hIs
      rw [redactLine_eq, ← hIs, if_neg Bool.false_ne_true, hAgain]
    · rw [Text.replaceAll_of_absent hOccurs, redactLine_eq, hLine, if_neg Bool.false_ne_true,
        redactBearer_redactBearer]

end Again

section Lines

variable {ws : List (List Char × List Char)}

theorem free_writeAfter (h : '\n' ∉ Text.unsplit ws) (armed : Bool) :
    '\n' ∉ Text.unsplit (writeAfter armed ws) := by
  have hRedacted : '\n' ∉ redacted := by decide
  induction ws generalizing armed with
  | nil => exact h
  | cons e rest ih =>
    simp only [Text.unsplit_cons, List.mem_append, not_or] at h
    cases armed <;> simp [writeAfter, h.1, h.2.1, ih h.2.2, hRedacted]

theorem free_hideAfter (h : '\n' ∉ Text.unsplit ws) (follows : Bool) :
    '\n' ∉ Text.unsplit (hideAfter follows ws) := by
  have hRedacted : '\n' ∉ redacted := by decide
  induction ws generalizing follows with
  | nil => exact h
  | cons e rest ih =>
    simp only [Text.unsplit_cons, List.mem_append, not_or] at h
    cases follows <;> simp [hideAfter, h.1, h.2.1, ih h.2.2, hRedacted]

theorem free_header {line : List Char} (h : '\n' ∉ line) (hAuthorization : isAuthorization line) :
    '\n' ∉ redactedHeader line := by
  have hWritten : '\n' ∉ ": ".toList ++ redacted := by decide
  obtain ⟨indent, key, gap, value, hHeader⟩ := exists_header hAuthorization
  rw [hHeader.line] at h
  simp only [List.mem_append, not_or] at h
  rw [hHeader.recognized.2, List.mem_append, List.mem_append]
  exact not_or.mpr ⟨h.1, not_or.mpr ⟨h.2.1, hWritten⟩⟩

theorem free_lines {line : List Char} (h : '\n' ∉ line) :
    '\n' ∉ redactLine line ∧ '\n' ∉ safeLine line := by
  have hWords : '\n' ∉ Text.unsplit (words line) := by rwa [words, Text.unsplit_split]
  rw [redactLine_eq, safeLine, redactBearer_eq]
  split_ifs with hAuthorization
  · exact ⟨free_header h hAuthorization, free_header h hAuthorization⟩
  · exact ⟨free_writeAfter hWords false, free_hideAfter hWords false⟩

theorem joined_map_iff {f g : List Char → List Char} {text : List Char}
    (h : ∀ line, '\n' ∉ line → '\n' ∉ f line ∧ '\n' ∉ g line) :
    Text.joined ((Text.pieces text).map f) = Text.joined ((Text.pieces text).map g) ↔
      ∀ line ∈ Text.pieces text, f line = g line := by
  have hFree (f : List Char → List Char) (hf : ∀ line, '\n' ∉ line → '\n' ∉ f line) :
      Text.pieces (Text.joined ((Text.pieces text).map f)) = (Text.pieces text).map f := by
    refine Text.pieces_joined (by simp [Text.pieces_ne_nil]) fun line hLine => ?_
    obtain ⟨line, hMem, rfl⟩ := List.mem_map.mp hLine
    exact hf line (Text.pieces_free text line hMem)
  rw [← List.map_inj_left]
  refine ⟨fun hEq => ?_, fun hEq => by rw [hEq]⟩
  rw [← hFree f fun line hl => (h line hl).1, hEq, hFree g fun line hl => (h line hl).2]

end Lines

/-- The scan reaches every credential of the text, authorization headers apart. -/
def Covered (text home : String) : Prop :=
  ∀ line ∈ Text.pieces (homeDone text.toList home.toList), isAuthorization line = false → Reached line

theorem lines_iff (text home : List Char) :
    redactChars text home = Text.joined ((Text.pieces (homeDone text home)).map safeLine) ↔
      ∀ line ∈ Text.pieces (homeDone text home), isAuthorization line = false → Reached line := by
  rw [redactChars, joined_map_iff fun line => free_lines]
  exact forall₂_congr fun line _ => redactLine_safe_iff line

theorem infix_joined {ls : List (List Char)} {line : List Char} (h : line ∈ ls) : line <:+: Text.joined ls := by
  induction ls with
  | nil => cases h
  | cons first ls ih =>
    rcases eq_or_ne ls [] with rfl | hSome
    · rw [List.mem_singleton.mp h]
      exact List.infix_rfl
    · rw [Text.joined_cons first hSome]
      rcases List.mem_cons.mp h with rfl | hLater
      · exact List.infix_append_left
      · exact (ih hLater).trans ((List.suffix_cons _ _).isInfix.trans List.infix_append_right)

theorem pieces_redactChars (text home : List Char) :
    Text.pieces (redactChars text home) = (Text.pieces (homeDone text home)).map redactLine := by
  refine Text.pieces_joined (by simp [Text.pieces_ne_nil]) fun line hLine => ?_
  obtain ⟨line, hMem, rfl⟩ := List.mem_map.mp hLine
  exact (free_lines (Text.pieces_free _ line hMem)).1

theorem pieces_replaceAll {home : List Char} (hHome : home ≠ []) (hFeed : '\n' ∉ home) {ls : List (List Char)}
    (hSome : ls ≠ []) (hFree : ∀ line ∈ ls, '\n' ∉ line) :
    Text.pieces (Text.replaceAll home ['~'] (Text.joined ls)) = ls.map (Text.replaceAll home ['~']) := by
  have hJoined : Text.replaceAll home ['~'] (Text.joined ls) = Text.joined (ls.map (Text.replaceAll home ['~'])) := by
    induction ls with
    | nil => rfl
    | cons line ls ih =>
      rcases eq_or_ne ls [] with rfl | hLs
      · simp [Text.joined]
      · rw [Text.joined_cons line hLs, List.map_cons, Text.joined_cons _ (by simpa using hLs),
          ← ih hLs fun l hl => hFree l (List.mem_cons_of_mem _ hl)]
        exact Text.replaceAll_between hHome hFeed _ _
  rw [hJoined]
  refine Text.pieces_joined (by simpa using hSome) fun line hLine => ?_
  obtain ⟨line, hMem, rfl⟩ := List.mem_map.mp hLine
  exact Text.not_mem_replaceAll hHome (by decide) (hFree line hMem)

/-- The home directory does not come about in the redacted text, or only where it is written over again. -/
def HomeStays (text home : List Char) : Prop :=
  if '\n' ∈ home then ¬home <:+: Text.joined ((Text.pieces (homeDone text home)).map safeLine)
  else ∀ line ∈ Text.pieces (homeDone text home), ¬Overruns home line

theorem redactChars_again_iff {text home : List Char} (hTilde : '~' ∉ home)
    (hCovered : ∀ line ∈ Text.pieces (homeDone text home), redactLine line = safeLine line) :
    redactChars (redactChars text home) home = redactChars text home ↔ HomeStays text home := by
  have hSafe : redactChars text home = Text.joined ((Text.pieces (homeDone text home)).map safeLine) := by
    rw [redactChars, List.map_congr_left hCovered]
  have hSame (h : homeDone (redactChars text home) home = redactChars text home) :
      redactChars (redactChars text home) home = redactChars text home := by
    rw [redactChars, h, pieces_redactChars, List.map_map]
    exact congrArg Text.joined (List.map_congr_left fun line _ => redactLine_redactLine line)
  rcases eq_or_ne home [] with rfl | hHome
  · exact iff_of_true (hSame rfl) (by simp [HomeStays, Overruns])
  have hDone (text : List Char) : homeDone text home = Text.replaceAll home ['~'] text := if_neg hHome
  unfold HomeStays
  split_ifs with hFeed
  · rw [← hSafe]
    refine ⟨fun hAgain hOccurs => ?_, fun hAbsent => hSame ?_⟩
    · have hPieces := pieces_redactChars (redactChars text home) home
      rw [hAgain] at hPieces
      have hLength := congrArg List.length hPieces
      have hLess : (Text.replaceAll home ['~'] (redactChars text home)).count '\n' < _ :=
        Text.count_replaceAll_lt (by decide) hFeed hOccurs
      rw [List.length_map, Text.length_pieces, Text.length_pieces, hDone] at hLength
      omega
    · rw [hDone, Text.replaceAll_of_absent hAbsent]
  · have hLines : redactChars (redactChars text home) home = Text.joined ((Text.pieces (homeDone text home)).map
        fun line => redactLine (Text.replaceAll home ['~'] (safeLine line))) := by
      rw [redactChars, hDone, hSafe, pieces_replaceAll hHome hFeed (by simp [Text.pieces_ne_nil]) ?_, List.map_map,
        List.map_map]
      · rfl
      · intro line hLine
        obtain ⟨line, hMem, rfl⟩ := List.mem_map.mp hLine
        exact (free_lines (Text.pieces_free _ line hMem)).2
    have hAbsent : ∀ line ∈ Text.pieces (homeDone text home), ¬home <:+: line := fun line hLine hIn => by
      have hPart := infix_joined hLine
      rw [Text.joined_pieces, hDone] at hPart
      exact Text.replaceAll_absent hHome hTilde (hIn.trans hPart)
    rw [hLines, hSafe, joined_map_iff fun line hFree => ⟨?_, (free_lines hFree).2⟩]
    · refine forall₂_congr fun line hLine => ?_
      have hForm := redactLine_eq line
      rw [Overruns, ← hCovered line hLine]
      cases hHeader : isAuthorization line with
      | true =>
        rw [hHeader, if_pos rfl] at hForm
        rw [hForm, if_pos rfl]
        exact header_again_iff hHome (hAbsent line hLine) hHeader
      | false =>
        rw [hHeader, if_neg Bool.false_ne_true] at hForm
        rw [hForm, if_neg Bool.false_ne_true]
        exact words_again_iff hHome (hAbsent line hLine) hHeader
    · exact (free_lines (Text.not_mem_replaceAll hHome (by decide) (free_lines hFree).2)).1

theorem redactChars_unchanged {text home : List Char} (hHome : home = [] ∨ ¬home <:+: text)
    (hCovered : ∀ line ∈ Text.pieces (homeDone text home), redactLine line = safeLine line)
    (h : ∀ line ∈ Text.pieces text, Harmless line) : redactChars text home = text := by
  have hDone : homeDone text home = text := by
    rw [homeDone]
    split_ifs with hNone
    · rfl
    · exact Text.replaceAll_of_absent (hHome.resolve_left hNone)
  rw [redactChars, List.map_congr_left hCovered, hDone,
    List.map_congr_left fun line hLine => safeLine_harmless (h line hLine), List.map_id', Text.joined_pieces]

def logged : String := "/Users/jo: \x7b\"h\":\"Bearer sk-XYZ\",\"k\":1\x7d"

end Cronymax.Extensions
