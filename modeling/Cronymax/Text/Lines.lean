import Cronymax.Framing.Lines
import Mathlib.Data.List.DropRight

/-! The lines of a text and the blocks that marker lines divide it into.  How a line ends does not
matter to a reader of the text, nor do empty lines behind a block: a tidy line has no carriage
returns at its end, and a settled list of lines does not end in empty ones. -/

namespace Text

open Framing (cutAt)

variable {κ : Type*}

@[grind =] def isNewline (c : Char) : Bool := c = '\n'

def isReturn (c : Char) : Bool := c = '\r'

def stripReturn (line : List Char) : List Char :=
  if line.getLast? = some '\r' then line.dropLast else line

/-- The text at its line feeds. -/
@[grind =] def pieces (text : List Char) : List (List Char) :=
  (cutAt isNewline text).1 ++ [(cutAt isNewline text).2]

/-- `str::lines`. -/
@[grind =] def lines (text : List Char) : List (List Char) :=
  (cutAt isNewline text).1.map stripReturn ++
    if (cutAt isNewline text).2 = [] then [] else [(cutAt isNewline text).2]

/-- Lines, each with its feed. -/
def terminated (ls : List (List Char)) : List Char := ls.flatMap (· ++ ['\n'])

/-- Lines with feeds between them. -/
def joined : List (List Char) → List Char
  | [] => []
  | [l] => l
  | l :: ls => l ++ '\n' :: joined ls

theorem cutAt_between (a b : List Char) : cutAt isNewline (a ++ '\n' :: b) =
    (pieces a ++ (cutAt isNewline b).1, (cutAt isNewline b).2) := by
  induction a with
  | nil => simp [cutAt, pieces, isNewline]
  | cons c a ih =>
    rw [List.cons_append, cutAt, ih]
    cases hc : isNewline c with
    | true => simp [pieces, cutAt, hc]
    | false =>
      cases hCut : (cutAt isNewline a).1 with
      | nil => simp [pieces, cutAt, hc, hCut]
      | cons line rest => simp [pieces, cutAt, hc, hCut]

theorem lines_between (a b : List Char) :
    lines (a ++ '\n' :: b) = (pieces a).map stripReturn ++ lines b := by
  rw [lines, cutAt_between, lines, List.map_append, List.append_assoc]

theorem cutAt_free {line : List Char} (h : '\n' ∉ line) : cutAt isNewline line = ([], line) := by
  refine Framing.cutAt_of_none fun c hc => ?_
  rw [isNewline, decide_eq_false_iff_not]
  rintro rfl
  exact h hc

theorem pieces_of_free {line : List Char} (h : '\n' ∉ line) : pieces line = [line] := by
  rw [pieces, cutAt_free h, List.nil_append]

theorem cutAt_lines_free (text : List Char) : ∀ line ∈ (cutAt isNewline text).1, '\n' ∉ line := by
  induction text with
  | nil => simp [cutAt]
  | cons c text ih =>
    intro line hLine
    rw [cutAt] at hLine
    cases hc : isNewline c with
    | true =>
      simp only [hc, if_true, List.mem_cons] at hLine
      rcases hLine with rfl | hLine
      · simp
      · exact ih line hLine
    | false =>
      have hNot : '\n' ≠ c := by
        rintro rfl
        simp [isNewline] at hc
      cases hCut : (cutAt isNewline text).1 with
      | nil => simp [hc, hCut] at hLine
      | cons first rest =>
        rw [hCut] at ih
        simp only [hc, hCut, Bool.false_eq_true, if_false, List.mem_cons] at hLine
        rcases hLine with rfl | hLine
        · exact fun h => by
            rcases List.mem_cons.mp h with h | h
            · exact hNot h
            · exact ih first List.mem_cons_self h
        · exact ih line (List.mem_cons_of_mem _ hLine)

theorem cutAt_rest_free (text : List Char) : '\n' ∉ (cutAt isNewline text).2 := by
  induction text with
  | nil => simp [cutAt]
  | cons c text ih =>
    rw [cutAt]
    cases hc : isNewline c with
    | true => simpa using ih
    | false =>
      have hNot : '\n' ≠ c := by
        rintro rfl
        simp [isNewline] at hc
      cases hCut : (cutAt isNewline text).1 with
      | nil => simp [hNot, ih]
      | cons first rest => simpa using ih

theorem mem_of_mem_stripReturn {line : List Char} {c : Char} (h : c ∈ stripReturn line) :
    c ∈ line := by
  unfold stripReturn at h
  split at h
  · exact List.dropLast_subset line h
  · exact h

theorem lines_free (text : List Char) : ∀ line ∈ lines text, '\n' ∉ line := by
  intro line hLine hFeed
  rcases List.mem_append.mp hLine with hLine | hLine
  · obtain ⟨piece, hPiece, rfl⟩ := List.mem_map.mp hLine
    exact cutAt_lines_free text piece hPiece (mem_of_mem_stripReturn hFeed)
  · split at hLine
    · cases hLine
    · rw [List.mem_singleton.mp hLine] at hFeed
      exact cutAt_rest_free text hFeed

theorem lines_terminated {ls : List (List Char)} (h : ∀ line ∈ ls, '\n' ∉ line)
    (rest : List Char) :
    lines (terminated ls ++ rest) = ls.map stripReturn ++ lines rest := by
  induction ls with
  | nil => rfl
  | cons line ls ih =>
    have hText : terminated (line :: ls) ++ rest = line ++ '\n' :: (terminated ls ++ rest) := by
      simp [terminated]
    rw [hText, lines_between, pieces_of_free (h line List.mem_cons_self),
      ih fun l hl => h l (List.mem_cons_of_mem _ hl)]
    rfl

def tidy (line : List Char) : List Char := line.rdropWhile isReturn

theorem tidy_stripReturn (line : List Char) : tidy (stripReturn line) = tidy line := by
  unfold stripReturn
  split
  · rename_i hLast
    obtain ⟨front, rfl⟩ := List.getLast?_eq_some_iff.mp hLast
    rw [List.dropLast_concat, tidy, tidy, List.rdropWhile_concat_pos _ _ _ (by decide)]
  · rfl

/-- The lines of a text, however they end. -/
@[grind =] def tidyLines (text : List Char) : List (List Char) := (lines text).map tidy

theorem map_tidy_strip (ls : List (List Char)) : (ls.map stripReturn).map tidy = ls.map tidy := by
  rw [List.map_map]
  exact List.map_congr_left fun line _ => tidy_stripReturn line

/-- Lines without the empty ones at the end. -/
def settled (ls : List (List Char)) : List (List Char) := ls.rdropWhile (· = [])

theorem settled_concat (ls : List (List Char)) : settled (ls ++ [[]]) = settled ls :=
  List.rdropWhile_concat_pos _ _ _ (by simp)

theorem mem_of_mem_settled {ls : List (List Char)} {line : List Char} (h : line ∈ settled ls) :
    line ∈ ls :=
  (List.rdropWhile_prefix _ ls).subset h

theorem mem_settled {ls : List (List Char)} {line : List Char} (h : line ∈ ls) :
    line ∈ settled ls ∨ line = [] := by
  have hParts : settled ls ++ ls.rtakeWhile (· = []) = ls := List.rdropWhile_append_rtakeWhile
  rw [← hParts, List.mem_append] at h
  exact h.imp_right fun h => by simpa using List.mem_rtakeWhile_imp h

theorem tidyLines_between (a b : List Char) :
    tidyLines (a ++ '\n' :: b) = (pieces a).map tidy ++ tidyLines b := by
  rw [tidyLines, lines_between, List.map_append, map_tidy_strip, tidyLines]

theorem tidyLines_terminated {ls : List (List Char)} (h : ∀ line ∈ ls, '\n' ∉ line)
    (rest : List Char) : tidyLines (terminated ls ++ rest) = ls.map tidy ++ tidyLines rest := by
  rw [tidyLines, lines_terminated h, List.map_append, map_tidy_strip, tidyLines]

theorem pieces_tidy (text : List Char) : (pieces text).map tidy = tidyLines text ∨
    (pieces text).map tidy = tidyLines text ++ [[]] := by
  rw [tidyLines, lines, List.map_append, map_tidy_strip, pieces, List.map_append]
  split
  · rename_i hRest
    exact .inr (by rw [hRest, List.map_nil, List.append_nil]; rfl)
  · exact .inl rfl

theorem settled_pieces (text : List Char) :
    settled ((pieces text).map tidy) = settled (tidyLines text) := by
  rcases pieces_tidy text with h | h
  · rw [h]
  · rw [h, settled_concat]

theorem tidyLines_joined {ls : List (List Char)} (h : ∀ line ∈ ls, '\n' ∉ line) :
    ls.map tidy = tidyLines (joined ls) ∨ ls.map tidy = tidyLines (joined ls) ++ [[]] := by
  induction ls with
  | nil => exact .inl rfl
  | cons line ls ih =>
    cases ls with
    | nil =>
      rw [joined, ← pieces_of_free (h line List.mem_cons_self)]
      exact pieces_tidy line
    | cons next ls =>
      rw [joined, tidyLines_between, pieces_of_free (h line List.mem_cons_self), List.map_cons,
        List.map_singleton]
      · refine (ih fun l hl => h l (List.mem_cons_of_mem _ hl)).imp (fun h => ?_) fun h => ?_
        · rw [h]
          rfl
        · rw [h]
          rfl
      · simp

theorem settled_trimmed (text : List Char) :
    settled (tidyLines (text.rdropWhile isNewline)) = settled (tidyLines text) := by
  induction text using List.reverseRecOn with
  | nil => rfl
  | append_singleton text c ih =>
    rw [List.rdropWhile_concat]
    split
    · rename_i hc
      obtain rfl : c = '\n' := by simpa [isNewline] using hc
      rw [ih, tidyLines_between, show tidyLines [] = [] from rfl, List.append_nil, settled_pieces]
    · rfl

/-- What tells a marker. -/
structure Marks (κ : Type*) where
  mark : List Char → Option κ
  empty : mark [] = none
  tidy : ∀ line, mark (Text.tidy line) = mark line

/-- Nothing but lines of a body. -/
def Unmarked (m : Marks κ) (ls : List (List Char)) : Prop := ∀ line ∈ ls, m.mark line = none

variable {m : Marks κ}

theorem Unmarked.takeWhile {ls : List (List Char)} (h : Unmarked m ls) (rest : List (List Char)) :
    (ls ++ rest).takeWhile (fun l => (m.mark l).isNone) =
      ls ++ rest.takeWhile fun l => (m.mark l).isNone :=
  List.takeWhile_append_of_pos fun line hLine => by simpa using h line hLine

theorem takeWhile_unmarked (ls : List (List Char)) :
    Unmarked m (ls.takeWhile fun l => (m.mark l).isNone) :=
  fun line hLine => by simpa using List.mem_takeWhile_imp hLine

variable [DecidableEq κ]

variable (m) in
/-- The lines between a marker and the next. -/
@[grind =] def blockOf (b : κ) : List (List Char) → Option (List (List Char))
  | [] => none
  | line :: ls =>
    if m.mark line = some b then some (ls.takeWhile fun l => (m.mark l).isNone) else blockOf b ls

theorem blockOf_unmarked {b : κ} {ls body : List (List Char)} (h : blockOf m b ls = some body) :
    Unmarked m body := by
  induction ls with
  | nil => cases h
  | cons line ls ih =>
    rw [blockOf] at h
    split at h
    · rw [← Option.some.inj h]
      exact takeWhile_unmarked ls
    · exact ih h

theorem blockOf_append {b : κ} {before : List (List Char)} (h : ∀ l ∈ before, m.mark l ≠ some b)
    (rest : List (List Char)) : blockOf m b (before ++ rest) = blockOf m b rest := by
  induction before with
  | nil => rfl
  | cons line before ih =>
    rw [List.cons_append, blockOf, if_neg (h line List.mem_cons_self),
      ih fun l hl => h l (List.mem_cons_of_mem _ hl)]

theorem blockOf_marker {b : κ} {line : List Char} (h : m.mark line = some b)
    (rest : List (List Char)) :
    blockOf m b (line :: rest) = some (rest.takeWhile fun l => (m.mark l).isNone) :=
  if_pos h

theorem blockOf_other {b c : κ} (hNe : b ≠ c) {before mid rest : List (List Char)}
    {line : List Char} (hLine : m.mark line = some c) (hMid : Unmarked m mid) :
    blockOf m b (before ++ line :: (mid ++ rest)) = blockOf m b (before ++ line :: rest) := by
  induction before with
  | nil =>
    have hNot : m.mark line ≠ some b := by
      rw [hLine]
      exact fun h => hNe (Option.some.inj h).symm
    rw [List.nil_append, List.nil_append, blockOf, if_neg hNot, blockOf, if_neg hNot]
    exact blockOf_append (fun l hl => by rw [hMid l hl]; simp) rest
  | cons first before ih =>
    rw [List.cons_append, List.cons_append, blockOf, blockOf, ih]
    have hStop : ∀ more, (before ++ line :: more).takeWhile (fun l => (m.mark l).isNone) =
        before.takeWhile fun l => (m.mark l).isNone := by
      intro more
      clear ih
      induction before with
      | nil => simp [hLine]
      | cons l before ih => rw [List.cons_append, List.takeWhile_cons, List.takeWhile_cons, ih]
    rw [hStop, hStop]

theorem blockOf_concat (b : κ) (ls : List (List Char)) :
    (blockOf m b (ls ++ [[]])).map settled = (blockOf m b ls).map settled := by
  induction ls with
  | nil => simp [blockOf, m.empty]
  | cons line ls ih =>
    rw [List.cons_append, blockOf, blockOf]
    split
    · simp only [Option.map_some, Option.some.injEq]
      clear ih
      by_cases hAll : Unmarked m ls
      · have hLs : ls.takeWhile (fun l => (m.mark l).isNone) = ls := by
          simpa using Unmarked.takeWhile hAll []
        rw [Unmarked.takeWhile hAll, hLs, List.takeWhile_cons, m.empty]
        exact settled_concat ls
      · obtain ⟨l, hl, hMark⟩ : ∃ l ∈ ls, m.mark l ≠ none := by simpa [Unmarked] using hAll
        rw [List.takeWhile_append, if_neg]
        intro hLength
        refine hMark ?_
        have hWhole := (List.takeWhile_prefix (fun l => (m.mark l).isNone) (l := ls)).eq_of_length
          hLength
        rw [← hWhole] at hl
        simpa using List.mem_takeWhile_imp hl
    · exact ih

theorem blockOf_replaced {b : κ} {before body rest : List (List Char)} {line : List Char}
    (hBefore : ∀ l ∈ before, m.mark l ≠ some b) (hLine : m.mark line = some b)
    (hBody : Unmarked m body) (hRest : ∀ l, rest.head? = some l → m.mark l ≠ none) :
    blockOf m b (before ++ line :: (body ++ rest)) = some body := by
  rw [blockOf_append hBefore, blockOf_marker hLine, Unmarked.takeWhile hBody]
  cases rest with
  | nil => simp
  | cons l rest => simp [hRest l rfl]

end Text
