import Cronymax.Flow.Document
import Cronymax.Text.Scan
import Cronymax.Text.Seams

/-! The ids of the blocks of a document.  Before a document is submitted, every block without a marker line
gets one.  What counts as a block is told from the line and the one before it, and so a blank line within code
makes a block of what follows it. -/

namespace Cronymax.Workbench

open Flow.Document (isHexOrDash)
open Text (pieces joined)

/-- `\s`, and what `trim` takes away. -/
def isSpace (c : Char) : Bool :=
  (9 ≤ c.toNat ∧ c.toNat ≤ 13) ∨ (0x2000 ≤ c.toNat ∧ c.toNat ≤ 0x200A) ∨
    c.toNat ∈ [0x20, 0xA0, 0x1680, 0x2028, 0x2029, 0x202F, 0x205F, 0x3000, 0xFEFF]

/-- `[ \t]`. -/
def isBlank (c : Char) : Bool := c = ' ' ∨ c = '\t'

/-- `\s*-->\s*$`. -/
def closes (rest : List Char) : Bool := (Text.behind isSpace "-->".toList rest).any (·.all isSpace)

def longestId (text : List Char) : Nat → Option (List Char)
  | 0 => none
  | n + 1 => if 8 ≤ n + 1 ∧ closes (text.drop (n + 1)) then some (text.take (n + 1)) else longestId text n

/-- The regular expression of a marker. -/
def execMarker (line : List Char) : Option (List Char) :=
  (Text.behind isBlank "<!--".toList line).bind fun text =>
    (Text.behind isSpace "block:".toList text).bind fun text =>
      let text := text.dropWhile isSpace
      longestId text (text.takeWhile isHexOrDash).length

/-- `BLOCK_MARKER_RE.test`. -/
def isMarker (line : List Char) : Bool := (execMarker line).isSome

structure BlockMarker where
  blockId : List Char
  line : Nat
  raw : List Char

/-- `parseBlockComments`. -/
def parseBlockComments (md : List Char) : List BlockMarker :=
  (pieces md).zipIdx.filterMap fun (raw, line) => (execMarker raw).map fun blockId => { blockId, line, raw }

/-- `stripBlockComments`. -/
def stripBlockComments (md : List Char) : List Char := joined ((pieces md).filter (!isMarker ·))

/-- `formatBlockMarker`. -/
def formatBlockMarker (blockId : List Char) : List Char := "<!-- block: ".toList ++ (blockId ++ " -->".toList)

/-- Nothing is left of the line by `trim`. -/
def isEmptyLine (line : List Char) : Bool := line.all isSpace

/-- `isTopLevelBlockOpener`: fences are not looked at. -/
@[grind =] def isTopLevelBlockOpener (line : List Char) (prev : Option (List Char)) : Bool :=
  !isEmptyLine line && !isMarker line && prev.all isEmptyLine

/-- The loop of `assignMissingBlockIds`. -/
def assignLines (idGenerator : Nat → List Char) (prev : Option (List Char)) (out : List (List Char)) (calls : Nat) :
    List (List Char) → List (List Char) × Nat
  | [] => (out, calls)
  | line :: lines =>
    if isTopLevelBlockOpener line prev && !out.getLast?.any isMarker then
      assignLines idGenerator (some line) (out ++ [formatBlockMarker (idGenerator calls)] ++ [line]) (calls + 1) lines
    else assignLines idGenerator (some line) (out ++ [line]) calls lines

/-- `assignMissingBlockIds`. -/
def assignMissingBlockIds (md : List Char) (idGenerator : Nat → List Char) : List Char × Nat :=
  let (out, calls) := assignLines idGenerator none [] 0 (pieces md)
  (joined out, calls)

/-- An id of the grammar. -/
def IsBlockId (id : List Char) : Prop := (∀ c ∈ id, isHexOrDash c = true) ∧ 8 ≤ id.length

/-- How a fenced code block is opened. -/
structure Fence where
  mark : Char
  length : Nat
  isMark : mark = '`' ∨ mark = '~'
  long : 3 ≤ length

def unindented (line : List Char) : List Char :=
  if (line.takeWhile (· = ' ')).length ≤ 3 then line.dropWhile (· = ' ') else []

def opensWith (mark : Char) (h : mark = '`' ∨ mark = '~') (line : List Char) : Option Fence :=
  let length := ((unindented line).takeWhile (· = mark)).length
  if hLong : 3 ≤ length then
    if mark = '`' ∧ '`' ∈ (unindented line).drop length then none else some ⟨mark, length, h, hLong⟩
  else none

/-- The line opens a fence. -/
def opens (line : List Char) : Option Fence :=
  (opensWith '`' (.inl rfl) line).or (opensWith '~' (.inr rfl) line)

/-- The line closes the fence. -/
def Fence.isClosedBy (f : Fence) (line : List Char) : Bool :=
  f.length ≤ ((unindented line).takeWhile (· = f.mark)).length ∧
    ((unindented line).dropWhile (· = f.mark)).all isSpace

def fenceStep : Option Fence → List Char → Option Fence
  | none, line => opens line
  | some f, line => if f.isClosedBy line then none else some f

/-- The fence that is open after these lines. -/
def fenceAfter (lines : List (List Char)) : Option Fence := lines.foldl fenceStep none

def codeOf : Option Fence → List Char → List (List Char)
  | none, _ => []
  | some f, line => if f.isClosedBy line then [] else [line]

/-- The lines of code. -/
def codeLines : Option Fence → List (List Char) → List (List Char)
  | _, [] => []
  | fence, line :: lines => codeOf fence line ++ codeLines (fenceStep fence line) lines

/-- The line is no marker and not blank, and before it stands a blank line or none, markers apart. -/
def IsTopLevel (before : List (List Char)) (line : List Char) : Prop :=
  isEmptyLine line = false ∧ isMarker line = false ∧
    ∀ prev ∈ (before.filter (!isMarker ·)).getLast?, isEmptyLine prev = true

/-- The ids are assigned once, and to blocks outside of code. -/
structure AssignedOnce (idGenerator : Nat → List Char) (md : List Char) (result : List Char) (calls : Nat) : Prop where
  again : ∀ idGenerator', assignMissingBlockIds result idGenerator' = (result, 0)
  visible : stripBlockComments result = stripBlockComments md
  existing : ((parseBlockComments md).map fun m => (m.blockId, m.raw)).Sublist
    ((parseBlockComments result).map fun m => (m.blockId, m.raw))
  minted : (pieces result).Perm (pieces md ++ (List.range calls).map fun i => formatBlockMarker (idGenerator i))
  blocks : ∀ before line after, pieces result = before ++ line :: after → IsTopLevel before line →
    ∃ front marker, before = front ++ [marker] ∧ isMarker marker = true
  code : codeLines none (pieces result) = codeLines none (pieces md)

/-- No blank line inside a fence is followed by one that is not blank. -/
def Unbroken (md : List Char) : Prop :=
  ∀ before prev line after, pieces md = before ++ prev :: line :: after →
    fenceAfter (before ++ [prev]) ≠ none → isEmptyLine prev = true → isEmptyLine line = true ∨ isMarker line = true

theorem isHexOrDash_range {c : Char} (h : isHexOrDash c = true) : 0x2d ≤ c.toNat ∧ c.toNat ≤ 0x66 := by
  simp only [isHexOrDash, decide_eq_true_eq] at h
  rcases h with h | h | h | rfl
  · exact ⟨Nat.le_trans (by decide) (UInt32.le_iff_toNat_le.mp h.1),
      Nat.le_trans (UInt32.le_iff_toNat_le.mp h.2) (by decide)⟩
  · exact ⟨Nat.le_trans (by decide) (UInt32.le_iff_toNat_le.mp h.1), UInt32.le_iff_toNat_le.mp h.2⟩
  · exact ⟨Nat.le_trans (by decide) (UInt32.le_iff_toNat_le.mp h.1),
      Nat.le_trans (UInt32.le_iff_toNat_le.mp h.2) (by decide)⟩
  · decide

theorem isHexOrDash_notSpace {c : Char} (h : isHexOrDash c = true) : isSpace c = false := by
  have hRange := isHexOrDash_range h
  simp only [isSpace, List.mem_cons, List.not_mem_nil, or_false, decide_eq_false_iff_not]
  omega

/-- How a marker is written. -/
def Spelled (id line : List Char) : Prop :=
  ∃ a b c d e, (∀ x ∈ a, isBlank x = true) ∧ (∀ x ∈ b, isSpace x = true) ∧ (∀ x ∈ c, isSpace x = true) ∧
    (∀ x ∈ d, isSpace x = true) ∧ (∀ x ∈ e, isSpace x = true) ∧ IsBlockId id ∧
    line = a ++ ("<!--".toList ++ (b ++ ("block:".toList ++ (c ++ (id ++ (d ++ ("-->".toList ++ e)))))))

theorem behind_closing {rest e : List Char} : Text.behind isSpace "-->".toList rest = some e ↔
    ∃ d, (∀ x ∈ d, isSpace x = true) ∧ rest = d ++ ("-->".toList ++ e) :=
  Text.behind_eq_some (fun c hc => by
    obtain rfl := Option.some.inj hc
    decide) (by decide)

theorem closes_iff {rest : List Char} : closes rest = true ↔
    ∃ d e, (∀ x ∈ d, isSpace x = true) ∧ (∀ x ∈ e, isSpace x = true) ∧ rest = d ++ ("-->".toList ++ e) := by
  simp only [closes, Option.any_eq_true, List.all_eq_true, behind_closing]
  constructor
  · rintro ⟨e, ⟨d, hd, hRest⟩, he⟩
    exact ⟨d, e, hd, he, hRest⟩
  · rintro ⟨d, e, hd, he, hRest⟩
    exact ⟨e, ⟨d, hd, hRest⟩, he⟩

theorem closes_cons {c : Char} (hc : isSpace c = false) {rest : List Char} (h : closes (c :: rest) = true) :
    ∃ e, c :: rest = '-' :: '-' :: '>' :: e := by
  obtain ⟨d, e, hd, -, hText⟩ := closes_iff.mp h
  cases d with
  | nil => exact ⟨e, hText⟩
  | cons y d =>
    obtain rfl : c = y := (List.cons.inj hText).1
    rw [hd c List.mem_cons_self] at hc
    cases hc

theorem closes_later {skipped rest : List Char} (hId : ∀ x ∈ skipped, isHexOrDash x = true) (hSome : skipped ≠ [])
    (h : closes (skipped ++ rest) = true) : closes rest = false := by
  have hDash : isSpace '-' = false := by decide
  have hAngle : isSpace '>' = false := by decide
  rw [Bool.eq_false_iff]
  intro hRest
  obtain ⟨x, skipped, rfl⟩ := List.exists_cons_of_ne_nil hSome
  obtain ⟨e, hText⟩ := closes_cons (isHexOrDash_notSpace (hId x List.mem_cons_self)) h
  have hTail : skipped ++ rest = '-' :: '>' :: e := (List.cons.inj hText).2
  cases skipped with
  | nil =>
    rw [show rest = '-' :: '>' :: e from hTail] at hRest
    obtain ⟨e', hSame⟩ := closes_cons hDash hRest
    simp at hSame
  | cons y skipped =>
    have hTail : skipped ++ rest = '>' :: e := (List.cons.inj hTail).2
    cases skipped with
    | nil =>
      rw [show rest = '>' :: e from hTail] at hRest
      obtain ⟨e', hSame⟩ := closes_cons hAngle hRest
      simp at hSame
    | cons z skipped =>
      obtain rfl : z = '>' := (List.cons.inj hTail).1
      have hz := hId '>' (List.mem_cons_of_mem _ (List.mem_cons_of_mem _ List.mem_cons_self))
      revert hz
      decide

theorem longestId_sound {text id : List Char} {n : Nat} (h : longestId text n = some id) :
    ∃ k, k ≤ n ∧ 8 ≤ k ∧ closes (text.drop k) = true ∧ id = text.take k := by
  induction n with
  | zero => cases h
  | succ n ih =>
    rw [longestId] at h
    split_ifs at h with hHere
    · exact ⟨n + 1, Nat.le_refl _, hHere.1, hHere.2, (Option.some.inj h).symm⟩
    · obtain ⟨k, hk, hRest⟩ := ih h
      exact ⟨k, Nat.le_succ_of_le hk, hRest⟩

theorem longestId_complete {text : List Char} {k n : Nat} (hk : k ≤ n) (hLong : 8 ≤ k)
    (h : closes (text.drop k) = true) (hNot : ∀ j, k < j → j ≤ n → closes (text.drop j) = false) :
    longestId text n = some (text.take k) := by
  induction n with
  | zero => omega
  | succ n ih =>
    rw [longestId]
    by_cases hSame : k = n + 1
    · rw [if_pos ⟨hSame ▸ hLong, hSame ▸ h⟩, hSame]
    · rw [if_neg fun hHere => Bool.false_ne_true ((hNot (n + 1) (by omega) (Nat.le_refl _)).symm.trans hHere.2)]
      exact ih (by omega) fun j hj hn => hNot j hj (Nat.le_succ_of_le hn)

theorem longestId_iff {text id : List Char} :
    longestId text (text.takeWhile isHexOrDash).length = some id ↔
      IsBlockId id ∧ ∃ rest, text = id ++ rest ∧ closes rest = true := by
  have hRun : ∀ x ∈ text.takeWhile isHexOrDash, isHexOrDash x = true := fun x hx => List.mem_takeWhile_imp hx
  have hTake {k : Nat} (hk : k ≤ (text.takeWhile isHexOrDash).length) :
      text.take k = (text.takeWhile isHexOrDash).take k := by
    conv_lhs => rw [← List.takeWhile_append_dropWhile (p := isHexOrDash) (l := text)]
    rw [List.take_append_of_le_length hk]
  constructor
  · intro h
    obtain ⟨k, hk, hLong, hCloses, rfl⟩ := longestId_sound h
    refine ⟨⟨fun c hc => hRun c ?_, ?_⟩, text.drop k, (List.take_append_drop k text).symm, hCloses⟩
    · rw [hTake hk] at hc
      exact List.mem_of_mem_take hc
    · rw [hTake hk, List.length_take]
      omega
  · rintro ⟨⟨hId, hLong⟩, rest, rfl, hCloses⟩
    have hLonger : (id ++ rest).takeWhile isHexOrDash = id ++ rest.takeWhile isHexOrDash :=
      List.takeWhile_append_of_pos hId
    have hDrop : (id ++ rest).drop id.length = rest := List.drop_left
    have hFound := @longestId_complete (id ++ rest) id.length ((id ++ rest).takeWhile isHexOrDash).length
      (by rw [hLonger, List.length_append]; omega) hLong (by rwa [hDrop]) fun j hj hn => ?_
    · rwa [List.take_left] at hFound
    · have hSplit : rest = rest.take (j - id.length) ++ (id ++ rest).drop j := by
        rw [List.drop_append, List.drop_eq_nil_of_le (Nat.le_of_lt hj), List.nil_append, List.take_append_drop]
      have hMore : j - id.length ≤ (rest.takeWhile isHexOrDash).length := by
        rw [hLonger, List.length_append] at hn
        omega
      rw [hSplit] at hCloses
      refine closes_later (fun x hx => ?_) (fun hEmpty => ?_) hCloses
      · have hTakeRest : rest.take (j - id.length) = (rest.takeWhile isHexOrDash).take (j - id.length) := by
          conv_lhs => rw [← List.takeWhile_append_dropWhile (p := isHexOrDash) (l := rest)]
          rw [List.take_append_of_le_length hMore]
        rw [hTakeRest] at hx
        exact List.mem_takeWhile_imp (List.mem_of_mem_take hx)
      · have hLength := congrArg List.length hEmpty
        have hShort := (List.takeWhile_prefix isHexOrDash (l := rest)).length_le
        rw [List.length_take, List.length_nil] at hLength
        omega

theorem behind_block {rest text : List Char} : Text.behind isSpace "block:".toList text = some rest ↔
    ∃ b, (∀ x ∈ b, isSpace x = true) ∧ text = b ++ ("block:".toList ++ rest) :=
  Text.behind_eq_some (fun c hc => by
    obtain rfl := Option.some.inj hc
    decide) (by decide)

theorem behind_opening {rest line : List Char} : Text.behind isBlank "<!--".toList line = some rest ↔
    ∃ a, (∀ x ∈ a, isBlank x = true) ∧ line = a ++ ("<!--".toList ++ rest) :=
  Text.behind_eq_some (fun c hc => by
    obtain rfl := Option.some.inj hc
    decide) (by decide)

theorem execMarker_iff {id line : List Char} : execMarker line = some id ↔ Spelled id line := by
  simp only [execMarker, Option.bind_eq_some_iff, behind_opening, behind_block, longestId_iff, closes_iff]
  constructor
  · rintro ⟨opened, ⟨a, ha, rfl⟩, block, ⟨b, hb, rfl⟩, hId, rest, hText, d, e, hd, he, rfl⟩
    refine ⟨a, b, block.takeWhile isSpace, d, e, ha, hb, fun x hx => List.mem_takeWhile_imp hx, hd, he, hId, ?_⟩
    rw [← hText, List.takeWhile_append_dropWhile]
  · rintro ⟨a, b, c, d, e, ha, hb, hc, hd, he, hId, rfl⟩
    refine ⟨_, ⟨a, ha, rfl⟩, _, ⟨b, hb, rfl⟩, hId, _, ?_, d, e, hd, he, rfl⟩
    obtain ⟨x, more, rfl⟩ := List.exists_cons_of_ne_nil (List.ne_nil_of_length_pos (Nat.lt_of_lt_of_le (by decide) hId.2))
    rw [List.dropWhile_append_of_pos hc, List.cons_append, List.dropWhile_cons_of_neg]
    rw [isHexOrDash_notSpace (hId.1 x List.mem_cons_self)]
    exact Bool.false_ne_true

theorem execMarker_format {id : List Char} (h : IsBlockId id) : execMarker (formatBlockMarker id) = some id := by
  have hSpace : ∀ x ∈ [' '], isSpace x = true := List.forall_mem_singleton.mpr (by decide)
  exact execMarker_iff.mpr ⟨[], [' '], [' '], [' '], [], List.forall_mem_nil _, hSpace, hSpace, hSpace,
    List.forall_mem_nil _, h, rfl⟩

theorem isMarker_bracket {line : List Char} (h : isMarker line = true) :
    ∃ blanks rest, (∀ x ∈ blanks, isBlank x = true) ∧ line = blanks ++ '<' :: rest := by
  obtain ⟨id, hId⟩ := Option.isSome_iff_exists.mp h
  obtain ⟨a, b, c, d, e, ha, -, -, -, -, -, hLine⟩ := execMarker_iff.mp hId
  exact ⟨a, _, ha, hLine⟩

theorem isMarker_notEmpty {line : List Char} (h : isMarker line = true) : isEmptyLine line = false := by
  obtain ⟨blanks, rest, -, rfl⟩ := isMarker_bracket h
  have hBracket : isSpace '<' = false := by decide
  simp [isEmptyLine, hBracket]

section Pass

variable (idGenerator : Nat → List Char)

/-- The lines with the markers that are given. -/
@[grind =] def withMarkers (prev : Option (List Char)) (calls : Nat) : List (List Char) → List (List Char)
  | [] => []
  | line :: lines =>
    if isTopLevelBlockOpener line prev then
      formatBlockMarker (idGenerator calls) :: line :: withMarkers (some line) (calls + 1) lines
    else line :: withMarkers (some line) calls lines

/-- How many markers are given. -/
@[grind =] def openers (prev : Option (List Char)) : List (List Char) → Nat
  | [] => 0
  | line :: lines => (if isTopLevelBlockOpener line prev then 1 else 0) + openers (some line) lines

variable {idGenerator} {prev : Option (List Char)} {line : List Char}

/-- The line above the beginning of a block is no marker, since it is empty. -/
theorem no_marker_above (h : isTopLevelBlockOpener line prev = true) : prev.any isMarker = false := by
  simp only [isTopLevelBlockOpener, Bool.and_eq_true] at h
  cases prev with
  | none => rfl
  | some above =>
    rw [Option.any_some, Bool.eq_false_iff]
    intro hMarker
    exact Bool.false_ne_true ((isMarker_notEmpty hMarker).symm.trans h.2)

theorem assignLines_eq (prev : Option (List Char)) (out : List (List Char)) (h : out.getLast? = prev) (calls : Nat)
    (lines : List (List Char)) : assignLines idGenerator prev out calls lines =
      (out ++ withMarkers idGenerator prev calls lines, calls + openers prev lines) := by
  induction lines generalizing prev out calls with
  | nil => simp [assignLines, withMarkers, openers]
  | cons line lines ih =>
    have hLast (front : List (List Char)) : (front ++ [line]).getLast? = some line := List.getLast?_concat
    rw [assignLines, withMarkers, openers, h]
    by_cases hOpens : isTopLevelBlockOpener line prev = true
    · have hHere : (isTopLevelBlockOpener line prev && !prev.any isMarker) = true := by
        rw [no_marker_above hOpens, hOpens]
        rfl
      rw [if_pos hHere, if_pos hOpens, if_pos hOpens, ih _ _ (hLast _)]
      simp [Nat.add_assoc]
    · rw [Bool.not_eq_true] at hOpens
      rw [hOpens, if_neg (by simp), if_neg Bool.false_ne_true, if_neg Bool.false_ne_true, ih _ _ (hLast _)]
      simp

theorem isMarker_format (h : ∀ i, IsBlockId (idGenerator i)) (i : Nat) :
    isMarker (formatBlockMarker (idGenerator i)) = true := by
  rw [isMarker, execMarker_format (h i)]
  rfl

theorem not_opener_marker (h : isMarker line = true) (prev : Option (List Char)) :
    isTopLevelBlockOpener line prev = false := by
  simp [isTopLevelBlockOpener, h]

theorem not_opener_below {above : List Char} (h : isMarker above = true) (line : List Char) :
    isTopLevelBlockOpener line (some above) = false := by
  simp [isTopLevelBlockOpener, isMarker_notEmpty h]

theorem openers_withMarkers (h : ∀ i, IsBlockId (idGenerator i)) (prev : Option (List Char)) (calls : Nat)
    (lines : List (List Char)) : openers prev (withMarkers idGenerator prev calls lines) = 0 := by
  induction lines generalizing prev calls with
  | nil => rfl
  | cons line lines ih =>
    rw [withMarkers]
    split_ifs with hOpens
    · have hMarker := isMarker_format h calls
      rw [openers, not_opener_marker hMarker, openers, not_opener_below hMarker, ih]
      rfl
    · rw [openers, if_neg hOpens, ih]

theorem withMarkers_of_none (calls : Nat) {lines : List (List Char)} (h : openers prev lines = 0) :
    withMarkers idGenerator prev calls lines = lines := by
  induction lines generalizing prev with
  | nil => rfl
  | cons line lines ih =>
    rw [openers, Nat.add_eq_zero_iff] at h
    have hNot : ¬isTopLevelBlockOpener line prev = true := fun hOpens => by simp [hOpens] at h
    rw [withMarkers, if_neg hNot, ih h.2]

theorem filter_withMarkers (h : ∀ i, IsBlockId (idGenerator i)) (prev : Option (List Char)) (calls : Nat)
    (lines : List (List Char)) :
    (withMarkers idGenerator prev calls lines).filter (!isMarker ·) = lines.filter (!isMarker ·) := by
  induction lines generalizing prev calls with
  | nil => rfl
  | cons line lines ih =>
    rw [withMarkers]
    split_ifs with hOpens
    · rw [List.filter_cons_of_neg (by simp [isMarker_format h]), List.filter_cons, ih, List.filter_cons]
    · rw [List.filter_cons, ih, List.filter_cons]

theorem sublist_withMarkers (prev : Option (List Char)) (calls : Nat) (lines : List (List Char)) :
    lines.Sublist (withMarkers idGenerator prev calls lines) := by
  induction lines generalizing prev calls with
  | nil => exact .slnil
  | cons line lines ih =>
    rw [withMarkers]
    split_ifs with hOpens
    · exact ((ih _ _).cons_cons line).cons _
    · exact (ih _ _).cons_cons line

theorem perm_withMarkers (prev : Option (List Char)) (calls : Nat) (lines : List (List Char)) :
    (withMarkers idGenerator prev calls lines).Perm
      (lines ++ (List.range' calls (openers prev lines)).map fun i => formatBlockMarker (idGenerator i)) := by
  induction lines generalizing prev calls with
  | nil => exact List.Perm.refl _
  | cons line lines ih =>
    rw [withMarkers, openers]
    split_ifs with hOpens
    · rw [Nat.add_comm 1, List.range'_succ, List.map_cons]
      exact (((ih _ _).cons line).cons _).trans (List.perm_middle : (line :: lines ++ _ :: _).Perm _).symm
    · rw [Nat.zero_add]
      exact (ih _ _).cons line

theorem marker_above (h : ∀ i, IsBlockId (idGenerator i)) {prev : Option (List Char)} {calls : Nat}
    {lines front before after : List (List Char)} {line : List Char} (hFront : front.getLast? = prev)
    (hSplit : withMarkers idGenerator prev calls lines = before ++ line :: after)
    (hBlock : IsTopLevel (front ++ before) line) :
    ∃ above marker, front ++ before = above ++ [marker] ∧ isMarker marker = true := by
  induction lines generalizing prev calls front before with
  | nil =>
    rw [withMarkers] at hSplit
    simp at hSplit
  | cons next lines ih =>
    have hLast (more : List (List Char)) : (more ++ [next]).getLast? = some next := List.getLast?_concat
    rw [withMarkers] at hSplit
    split_ifs at hSplit with hOpens
    · cases before with
      | nil =>
        obtain rfl : _ = line := (List.cons.inj hSplit).1
        exact absurd (isMarker_format h calls) (by rw [hBlock.2.1]; exact Bool.false_ne_true)
      | cons marker before =>
        obtain ⟨hMarker, hSplit⟩ := List.cons.inj hSplit
        cases before with
        | nil => exact ⟨front, marker, rfl, hMarker ▸ isMarker_format h calls⟩
        | cons next' before =>
          obtain ⟨hNext, hSplit⟩ := List.cons.inj hSplit
          have hMove : front ++ marker :: next' :: before = front ++ [marker] ++ [next] ++ before := by simp [hNext]
          rw [hMove] at hBlock ⊢
          exact ih (hLast _) hSplit hBlock
    · cases before with
      | nil =>
        obtain rfl : next = line := (List.cons.inj hSplit).1
        rw [List.append_nil] at hBlock ⊢
        obtain ⟨hSome, hPlain, hEmpty⟩ := hBlock
        have hAbove : prev.all isEmptyLine = false := by simpa [isTopLevelBlockOpener, hSome, hPlain] using hOpens
        cases prev with
        | none => cases hAbove
        | some above =>
          obtain ⟨more, rfl⟩ := List.getLast?_eq_some_iff.mp hFront
          refine ⟨more, above, rfl, ?_⟩
          by_contra hNot
          rw [List.filter_append, List.filter_cons_of_pos (by simpa using hNot), List.filter_nil] at hEmpty
          have hEmptyAbove := hEmpty above List.getLast?_concat
          rw [Option.all_some, hEmptyAbove] at hAbove
          cases hAbove
      | cons next' before =>
        obtain ⟨hNext, hSplit⟩ := List.cons.inj hSplit
        have hMove : front ++ next' :: before = front ++ [next] ++ before := by simp [hNext]
        rw [hMove] at hBlock ⊢
        exact ih (hLast _) hSplit hBlock

theorem unindented_marker (h : isMarker line = true) {mark : Char} (hMark : mark = '`' ∨ mark = '~') :
    (unindented line).takeWhile (· = mark) = [] := by
  obtain ⟨blanks, rest, hBlanks, rfl⟩ := isMarker_bracket h
  have hHead : ∀ c ∈ ((blanks ++ '<' :: rest).dropWhile (· = ' ')).head?, c ≠ mark := by
    clear h
    induction blanks with
    | nil =>
      rintro c hc rfl
      obtain rfl : '<' = c := by simpa using hc
      revert hMark
      decide
    | cons x blanks ih =>
      have hx := hBlanks x List.mem_cons_self
      rw [isBlank, decide_eq_true_eq] at hx
      rcases hx with rfl | rfl
      · exact ih fun y hy => hBlanks y (List.mem_cons_of_mem _ hy)
      · rintro c hc rfl
        obtain rfl : '\t' = c := by simpa using hc
        revert hMark
        decide
  rw [unindented]
  split_ifs
  · cases hDrop : (blanks ++ '<' :: rest).dropWhile (· = ' ') with
    | nil => rfl
    | cons c more =>
      rw [hDrop] at hHead
      simpa using hHead c rfl
  · rfl

theorem opensWith_marker (h : isMarker line = true) {mark : Char} (hMark : mark = '`' ∨ mark = '~') :
    opensWith mark hMark line = none := by
  rw [opensWith, unindented_marker h hMark]
  rfl

theorem isClosedBy_marker (f : Fence) (h : isMarker line = true) : f.isClosedBy line = false := by
  have hLong := f.long
  rw [Fence.isClosedBy, unindented_marker h f.isMark, decide_eq_false_iff_not, List.length_nil]
  omega

theorem fenceStep_marker (h : isMarker line = true) (fence : Option Fence) : fenceStep fence line = fence := by
  cases fence with
  | none =>
    rw [fenceStep, opens, opensWith_marker h, opensWith_marker h]
    rfl
  | some f => rw [fenceStep, isClosedBy_marker f h, if_neg Bool.false_ne_true]

theorem codeLines_marker (h : isMarker line = true) (fence : Option Fence) (lines : List (List Char)) :
    codeLines fence (line :: lines) = (if fence = none then [] else [line]) ++ codeLines fence lines := by
  rw [codeLines, fenceStep_marker h]
  cases fence with
  | none => rfl
  | some f => rw [codeOf, isClosedBy_marker f h, if_neg Bool.false_ne_true, if_neg (by simp)]

theorem fenceAfter_concat (front : List (List Char)) (line : List Char) :
    fenceAfter (front ++ [line]) = fenceStep (fenceAfter front) line := by
  rw [fenceAfter, List.foldl_concat, ← fenceAfter]

theorem codeLines_sublist (h : ∀ i, IsBlockId (idGenerator i)) (fence : Option Fence) (prev : Option (List Char))
    (calls : Nat) (lines : List (List Char)) :
    (codeLines fence lines).Sublist (codeLines fence (withMarkers idGenerator prev calls lines)) := by
  induction lines generalizing fence prev calls with
  | nil => exact .slnil
  | cons line lines ih =>
    rw [withMarkers]
    split_ifs with hOpens
    · rw [codeLines_marker (isMarker_format h calls)]
      exact ((ih _ _ _).append_left _).trans (List.sublist_append_right _ _)
    · exact (ih _ _ _).append_left _

theorem codeLines_iff (h : ∀ i, IsBlockId (idGenerator i)) {prev : Option (List Char)} {calls : Nat}
    {lines front : List (List Char)} (hFront : front.getLast? = prev) :
    codeLines (fenceAfter front) (withMarkers idGenerator prev calls lines) = codeLines (fenceAfter front) lines ↔
      ∀ before line after, lines = before ++ line :: after → fenceAfter (front ++ before) ≠ none →
        isTopLevelBlockOpener line (front ++ before).getLast? = false := by
  induction lines generalizing prev calls front with
  | nil =>
    refine ⟨fun _ before line after hSplit => ?_, fun _ => rfl⟩
    simp at hSplit
  | cons next lines ih =>
    have hNext : (front ++ [next]).getLast? = some next := List.getLast?_concat
    have hSplits : (∀ before line after, next :: lines = before ++ line :: after → fenceAfter (front ++ before) ≠ none →
        isTopLevelBlockOpener line (front ++ before).getLast? = false) ↔
        (fenceAfter front ≠ none → isTopLevelBlockOpener next prev = false) ∧
          ∀ before line after, lines = before ++ line :: after → fenceAfter (front ++ [next] ++ before) ≠ none →
            isTopLevelBlockOpener line (front ++ [next] ++ before).getLast? = false := by
      have hMove (before : List (List Char)) : front ++ [next] ++ before = front ++ next :: before := by simp
      constructor
      · refine fun hAll => ⟨fun hOpen => ?_, fun before line after hSplit => ?_⟩
        · have hFirst := hAll [] next lines rfl
          rw [List.append_nil, hFront] at hFirst
          exact hFirst hOpen
        · rw [hMove]
          exact hAll (next :: before) line after (by rw [hSplit]; rfl)
      · rintro ⟨hFirst, hRest⟩ before line after hSplit
        cases before with
        | nil =>
          obtain ⟨rfl, -⟩ := List.cons.inj hSplit
          rwa [List.append_nil, hFront]
        | cons next' before =>
          obtain ⟨hSame, hTail⟩ := List.cons.inj hSplit
          have hMore := hRest before line after hTail
          rwa [hMove, hSame] at hMore
    have hTail (calls : Nat) : codeLines (fenceAfter front) (next :: withMarkers idGenerator (some next) calls lines) =
        codeLines (fenceAfter front) (next :: lines) ↔
        ∀ before line after, lines = before ++ line :: after → fenceAfter (front ++ [next] ++ before) ≠ none →
          isTopLevelBlockOpener line (front ++ [next] ++ before).getLast? = false := by
      rw [codeLines, codeLines, List.append_cancel_left_eq, ← fenceAfter_concat]
      exact ih hNext
    rw [hSplits, withMarkers]
    split_ifs with hOpens
    · rw [codeLines_marker (isMarker_format h calls)]
      by_cases hOpen : fenceAfter front = none
      · rw [if_pos hOpen, List.nil_append, hTail]
        exact ⟨fun hRest => ⟨fun hNot => absurd hOpen hNot, hRest⟩, And.right⟩
      · refine ⟨fun hSame => ?_, fun hAll => ?_⟩
        · -- the marker is a line of code more
          have hMore := ((codeLines_sublist h (fenceAfter (front ++ [next])) (some next) (calls + 1) lines).append_left
            (codeOf (fenceAfter front) next)).length_le
          have hLength := congrArg List.length hSame
          rw [if_neg hOpen, List.singleton_append, List.length_cons, codeLines, codeLines] at hLength
          rw [fenceAfter_concat] at hMore
          omega
        · rw [hAll.1 hOpen] at hOpens
          cases hOpens
    · rw [hTail]
      rw [Bool.not_eq_true] at hOpens
      exact ⟨fun hRest => ⟨fun _ => hOpens, hRest⟩, And.right⟩

end Pass

theorem unbroken_iff {md : List Char} : Unbroken md ↔
    ∀ before line after, pieces md = before ++ line :: after → fenceAfter ([] ++ before) ≠ none →
      isTopLevelBlockOpener line ([] ++ before).getLast? = false := by
  simp only [List.nil_append]
  constructor
  · intro h before line after hSplit hOpen
    rcases List.eq_nil_or_concat before with rfl | ⟨front, prev, rfl⟩
    · exact absurd rfl hOpen
    · rw [List.concat_eq_append] at hSplit hOpen ⊢
      rw [List.append_assoc, List.singleton_append] at hSplit
      rw [List.getLast?_concat, isTopLevelBlockOpener, Option.all_some]
      cases hEmpty : isEmptyLine prev with
      | false => exact Bool.and_false _
      | true =>
        rcases h front prev line after hSplit hOpen hEmpty with hLine | hLine
        · simp [hLine]
        · simp [hLine]
  · intro h before prev line after hSplit hOpen hEmpty
    have hNot := h (before ++ [prev]) line after (by rw [hSplit, List.append_assoc]; rfl) hOpen
    rw [List.getLast?_concat, isTopLevelBlockOpener, Option.all_some, hEmpty, Bool.and_true] at hNot
    cases hLine : isEmptyLine line with
    | true => exact .inl rfl
    | false => exact .inr (by simpa [hLine] using hNot)

section Text

variable {idGenerator : Nat → List Char} (h : ∀ i, IsBlockId (idGenerator i)) (md : List Char)

theorem assignMissingBlockIds_eq (idGenerator : Nat → List Char) (md : List Char) :
    assignMissingBlockIds md idGenerator =
      (joined (withMarkers idGenerator none 0 (pieces md)), openers none (pieces md)) := by
  rw [assignMissingBlockIds, assignLines_eq none [] rfl, Nat.zero_add, List.nil_append]

theorem formatBlockMarker_free {id : List Char} (h : IsBlockId id) : '\n' ∉ formatBlockMarker id := by
  have hId : '\n' ∉ id := fun hFeed => absurd (h.1 _ hFeed) (by decide)
  unfold formatBlockMarker
  simpa using hId

include h in
theorem pieces_assigned : pieces (assignMissingBlockIds md idGenerator).1 =
    withMarkers idGenerator none 0 (pieces md) := by
  rw [assignMissingBlockIds_eq]
  refine Text.pieces_joined (fun hEmpty => ?_) fun line hLine hFeed => ?_
  · have hShort := (@sublist_withMarkers idGenerator none 0 (pieces md)).length_le
    rw [hEmpty, List.length_nil] at hShort
    exact Text.pieces_ne_nil md (List.length_eq_zero_iff.mp (Nat.le_zero.mp hShort))
  · rcases List.mem_append.mp ((perm_withMarkers none 0 (pieces md)).mem_iff.mp hLine) with hOld | hNew
    · exact Text.pieces_free md line hOld hFeed
    · obtain ⟨i, -, hFormat⟩ := List.mem_map.mp hNew
      exact formatBlockMarker_free (h i) (hFormat ▸ hFeed)

theorem parsed_eq (md : List Char) : ((parseBlockComments md).map fun m => (m.blockId, m.raw)) =
    (pieces md).filterMap fun raw => (execMarker raw).map fun blockId => (blockId, raw) := by
  have hLines : (pieces md).zipIdx.map (·.1) = pieces md := by simp
  conv_rhs => rw [← hLines, List.filterMap_map]
  rw [parseBlockComments, List.map_filterMap]
  refine List.filterMap_congr fun e _ => ?_
  rw [Option.map_map]
  rfl

theorem unbroken_iff_code (h : ∀ i, IsBlockId (idGenerator i)) {md : List Char} :
    Unbroken md ↔ codeLines none (pieces (assignMissingBlockIds md idGenerator).1) = codeLines none (pieces md) := by
  rw [unbroken_iff, pieces_assigned h md, ← @codeLines_iff idGenerator h none 0 (pieces md) [] rfl]
  rfl

end Text

def zeros (i : Nat) : List Char := List.replicate (i + 8) '0'

theorem isBlockId_zeros (i : Nat) : IsBlockId (zeros i) := by
  refine ⟨fun c hc => ?_, ?_⟩
  · rw [List.eq_of_mem_replicate hc]
    decide
  · rw [zeros, List.length_replicate]
    exact Nat.le_add_left 8 i

theorem zeros_injective : Function.Injective zeros := fun i j hSame => by
  simpa [zeros] using congrArg List.length hSame

def codeAndText : List Char := "# Sums\n\n```\na = 1\nb = 2\n```\n\nThe sum is 3.\n".toList

def twoParts : List Char := "```\na = 1\n\nb = 2\n```\n".toList

end Cronymax.Workbench
