import Cronymax.Workbench.BlockIds

/-! A block edit in the editor and on the host.  Both put the replacement between the marker of the block and
the next marker; they do not read every marker alike, and they keep the ends of lines and texts differently. -/

namespace Cronymax.Workbench

open Flow.Document (parseBlockMarker applyBlockSuggestion isHexOrDash stripWord)
open Llm (isWhitespace)
open Text (pieces joined terminated lines stripReturn)

/-- `replaceBlockContent`. -/
def replaceBlockContent (md blockId replacement : List Char) : List Char :=
  let ls := pieces md
  match ls.findIdx? fun l => execMarker l = some blockId with
  | none => md
  | some markerIdx =>
    let startIdx := markerIdx + 1
    let endIdx :=
      match (ls.drop startIdx).findIdx? isMarker with
      | some i => startIdx + i
      | none => ls.length
    let replacementLines := pieces (replacement.rdropWhile Text.isNewline)
    joined (ls.take startIdx ++ (replacementLines ++ [] :: ls.drop endIdx))

/-- What is read of the lines, with their numbers. -/
@[grind =] def numbered {α β : Type} (read : α → Option β) (ls : List α) (n : Nat) : List (Nat × β) :=
  (ls.zipIdx n).filterMap fun e => (read e.1).map fun y => (e.2, y)

/-- The markers as the host reads them. -/
def hostMarkers (md : List Char) : List (Nat × List Char) := numbered parseBlockMarker (lines md) 0

/-- Where the block of an id is: behind its first marker, in front of the next one. -/
structure Place (blockId : List Char) (ls before : List (List Char)) (marker : List Char)
    (body rest : List (List Char)) : Prop where
  split : ls = before ++ marker :: (body ++ rest)
  first : ∀ l ∈ before, execMarker l ≠ some blockId
  here : execMarker marker = some blockId
  body : ∀ l ∈ body, execMarker l = none
  next : ∀ l ∈ rest.head?, execMarker l ≠ none

def newBody (replacement : List Char) : List (List Char) := pieces (replacement.rdropWhile Text.isNewline)

/-- The editor and the host make the same edit, and only that, once. -/
structure EditsAlike (md blockId replacement : List Char) : Prop where
  sameMarkers : hostMarkers md = (parseBlockComments md).map fun m => (m.line, m.blockId)
  sameText : applyBlockSuggestion md blockId replacement = some (replaceBlockContent md blockId replacement)
  onlyThere : ∃ before marker body rest, Place blockId (pieces md) before marker body rest ∧
    pieces (replaceBlockContent md blockId replacement) = before ++ marker :: (newBody replacement ++ [] :: rest) ∧
    Place blockId (pieces (replaceBlockContent md blockId replacement)) before marker (newBody replacement ++ [[]]) rest
  again : replaceBlockContent (replaceBlockContent md blockId replacement) blockId replacement =
      replaceBlockContent md blockId replacement ∧
    applyBlockSuggestion (replaceBlockContent md blockId replacement) blockId replacement =
      some (replaceBlockContent md blockId replacement)

/-- A marker that is written so that both read it: the blanks in it are blanks to both, and its end does not
touch the id. -/
def WellSpaced (id line : List Char) : Prop :=
  ∃ a b c d e, (∀ x ∈ a, isBlank x = true) ∧ (∀ x ∈ b, isSpace x = true ∧ isWhitespace x = true) ∧
    (∀ x ∈ c, isSpace x = true ∧ isWhitespace x = true) ∧ (∀ x ∈ d, isSpace x = true) ∧ d ≠ [] ∧
    (∀ x ∈ e, isSpace x = true) ∧ IsBlockId id ∧
    line = a ++ ("<!--".toList ++ (b ++ ("block:".toList ++ (c ++ (id ++ (d ++ ("-->".toList ++ e)))))))

/-- What one of the two takes for a marker is well spaced; there is a marker behind the block; the last line is
not empty; and no line that stays ends with a carriage return, the last one apart. -/
structure Alike (md blockId : List Char) : Prop where
  markers : ∀ line ∈ pieces md, execMarker line ≠ none ∨ parseBlockMarker line ≠ none → ∃ id, WellSpaced id line
  block : ∃ before marker body rest last, Place blockId (pieces md) before marker body (rest ++ [last]) ∧
    last ≠ [] ∧ ∀ l ∈ before ++ marker :: rest, l.getLast? ≠ some '\r'

theorem first_split {a a' x x' : List Char} {w : Char} (h : a ++ w :: x = a' ++ w :: x') (ha : w ∉ a) (ha' : w ∉ a') :
    a = a' ∧ x = x' := by
  induction a generalizing a' with
  | nil =>
    cases a' with
    | nil => exact ⟨rfl, (List.cons.inj h).2⟩
    | cons c a' =>
      obtain rfl : w = c := (List.cons.inj h).1
      exact absurd List.mem_cons_self ha'
  | cons c a ih =>
    cases a' with
    | nil =>
      obtain rfl : c = w := (List.cons.inj h).1
      exact absurd List.mem_cons_self ha
    | cons c' a' =>
      obtain ⟨rfl, hTail⟩ := List.cons.inj h
      obtain ⟨rfl, rfl⟩ := ih hTail (fun hMem => ha (List.mem_cons_of_mem _ hMem)) fun hMem =>
        ha' (List.mem_cons_of_mem _ hMem)
      exact ⟨rfl, rfl⟩

theorem stripWord_iff {word line rest : List Char} (hWord : ∀ c ∈ word.head?, isWhitespace c = false)
    (hSome : word ≠ []) : stripWord word line = some rest ↔
      ∃ a, (∀ x ∈ a, isWhitespace x = true) ∧ line = a ++ (word ++ rest) := Text.behind_eq_some hWord hSome

theorem isHexOrDash_notWhitespace {c : Char} (h : isHexOrDash c = true) : isWhitespace c = false := by
  have hRange := isHexOrDash_range h
  simp only [isWhitespace, List.mem_cons, List.not_mem_nil, or_false, decide_eq_false_iff_not]
  omega

theorem isBlank_whitespace {c : Char} (h : isBlank c = true) : isWhitespace c = true := by
  rw [isBlank, decide_eq_true_eq] at h
  rcases h with rfl | rfl <;> decide

theorem not_mem_of_class {p : Char → Bool} {blanks : List Char} {c : Char} (h : ∀ x ∈ blanks, p x = true)
    (hc : p c = false) : c ∉ blanks := fun hMem => Bool.false_ne_true (hc.symm.trans (h c hMem))

theorem parseBlockMarker_iff {id line : List Char} : parseBlockMarker line = some id ↔
    IsBlockId id ∧ ∃ a b c rest, (∀ x ∈ a, isWhitespace x = true) ∧ (∀ x ∈ b, isWhitespace x = true) ∧
      (∀ x ∈ c, isWhitespace x = true) ∧ (∀ x ∈ rest.head?, isHexOrDash x = false) ∧
      line = a ++ ("<!--".toList ++ (b ++ ("block:".toList ++ (c ++ (id ++ rest))))) := by
  have hOpening {line rest : List Char} : stripWord "<!--".toList line = some rest ↔
      ∃ a, (∀ x ∈ a, isWhitespace x = true) ∧ line = a ++ ("<!--".toList ++ rest) :=
    stripWord_iff (fun c hc => by
      obtain rfl := Option.some.inj hc
      decide) (by decide)
  have hBlock {line rest : List Char} : stripWord "block:".toList line = some rest ↔
      ∃ b, (∀ x ∈ b, isWhitespace x = true) ∧ line = b ++ ("block:".toList ++ rest) :=
    stripWord_iff (fun c hc => by
      obtain rfl := Option.some.inj hc
      decide) (by decide)
  simp only [parseBlockMarker, Option.bind_eq_some_iff, hOpening, hBlock]
  constructor
  · rintro ⟨opened, ⟨a, ha, rfl⟩, block, ⟨b, hb, rfl⟩, hId⟩
    split_ifs at hId with hShort
    obtain rfl := Option.some.inj hId
    refine ⟨⟨fun x hx => List.mem_takeWhile_imp hx, Nat.not_lt.mp hShort⟩, a, b, block.takeWhile isWhitespace,
      (block.dropWhile isWhitespace).dropWhile isHexOrDash, ha, hb, fun x hx => List.mem_takeWhile_imp hx,
      fun x hx => ?_, ?_⟩
    · have hStop := List.head?_dropWhile_not isHexOrDash (block.dropWhile isWhitespace)
      rw [Option.mem_def.mp hx] at hStop
      exact hStop
    · rw [List.takeWhile_append_dropWhile, List.takeWhile_append_dropWhile]
  · rintro ⟨hId, a, b, c, rest, ha, hb, hc, hRest, rfl⟩
    refine ⟨_, ⟨a, ha, rfl⟩, _, ⟨b, hb, rfl⟩, ?_⟩
    have hDrop : (c ++ (id ++ rest)).dropWhile isWhitespace = id ++ rest := by
      obtain ⟨x, more, rfl⟩ :=
        List.exists_cons_of_ne_nil (List.ne_nil_of_length_pos (Nat.lt_of_lt_of_le (by decide) hId.2))
      rw [List.dropWhile_append_of_pos hc, List.cons_append, List.dropWhile_cons_of_neg]
      rw [isHexOrDash_notWhitespace (hId.1 x List.mem_cons_self)]
      exact Bool.false_ne_true
    have hTake : (id ++ rest).takeWhile isHexOrDash = id := by
      rw [List.takeWhile_append_of_pos hId.1]
      cases rest with
      | nil => simp
      | cons x rest => simp [hRest x rfl]
    rw [hDrop, hTake, if_neg (Nat.not_lt.mpr hId.2)]

theorem both_iff {id line : List Char} :
    execMarker line = some id ∧ parseBlockMarker line = some id ↔ WellSpaced id line := by
  rw [execMarker_iff, parseBlockMarker_iff]
  constructor
  · rintro ⟨⟨a, b, c, d, e, ha, hb, hc, hd, he, hId, rfl⟩, -, a', b', c', rest, ha', hb', hc', hRest, hLine⟩
    obtain ⟨rfl, hOpened⟩ := first_split (w := '<') hLine (not_mem_of_class ha (by decide))
      (not_mem_of_class ha' (by decide))
    obtain ⟨rfl, hBlock⟩ := first_split (w := 'b') (@List.append_cancel_left _ "!--".toList _ _ hOpened)
      (not_mem_of_class hb (by decide)) (not_mem_of_class hb' (by decide))
    have hTail := @List.append_cancel_left _ "lock:".toList _ _ hBlock
    obtain ⟨x, more, rfl⟩ :=
      List.exists_cons_of_ne_nil (List.ne_nil_of_length_pos (Nat.lt_of_lt_of_le (by decide) hId.2))
    have hx := hId.1 x List.mem_cons_self
    obtain ⟨rfl, hEnd⟩ := first_split (w := x) hTail (not_mem_of_class hc (isHexOrDash_notSpace hx))
      (not_mem_of_class hc' (isHexOrDash_notWhitespace hx))
    obtain rfl := List.append_cancel_left hEnd
    refine ⟨a, b, c, d, e, ha, fun y hy => ⟨hb y hy, hb' y hy⟩, fun y hy => ⟨hc y hy, hc' y hy⟩, hd, ?_, he, hId, rfl⟩
    rintro rfl
    exact absurd (hRest '-' rfl) (by decide)
  · rintro ⟨a, b, c, d, e, ha, hb, hc, hd, hSome, he, hId, rfl⟩
    refine ⟨⟨a, b, c, d, e, ha, fun y hy => (hb y hy).1, fun y hy => (hc y hy).1, hd, he, hId, rfl⟩, hId, a, b, c,
      d ++ ("-->".toList ++ e), fun y hy => isBlank_whitespace (ha y hy), fun y hy => (hb y hy).2,
      fun y hy => (hc y hy).2, fun x hx => ?_, rfl⟩
    obtain ⟨y, more, rfl⟩ := List.exists_cons_of_ne_nil hSome
    obtain rfl : y = x := Option.some.inj hx
    rw [Bool.eq_false_iff]
    exact fun hHex => Bool.false_ne_true ((isHexOrDash_notSpace hHex).symm.trans (hd y List.mem_cons_self))

theorem read_alike_iff {line : List Char} : parseBlockMarker line = execMarker line ↔
    (execMarker line ≠ none ∨ parseBlockMarker line ≠ none → ∃ id, WellSpaced id line) := by
  constructor
  · intro hSame hSome
    rw [hSame, or_self] at hSome
    obtain ⟨id, hId⟩ := Option.ne_none_iff_exists'.mp hSome
    exact ⟨id, both_iff.mp ⟨hId, hSame.trans hId⟩⟩
  · intro h
    by_cases hSome : execMarker line ≠ none ∨ parseBlockMarker line ≠ none
    · obtain ⟨id, hId⟩ := h hSome
      obtain ⟨hExec, hParse⟩ := both_iff.mpr hId
      rw [hExec, hParse]
    · rw [not_or, not_not, not_not] at hSome
      rw [hSome.1, hSome.2]

theorem parseBlockMarker_strip (line : List Char) : parseBlockMarker (stripReturn line) = parseBlockMarker line := by
  have hTidy := Flow.Document.marks.tidy (stripReturn line)
  rw [Text.tidy_stripReturn] at hTidy
  exact hTidy.symm.trans (Flow.Document.marks.tidy line)

theorem numbered_later {α β : Type} {f : α → Option β} {xs : List α} {n : Nat} {e : Nat × β}
    (h : e ∈ numbered f xs n) : n ≤ e.1 := by
  obtain ⟨e', he', hMap⟩ := List.mem_filterMap.mp h
  obtain ⟨y, -, rfl⟩ := Option.map_eq_some_iff.mp hMap
  exact (List.mem_zipIdx he').1

theorem numbered_cons {α β : Type} (f : α → Option β) (x : α) (xs : List α) (n : Nat) :
    numbered f (x :: xs) n = ((f x).map fun y => (n, y)).toList ++ numbered f xs (n + 1) := by
  rw [numbered, List.zipIdx_cons, List.filterMap_cons]
  cases f x <;> rfl

theorem numbered_iff {α β : Type} {f g : α → Option β} (xs : List α) (n : Nat) :
    numbered f xs n = numbered g xs n ↔ ∀ x ∈ xs, f x = g x := by
  have hOther {n : Nat} {xs ys : List (Nat × β)} {y : β} (h : xs = (n, y) :: ys) (hLater : ∀ e ∈ xs, n + 1 ≤ e.1) :
      False := Nat.lt_irrefl n (hLater (n, y) (h ▸ List.mem_cons_self))
  induction xs generalizing n with
  | nil => simp [numbered]
  | cons x xs ih =>
    have hRest := ih (n + 1)
    rw [numbered_cons, numbered_cons, List.forall_mem_cons]
    cases hf : f x with
    | none =>
      cases hg : g x with
      | none => simpa using hRest
      | some y => exact ⟨fun h => (hOther h fun e he => numbered_later he).elim, fun h => absurd h.1 (by simp)⟩
    | some y =>
      cases hg : g x with
      | none => exact ⟨fun h => (hOther h.symm fun e he => numbered_later he).elim, fun h => absurd h.1 (by simp)⟩
      | some y' => simpa using fun _ => hRest

theorem hostMarkers_eq (md : List Char) : hostMarkers md = numbered parseBlockMarker (pieces md) 0 := by
  have hStrip (n : Nat) (ls : List (List Char)) :
      numbered parseBlockMarker (ls.map stripReturn) n = numbered parseBlockMarker ls n := by
    induction ls generalizing n with
    | nil => rfl
    | cons line ls ih => rw [List.map_cons, numbered_cons, numbered_cons, parseBlockMarker_strip, ih]
  have hAppend (n : Nat) (ls rest : List (List Char)) : numbered parseBlockMarker (ls ++ rest) n =
      numbered parseBlockMarker ls n ++ numbered parseBlockMarker rest (n + ls.length) := by
    rw [numbered, List.zipIdx_append, List.filterMap_append, numbered, numbered]
  rw [hostMarkers, lines, pieces, hAppend, hAppend, hStrip, List.length_map]
  split_ifs with hEmpty
  · rw [hEmpty]
    rfl
  · rfl

theorem sameMarkers_iff {md : List Char} :
    hostMarkers md = ((parseBlockComments md).map fun m => (m.line, m.blockId)) ↔
      ∀ line ∈ pieces md, parseBlockMarker line = execMarker line := by
  have hParsed : ((parseBlockComments md).map fun m => (m.line, m.blockId)) = numbered execMarker (pieces md) 0 := by
    rw [parseBlockComments, List.map_filterMap, numbered]
    refine List.filterMap_congr fun e _ => ?_
    rw [Option.map_map]
    rfl
  rw [hostMarkers_eq, hParsed]
  exact numbered_iff (pieces md) 0

theorem findIdx?_first {α : Type} {p : α → Bool} {a : List α} {x : α} (ha : ∀ y ∈ a, p y = false) (hx : p x = true)
    (b : List α) : (a ++ x :: b).findIdx? p = some a.length := by
  induction a with
  | nil => rw [List.nil_append, List.findIdx?_cons, if_pos hx, List.length_nil]
  | cons y a ih =>
    rw [List.cons_append, List.findIdx?_cons, if_neg (by simp [ha y List.mem_cons_self]),
      ih fun z hz => ha z (List.mem_cons_of_mem y hz)]
    rfl

theorem drop_blockEnd {α : Type} {q : α → Bool} {before body rest : List α} {marker : α}
    (hBody : ∀ y ∈ body, q y = false) (hNext : ∀ y ∈ rest.head?, q y = true) :
    (before ++ marker :: (body ++ rest)).drop
      (match ((before ++ marker :: (body ++ rest)).drop (before.length + 1)).findIdx? q with
        | some i => before.length + 1 + i
        | none => (before ++ marker :: (body ++ rest)).length) = rest := by
  have hDrop : (before ++ marker :: (body ++ rest)).drop (before.length + 1) = body ++ rest := by simp
  cases rest with
  | nil =>
    have hNone : (body ++ []).findIdx? q = none := by simpa using hBody
    rw [hDrop, hNone]
    exact List.drop_length
  | cons next rest =>
    rw [hDrop, findIdx?_first hBody (hNext next rfl) rest]
    simp only
    rw [← List.drop_drop, hDrop, List.drop_left]

theorem take_marker {α : Type} (before : List α) (marker : α) (behind : List α) :
    (before ++ marker :: behind).take (before.length + 1) = before ++ [marker] := by
  rw [List.append_cons]
  exact List.take_left' (by simp)

section Place

variable {md blockId : List Char} {before body rest : List (List Char)} {marker : List Char}

theorem replaceBlockContent_place (h : Place blockId (pieces md) before marker body rest) (replacement : List Char) :
    replaceBlockContent md blockId replacement = joined (before ++ marker :: (newBody replacement ++ [] :: rest)) := by
  have hBefore : ∀ l ∈ before, decide (execMarker l = some blockId) = false := fun l hl => decide_eq_false (h.first l hl)
  have hBody : ∀ l ∈ body, isMarker l = false := fun l hl => by rw [isMarker, h.body l hl]; rfl
  have hNext : ∀ l ∈ rest.head?, isMarker l = true := fun l hl => Option.isSome_iff_ne_none.mpr (h.next l hl)
  rw [replaceBlockContent, h.split, findIdx?_first hBefore (decide_eq_true h.here)]
  simp only
  rw [drop_blockEnd hBody hNext, take_marker, List.append_assoc]
  rfl

theorem applyBlockSuggestion_place (hLines : lines md = before ++ marker :: (body ++ rest))
    (hFirst : ∀ l ∈ before, parseBlockMarker l ≠ some blockId) (hHere : parseBlockMarker marker = some blockId)
    (hBody : ∀ l ∈ body, parseBlockMarker l = none) (hNext : ∀ l ∈ rest.head?, parseBlockMarker l ≠ none)
    (replacement : List Char) : applyBlockSuggestion md blockId replacement =
      some (terminated (before ++ [marker]) ++
        (replacement.rdropWhile Text.isNewline ++ '\n' :: '\n' :: joined rest)) := by
  have hBefore : ∀ l ∈ before, decide (parseBlockMarker l = some blockId) = false := fun l hl =>
    decide_eq_false (hFirst l hl)
  have hPlain : ∀ l ∈ body, (parseBlockMarker l).isSome = false := fun l hl => by rw [hBody l hl]; rfl
  have hMarker : ∀ l ∈ rest.head?, (parseBlockMarker l).isSome = true := fun l hl =>
    Option.isSome_iff_ne_none.mpr (hNext l hl)
  have hRest := @drop_blockEnd _ _ before body rest marker hPlain hMarker
  rw [applyBlockSuggestion, hLines, findIdx?_first hBefore (decide_eq_true hHere)]
  simp only
  rw [take_marker]
  exact congrArg (fun ls => some (terminated (before ++ [marker]) ++
    (replacement.rdropWhile Text.isNewline ++ '\n' :: '\n' :: joined ls))) hRest

theorem place_of_mem {ls : List (List Char)} (h : ∃ l ∈ ls, execMarker l = some blockId) :
    ∃ before marker body rest, Place blockId ls before marker body rest := by
  obtain ⟨l, hl, hHere⟩ := h
  have hFound : (ls.findIdx? fun l => execMarker l = some blockId).isSome = true := by
    rw [List.findIdx?_isSome, List.any_eq_true]
    exact ⟨l, hl, decide_eq_true hHere⟩
  obtain ⟨i, hi⟩ := Option.isSome_iff_exists.mp hFound
  obtain ⟨before, marker, behind, rfl, -, hMarker, hBefore⟩ := Flow.Document.findIdx?_split hi
  refine ⟨before, marker, behind.takeWhile fun l => (execMarker l).isNone,
    behind.dropWhile fun l => (execMarker l).isNone, ?_, fun l hl => of_decide_eq_false (hBefore l hl),
    of_decide_eq_true hMarker, fun l hl => by simpa using List.mem_takeWhile_imp hl, fun l hl => ?_⟩
  · rw [List.takeWhile_append_dropWhile]
  · have hStop := List.head?_dropWhile_not (fun l => (execMarker l).isNone) behind
    rw [Option.mem_def.mp hl] at hStop
    exact fun hNone => by simp [hNone] at hStop

end Place

theorem lines_of_pieces {md last : List Char} {ls : List (List Char)} (h : pieces md = ls ++ [last]) :
    lines md = ls.map stripReturn ++ if last = [] then [] else [last] := by
  rw [pieces] at h
  obtain ⟨hFront, hLast⟩ := List.append_inj' h rfl
  rw [lines, hFront, List.cons.inj hLast |>.1]

theorem pieces_terminated {ls : List (List Char)} (h : ∀ line ∈ ls, '\n' ∉ line) (rest : List Char) :
    pieces (terminated ls ++ rest) = ls ++ pieces rest := by
  induction ls with
  | nil => rfl
  | cons line ls ih =>
    have hText : terminated (line :: ls) ++ rest = line ++ '\n' :: (terminated ls ++ rest) := by simp [terminated]
    rw [hText, Text.pieces_between, Text.pieces_of_free (h line List.mem_cons_self),
      ih fun l hl => h l (List.mem_cons_of_mem _ hl)]
    rfl

theorem strip_eq_iff {ls : List (List Char)} :
    ls.map stripReturn = ls ↔ ∀ l ∈ ls, l.getLast? ≠ some '\r' := by
  have hOne (line : List Char) : stripReturn line = line ↔ line.getLast? ≠ some '\r' := by
    rw [stripReturn]
    split_ifs with hReturn
    · refine ⟨fun hSame => ?_, fun hNot => absurd hReturn hNot⟩
      have hLength := congrArg List.length hSame
      rw [List.length_dropLast] at hLength
      have hEmpty : line = [] := List.length_eq_zero_iff.mp (by omega)
      rw [hEmpty] at hReturn
      cases hReturn
    · exact ⟨fun _ => hReturn, fun _ => rfl⟩
  induction ls with
  | nil => simp
  | cons line ls ih =>
    rw [List.map_cons, List.cons.injEq, List.forall_mem_cons]
    exact and_congr (hOne line) ih

theorem pieces_host {before body rest : List (List Char)} {marker : List Char}
    (hFree : ∀ l ∈ before ++ marker :: (body ++ rest), '\n' ∉ l) (replacement : List Char) :
    pieces (terminated (before ++ [marker]) ++
        (replacement.rdropWhile Text.isNewline ++ '\n' :: '\n' :: joined rest)) =
      before ++ marker :: (newBody replacement ++ [] :: if rest = [] then [[]] else rest) := by
  have hEmpty : pieces ('\n' :: joined rest) = [] :: pieces (joined rest) := Text.pieces_between [] (joined rest)
  have hJoined : pieces (joined rest) = if rest = [] then [[]] else rest := by
    split_ifs with hNone
    · rw [hNone]
      rfl
    · exact Text.pieces_joined hNone fun l hl => hFree l (by simp [hl])
  have hFront : ∀ l ∈ before ++ [marker], '\n' ∉ l := fun l hl => hFree l (by
    rcases List.mem_append.mp hl with hl | hl
    · exact List.mem_append_left _ hl
    · simp [List.mem_singleton.mp hl])
  rw [pieces_terminated hFront, Text.pieces_between, hEmpty, hJoined, List.append_assoc]
  rfl

section Same

variable {md blockId : List Char} {before body rest : List (List Char)} {marker : List Char}

theorem pieces_replaced (h : Place blockId (pieces md) before marker body rest) (replacement : List Char) :
    pieces (replaceBlockContent md blockId replacement) = before ++ marker :: (newBody replacement ++ [] :: rest) := by
  have hFree := Text.pieces_free md
  rw [h.split] at hFree
  rw [replaceBlockContent_place h]
  refine Text.pieces_joined (by simp) fun line hLine hFeed => ?_
  simp only [List.mem_append, List.mem_cons] at hLine
  rcases hLine with hLine | rfl | hLine | rfl | hLine
  · exact hFree line (by simp [hLine]) hFeed
  · exact hFree line (by simp) hFeed
  · exact Text.pieces_free _ line hLine hFeed
  · cases hFeed
  · exact hFree line (by simp [hLine]) hFeed

theorem execMarker_nil : execMarker [] = none := rfl

theorem pieces_injective {text text' : List Char} (h : pieces text = pieces text') : text = text' := by
  rw [← Text.joined_pieces text, h, Text.joined_pieces]

theorem not_same_at_end (hAlike : ∀ line ∈ pieces md, parseBlockMarker line = execMarker line)
    (h : Place blockId (pieces md) before marker body []) (replacement : List Char) :
    applyBlockSuggestion md blockId replacement ≠ some (replaceBlockContent md blockId replacement) := by
  have hSplit := h.split
  rw [List.append_nil] at hSplit
  rw [hSplit] at hAlike
  have hMarker : parseBlockMarker marker = some blockId := (hAlike marker (by simp)).trans h.here
  have hBefore : ∀ l ∈ before.map stripReturn, parseBlockMarker l ≠ some blockId := by
    rintro l hl
    obtain ⟨l₀, hl₀, rfl⟩ := List.mem_map.mp hl
    rw [parseBlockMarker_strip, hAlike l₀ (by simp [hl₀])]
    exact h.first l₀ hl₀
  have hBody : ∀ l ∈ body, parseBlockMarker l = none := fun l hl => (hAlike l (by simp [hl])).trans (h.body l hl)
  obtain ⟨marker', body', hLines, hHere, hBody'⟩ : ∃ marker' body',
      lines md = before.map stripReturn ++ marker' :: (body' ++ []) ∧ parseBlockMarker marker' = some blockId ∧
        ∀ l ∈ body', parseBlockMarker l = none := by
    rcases List.eq_nil_or_concat body with rfl | ⟨front, last, rfl⟩
    · refine ⟨marker, [], ?_, hMarker, by simp⟩
      have hSome : marker ≠ [] := by
        rintro rfl
        cases h.here
      rw [lines_of_pieces hSplit, if_neg hSome]
      rfl
    · rw [List.concat_eq_append] at hSplit hBody
      refine ⟨stripReturn marker, front.map stripReturn ++ if last = [] then [] else [last], ?_, ?_, fun l hl => ?_⟩
      · rw [lines_of_pieces (hSplit.trans (List.append_assoc before (marker :: front) [last]).symm)]
        simp
      · rw [parseBlockMarker_strip, hMarker]
      · rcases List.mem_append.mp hl with hl | hl
        · obtain ⟨l₀, hl₀, rfl⟩ := List.mem_map.mp hl
          rw [parseBlockMarker_strip, hBody l₀ (by simp [hl₀])]
        · split_ifs at hl
          · cases hl
          · exact hBody l (by simp [List.mem_singleton.mp hl])
  have hFree := Text.lines_free md
  rw [hLines] at hFree
  have hHost := applyBlockSuggestion_place hLines hBefore hHere hBody' (by simp) replacement
  intro hSame
  have hTexts := congrArg pieces (Option.some.inj (hHost.symm.trans hSame))
  rw [pieces_host hFree, pieces_replaced h] at hTexts
  have hLength := congrArg List.length hTexts
  simp at hLength

theorem same_inside (hAlike : ∀ line ∈ pieces md, parseBlockMarker line = execMarker line) {last : List Char}
    (h : Place blockId (pieces md) before marker body (rest ++ [last])) (replacement : List Char) :
    applyBlockSuggestion md blockId replacement = some (replaceBlockContent md blockId replacement) ↔
      last ≠ [] ∧ ∀ l ∈ before ++ marker :: rest, l.getLast? ≠ some '\r' := by
  have hSplit := h.split
  rw [hSplit] at hAlike
  have hMarker : parseBlockMarker marker = some blockId := (hAlike marker (by simp)).trans h.here
  have hBefore : ∀ l ∈ before.map stripReturn, parseBlockMarker l ≠ some blockId := by
    rintro l hl
    obtain ⟨l₀, hl₀, rfl⟩ := List.mem_map.mp hl
    rw [parseBlockMarker_strip, hAlike l₀ (by simp [hl₀])]
    exact h.first l₀ hl₀
  have hBody : ∀ l ∈ body.map stripReturn, parseBlockMarker l = none := by
    rintro l hl
    obtain ⟨l₀, hl₀, rfl⟩ := List.mem_map.mp hl
    rw [parseBlockMarker_strip, hAlike l₀ (by simp [hl₀]), h.body l₀ hl₀]
  obtain ⟨kept, hKept⟩ : ∃ kept, kept = rest.map stripReturn ++ if last = [] then [] else [last] := ⟨_, rfl⟩
  have hLines : lines md = before.map stripReturn ++ stripReturn marker :: (body.map stripReturn ++ kept) := by
    have hLast : pieces md = (before ++ marker :: (body ++ rest)) ++ [last] := by rw [hSplit]; simp
    rw [lines_of_pieces hLast, hKept]
    simp
  have hNext : kept ≠ [] ∧ ∀ l ∈ kept.head?, parseBlockMarker l ≠ none := by
    cases rest with
    | nil =>
      have hSome : execMarker last ≠ none := h.next last rfl
      have hLast : last ≠ [] := fun hEmpty => hSome (hEmpty ▸ execMarker_nil)
      rw [if_neg hLast] at hKept
      refine ⟨by simp [hKept], fun l hl => ?_⟩
      obtain rfl : last = l := by simpa [hKept] using hl
      rwa [hAlike last (by simp)]
    | cons next rest =>
      refine ⟨by simp [hKept], fun l hl => ?_⟩
      obtain rfl : stripReturn next = l := by simpa [hKept] using hl
      rw [parseBlockMarker_strip, hAlike next (by simp)]
      exact h.next next rfl
  have hFree := Text.lines_free md
  rw [hLines] at hFree
  have hHost := applyBlockSuggestion_place hLines hBefore ((parseBlockMarker_strip marker).trans hMarker) hBody hNext.2
    replacement
  have hPieces := pieces_host hFree replacement
  rw [if_neg hNext.1] at hPieces
  have hStays : kept = rest ++ [last] ↔ last ≠ [] ∧ rest.map stripReturn = rest := by
    rw [hKept]
    split_ifs with hEmpty
    · refine ⟨fun hSame => ?_, fun hSome => absurd hEmpty hSome.1⟩
      have hLength := congrArg List.length hSame
      simp at hLength
    · rw [List.append_left_inj]
      exact ⟨fun hSame => ⟨hEmpty, hSame⟩, And.right⟩
  have hAll := @strip_eq_iff (before ++ marker :: rest)
  rw [List.map_append, List.map_cons] at hAll
  have hLength : (before.map stripReturn).length = before.length := List.length_map ..
  rw [hHost, Option.some.injEq]
  constructor
  · intro hSame
    have hTexts := congrArg pieces hSame
    rw [hPieces, pieces_replaced h] at hTexts
    obtain ⟨hFront, hBehind⟩ := List.append_inj hTexts hLength
    obtain ⟨hHere, hBehind⟩ := List.cons.inj hBehind
    have hRest := (List.cons.inj (List.append_cancel_left hBehind)).2
    obtain ⟨hSome, hMap⟩ := hStays.mp hRest
    refine ⟨hSome, hAll.mp ?_⟩
    rw [hFront, hHere, hMap]
  · rintro ⟨hSome, hReturns⟩
    obtain ⟨hFront, hBehind⟩ := List.append_inj (hAll.mpr hReturns) hLength
    obtain ⟨hHere, hMap⟩ := List.cons.inj hBehind
    refine pieces_injective ?_
    rw [hPieces, pieces_replaced h, hFront, hHere, hStays.mpr ⟨hSome, hMap⟩]

theorem mem_newBody {replacement line : List Char} (h : line ∈ newBody replacement) : line ∈ pieces replacement := by
  have hParts : replacement.rdropWhile Text.isNewline ++ replacement.rtakeWhile Text.isNewline = replacement :=
    List.rdropWhile_append_rtakeWhile
  cases hFeeds : replacement.rtakeWhile Text.isNewline with
  | nil =>
    rw [hFeeds, List.append_nil] at hParts
    rwa [newBody, hParts] at h
  | cons c feeds =>
    have hc : Text.isNewline c = true := List.mem_rtakeWhile_imp (hFeeds ▸ List.mem_cons_self)
    obtain rfl : c = '\n' := of_decide_eq_true hc
    rw [← hParts, hFeeds, Text.pieces_between]
    exact List.mem_append_left _ h

end Same

/-- The edits are alike just if the markers are well spaced, a marker comes behind the block, the text does not end
with a line feed and no line that stays ends with a carriage return. -/
theorem edits_alike_iff {md blockId replacement : List Char}
    (hOccurs : ∃ line ∈ pieces md, execMarker line = some blockId ∨ parseBlockMarker line = some blockId)
    (hPlain : ∀ line ∈ pieces replacement, execMarker line = none ∧ parseBlockMarker line = none) :
    EditsAlike md blockId replacement ↔ Alike md blockId := by
  constructor
  · intro h
    have hAlike := sameMarkers_iff.mp h.sameMarkers
    have hMarkers : ∃ line ∈ pieces md, execMarker line = some blockId := by
      obtain ⟨line, hLine, hHere⟩ := hOccurs
      rw [hAlike line hLine, or_self] at hHere
      exact ⟨line, hLine, hHere⟩
    obtain ⟨before, marker, body, rest, hPlace⟩ := place_of_mem hMarkers
    refine ⟨fun line hLine => read_alike_iff.mp (hAlike line hLine), ?_⟩
    rcases List.eq_nil_or_concat rest with rfl | ⟨more, last, rfl⟩
    · exact absurd h.sameText (not_same_at_end hAlike hPlace replacement)
    · rw [List.concat_eq_append] at hPlace
      exact ⟨before, marker, body, more, last, hPlace, (same_inside hAlike hPlace replacement).mp h.sameText⟩
  · rintro ⟨hMarkers, before, marker, body, rest, last, hPlace, hStays⟩
    have hAlike : ∀ line ∈ pieces md, parseBlockMarker line = execMarker line := fun line hLine =>
      read_alike_iff.mpr (hMarkers line hLine)
    have hPieces := pieces_replaced hPlace replacement
    have hNew : Place blockId (pieces (replaceBlockContent md blockId replacement)) before marker
        (newBody replacement ++ [[]]) (rest ++ [last]) := by
      refine ⟨by rw [hPieces]; simp, hPlace.first, hPlace.here, fun l hl => ?_, hPlace.next⟩
      rcases List.mem_append.mp hl with hl | hl
      · exact (hPlain l (mem_newBody hl)).1
      · rw [List.mem_singleton.mp hl, execMarker_nil]
    have hAlikeNew : ∀ line ∈ pieces (replaceBlockContent md blockId replacement),
        parseBlockMarker line = execMarker line := by
      intro line hLine
      rw [hPieces] at hLine
      have hOld : line ∈ pieces md ∨ line ∈ newBody replacement ∨ line = [] := by
        rw [hPlace.split]
        simp only [List.mem_append, List.mem_cons] at hLine ⊢
        tauto
      rcases hOld with hOld | hBody | rfl
      · exact hAlike line hOld
      · obtain ⟨hExec, hParse⟩ := hPlain line (mem_newBody hBody)
        rw [hExec, hParse]
      · rfl
    have hAgain : replaceBlockContent (replaceBlockContent md blockId replacement) blockId replacement =
        replaceBlockContent md blockId replacement := by
      rw [replaceBlockContent_place hNew, replaceBlockContent_place hPlace]
    refine ⟨sameMarkers_iff.mpr hAlike, (same_inside hAlike hPlace replacement).mpr hStays,
      ⟨before, marker, body, rest ++ [last], hPlace, hPieces, hNew⟩, hAgain, ?_⟩
    have hHost := (same_inside hAlikeNew hNew replacement).mpr hStays
    rwa [hAgain] at hHost

def twoBlocks : List Char := "<!-- block: 0000000a -->\nA\n\n<!-- block: 0000000b -->\nB\n".toList

/-- An edit of the first of two blocks, after which the texts differ. -/
theorem twoBlocks_differ :
    (∃ line ∈ pieces twoBlocks, execMarker line = some "0000000a".toList ∨
      parseBlockMarker line = some "0000000a".toList) ∧
    (∀ line ∈ pieces "C".toList, execMarker line = none ∧ parseBlockMarker line = none) ∧
    ¬EditsAlike twoBlocks "0000000a".toList "C".toList := by
  unfold twoBlocks
  repeat rw [String.toList_ofList]
  refine ⟨by decide, by decide, fun h => ?_⟩
  have hText := h.sameText
  revert hText
  decide

def opened : List Char := "<!-- block: 0000000a -->\nA\n\n<!-- block: 0000000b -->\nB".toList

/-- Without a newline at the end of the text both make the same edit. -/
theorem edits_alike_opened : EditsAlike opened "0000000a".toList "C".toList := by
  have hPieces : pieces opened = ["<!-- block: 0000000a -->".toList, "A".toList, [],
      "<!-- block: 0000000b -->".toList, "B".toList] := by decide
  have hSame : ∀ line ∈ pieces opened, parseBlockMarker line = execMarker line := by
    rw [hPieces]
    decide
  refine (edits_alike_iff ?_ ?_).mpr ⟨fun line hLine => read_alike_iff.mp (hSame line hLine), [], _,
    ["A".toList, []], ["<!-- block: 0000000b -->".toList], "B".toList, ⟨hPieces, ?_, ?_, ?_, ?_⟩, ?_, ?_⟩
  · rw [hPieces]
    decide
  all_goals decide

end Cronymax.Workbench
