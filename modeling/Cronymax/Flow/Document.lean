import Cronymax.Atomic.Interleaving
import Cronymax.Llm.Sse
import Cronymax.Text.Lines

/-! The document store of a flow: the current text of a document, the snapshots of its revisions, and
suggestions that replace the body of one block. -/

namespace Cronymax.Flow.Document

open Atomic
open Llm (isWhitespace)
open Text (lines terminated joined tidyLines settled blockOf)

/-- `NAME_RE`, and the bound on the length. -/
def isSafeName (name : String) : Bool :=
  let isHead (c : Char) : Bool := ('a' ≤ c ∧ c ≤ 'z') ∨ ('0' ≤ c ∧ c ≤ '9')
  match name.toList with
  | [] => false
  | c :: cs => (c :: cs).length ≤ 128 && isHead c && cs.all fun c => isHead c || c = '_' || c = '-'

def isHexOrDash (c : Char) : Bool :=
  ('0' ≤ c ∧ c ≤ '9') ∨ ('a' ≤ c ∧ c ≤ 'f') ∨ ('A' ≤ c ∧ c ≤ 'F') ∨ c = '-'

/-- `strip_prefix` behind leading blanks. -/
def stripWord (word : List Char) (line : List Char) : Option (List Char) :=
  (line.dropWhile isWhitespace).dropPrefix? word

/-- `parse_block_marker`. -/
def parseBlockMarker (line : List Char) : Option (List Char) :=
  (stripWord "<!--".toList line).bind fun s =>
    (stripWord "block:".toList s).bind fun s =>
      let id := (s.dropWhile isWhitespace).takeWhile isHexOrDash
      if id.length < 8 then none else some id

/-- `apply_block_suggestion`: the lines of the block give way to the suggestion. -/
def applyBlockSuggestion (md blockId suggestion : List Char) : Option (List Char) :=
  let ls := lines md
  match ls.findIdx? fun l => parseBlockMarker l = some blockId with
  | none => none
  | some markerIdx =>
    let blockEnd :=
      match (ls.drop (markerIdx + 1)).findIdx? fun l => (parseBlockMarker l).isSome with
      | some i => markerIdx + 1 + i
      | none => ls.length
    let trimmed := suggestion.rdropWhile Text.isNewline
    some (terminated (ls.take (markerIdx + 1)) ++
      (trimmed ++ '\n' :: '\n' :: joined (ls.drop blockEnd)))

/-- The files of a document. -/
structure Files where
  /-- `docs/<name>.md`. -/
  current : Option (List Char)
  /-- `docs/.history/<name>.<rev>.md`. -/
  history : List (UInt32 × List Char)

/-- `latest_revision`, and 0 where there is no snapshot. -/
def Files.latestRevision (f : Files) : UInt32 :=
  f.history.foldl (fun latest e => if e.1 > latest then e.1 else latest) 0

/-- The number of the next revision, which wraps. -/
def Files.nextRevision (f : Files) : UInt32 := f.latestRevision + 1

/-- What can fail in a submit. -/
inductive SubmitFault where
  | createDocs
  | createHistory
  | createLocks
  | openLock
  | contention
  | flock (message : String)
  | writeHistory
  | renameHistory
  | writeDoc
  | renameDoc
deriving DecidableEq

/-- The fault comes after the history file has been written. -/
def SubmitFault.afterSnapshot (e : SubmitFault) : Bool := e = .writeDoc ∨ e = .renameDoc

/-- An access to the files of a document, each one step. -/
inductive Access where
  | read
  | submit (content : List Char) (fault : Option SubmitFault)
deriving DecidableEq

/-- The access writes a history file. -/
def Access.takesSnapshot : Access → Bool
  | .read => false
  | .submit _ none => true
  | .submit _ (some e) => e.afterSnapshot

instance : Acts Access Files where
  apply
    | .read, f => f
    | .submit content none, f =>
      { current := some content, history := (f.nextRevision, content) :: f.history }
    | .submit content (some e), f =>
      if e.afterSnapshot then { f with history := (f.nextRevision, content) :: f.history } else f

inductive DocumentError where
  | invalidName (name : String)
  | io (message : String)
  | notFound (name : String)
  | blockNotFound
  | submit (e : SubmitFault) (lockTimeoutMs : Nat)
deriving DecidableEq

def DocumentError.message : DocumentError → String
  | .invalidName name => "invalid document name: " ++ name
  | .io message => message
  | .notFound name => "document not found: " ++ name
  | .blockNotFound => "block_not_found_in_current_revision"
  | .submit .createDocs _ => "create docs/"
  | .submit .createHistory _ => "create docs/.history/"
  | .submit .createLocks _ => "create docs/.locks/"
  | .submit .openLock _ => "open lock file"
  | .submit .contention ms => "lock contention (timed out after " ++ toString ms ++ "ms)"
  | .submit (.flock message) _ => "flock failed: " ++ message
  | .submit .writeHistory _ => "atomic_write: write .tmp"
  | .submit .renameHistory _ => "atomic_write: rename"
  | .submit .writeDoc _ => "atomic_write: write .tmp"
  | .submit .renameDoc _ => "atomic_write: rename"

structure WriteResult where
  revision : UInt32
deriving DecidableEq

abbrev DocProg := Prog Access Files DocumentError

/-- Which accesses of a call fail. -/
structure Faults where
  read : Option String := none
  submit : Option SubmitFault := none
deriving DecidableEq

/-- `DocumentStore::read`. -/
def readCurrent (faults : Faults) (name : String) : DocProg (Option (List Char)) :=
  if !isSafeName name then .fail (.invalidName name)
  else
    .act .read fun f =>
      match faults.read with
      | some message => .fail (.io message)
      | none => .done f.current

/-- `DocumentStore::submit`: under the lock the next revision is written to the history and to the
document. -/
def submit (faults : Faults) (name : String) (content : List Char) (lockTimeoutMs : Nat) :
    DocProg WriteResult :=
  if !isSafeName name then .fail (.invalidName name)
  else
    .act (.submit content faults.submit) fun f =>
      match faults.submit with
      | some e => .fail (.submit e lockTimeoutMs)
      | none => .done { revision := f.nextRevision }

/-- `suggestion_apply`: reading and submitting are two calls of the store. -/
def suggestionApply (faults : Faults) (name : String) (blockId suggestion : List Char)
    (lockTimeoutMs : Nat) : DocProg WriteResult := do
  let found ← readCurrent faults name
  match found with
  | none => .fail (.notFound name)
  | some current =>
    match applyBlockSuggestion current blockId suggestion with
    | none => .fail .blockNotFound
    | some newContent => submit faults name newContent lockTimeoutMs

theorem dropPrefix_return {word : List Char} (hFree : '\r' ∉ word) (line : List Char) :
    (line ++ ['\r']).dropPrefix? word = (line.dropPrefix? word).map (· ++ ['\r']) := by
  induction word generalizing line with
  | nil => simp
  | cons w word ih =>
    have hHead : '\r' ≠ w := fun h => hFree (h ▸ List.mem_cons_self)
    cases line with
    | nil => simp [List.dropPrefix?, hHead]
    | cons c line =>
      rw [List.cons_append, List.dropPrefix?, List.dropPrefix?,
        ih (fun h => hFree (List.mem_cons_of_mem _ h)) line]
      split
      · rfl
      · rfl

theorem stripWord_return {word : List Char} (hWord : word ≠ []) (hFree : '\r' ∉ word)
    (line : List Char) :
    stripWord word (line ++ ['\r']) = (stripWord word line).map (· ++ ['\r']) := by
  unfold stripWord
  rw [List.dropWhile_append]
  cases hEmpty : (line.dropWhile isWhitespace).isEmpty with
  | true =>
    -- a line of blanks only has no word, whether or not the carriage return counts as one more
    rw [List.isEmpty_iff.mp hEmpty]
    cases word with
    | nil => exact absurd rfl hWord
    | cons w word => rfl
  | false => exact dropPrefix_return hFree _

theorem parseBlockMarker_return (line : List Char) :
    parseBlockMarker (line ++ ['\r']) = parseBlockMarker line := by
  have hBlank : isWhitespace '\r' = true := by decide
  have hHex : isHexOrDash '\r' = false := by decide
  unfold parseBlockMarker
  rw [stripWord_return (by decide) (by decide), Option.bind_map]
  refine Option.bind_congr fun s _ => ?_
  rw [Function.comp_apply, stripWord_return (by decide) (by decide), Option.bind_map]
  refine Option.bind_congr fun s _ => ?_
  have hId : ((s ++ ['\r']).dropWhile isWhitespace).takeWhile isHexOrDash =
      (s.dropWhile isWhitespace).takeWhile isHexOrDash := by
    rw [List.dropWhile_append]
    split
    · rename_i hEmpty
      rw [List.isEmpty_iff.mp hEmpty]
      simp [hBlank]
    · generalize s.dropWhile isWhitespace = rest
      induction rest with
      | nil => simp [hHex]
      | cons c rest ih => rw [List.cons_append, List.takeWhile_cons, List.takeWhile_cons, ih]
  rw [Function.comp_apply, hId]

def marks : Text.Marks (List Char) where
  mark := parseBlockMarker
  empty := rfl
  tidy := fun line => by
    induction line using List.reverseRecOn with
    | nil => rfl
    | append_singleton line c ih =>
      rw [Text.tidy, List.rdropWhile_concat]
      split
      · rename_i hc
        obtain rfl : c = '\r' := by simpa [Text.isReturn] using hc
        rw [parseBlockMarker_return]
        exact ih
      · rfl

/-- The lines of the block, without the blank ones at its end. -/
def bodyOf (blockId md : List Char) : Option (List (List Char)) :=
  (blockOf marks blockId (tidyLines md)).map settled

/-- The lines that a suggestion puts into a block. -/
def suggestionBody (suggestion : List Char) : List (List Char) := settled (tidyLines suggestion)

/-- A suggestion without marker lines. -/
def Plain (suggestion : List Char) : Prop := ∀ line ∈ lines suggestion, parseBlockMarker line = none

theorem plain_iff {suggestion : List Char} :
    Plain suggestion ↔ Text.Unmarked marks (tidyLines suggestion) := by
  simp only [Plain, Text.Unmarked, tidyLines, List.mem_map, forall_exists_index, and_imp,
    forall_apply_eq_imp_iff₂, marks.tidy]
  rfl

theorem findIdx?_split {α : Type} {p : α → Bool} {xs : List α} {i : Nat}
    (h : xs.findIdx? p = some i) :
    ∃ a x b, xs = a ++ x :: b ∧ i = a.length ∧ p x = true ∧ ∀ y ∈ a, p y = false := by
  induction xs generalizing i with
  | nil => cases h
  | cons x xs ih =>
    rw [List.findIdx?_cons] at h
    split at h
    · rename_i hx
      obtain rfl := Option.some.inj h
      exact ⟨[], x, xs, rfl, rfl, hx, by simp⟩
    · rename_i hx
      obtain ⟨j, hj, rfl⟩ := Option.map_eq_some_iff.mp h
      obtain ⟨a, y, b, rfl, rfl, hy, hFirst⟩ := ih hj
      refine ⟨x :: a, y, b, rfl, rfl, hy, fun z hz => ?_⟩
      rcases List.mem_cons.mp hz with rfl | hz
      · simpa using hx
      · exact hFirst z hz

theorem applyBlockSuggestion_some {md blockId suggestion new : List Char}
    (h : applyBlockSuggestion md blockId suggestion = some new) :
    ∃ before marker body rest, lines md = before ++ marker :: (body ++ rest) ∧
      (∀ l ∈ before, parseBlockMarker l ≠ some blockId) ∧ parseBlockMarker marker = some blockId ∧
      (∀ l ∈ body, parseBlockMarker l = none) ∧
      (∀ l, rest.head? = some l → parseBlockMarker l ≠ none) ∧
      new = terminated (before ++ [marker]) ++
        (suggestion.rdropWhile Text.isNewline ++ '\n' :: '\n' :: joined rest) := by
  unfold applyBlockSuggestion at h
  simp only at h
  split at h
  · cases h
  rename_i markerIdx hIdx
  obtain ⟨before, marker, behind, hLines, rfl, hMarker, hBefore⟩ := findIdx?_split hIdx
  have hTake : (before ++ marker :: behind).take (before.length + 1) = before ++ [marker] := by
    rw [show before ++ marker :: behind = (before ++ [marker]) ++ behind by simp]
    exact List.take_left' (by simp)
  have hDrop : (before ++ marker :: behind).drop (before.length + 1) = behind := by simp
  rw [hLines, hTake, hDrop] at h
  have hSome : ∀ l, (parseBlockMarker l).isSome = false → parseBlockMarker l = none := by simp
  split at h
  · rename_i i hEnd
    obtain ⟨body, next, rest, rfl, rfl, hNext, hBody⟩ := findIdx?_split hEnd
    have hRest : (before ++ marker :: (body ++ next :: rest)).drop
        (before.length + 1 + body.length) = next :: rest := by
      rw [← List.drop_drop, hDrop, List.drop_left]
    rw [hRest] at h
    refine ⟨before, marker, body, next :: rest, hLines, fun l hl => by simpa using hBefore l hl,
      by simpa using hMarker, fun l hl => hSome l (hBody l hl), fun l hl hNone => ?_,
      (Option.some.inj h).symm⟩
    cases hl
    rw [hNone] at hNext
    cases hNext
  · rename_i hEnd
    rw [List.drop_length] at h
    refine ⟨before, marker, behind, [], by rw [hLines, List.append_nil],
      fun l hl => by simpa using hBefore l hl, by simpa using hMarker,
      fun l hl => hSome l (List.findIdx?_eq_none_iff.mp hEnd l hl), by simp,
      (Option.some.inj h).symm⟩

theorem applyBlockSuggestion_lines {md blockId suggestion new : List Char}
    (h : applyBlockSuggestion md blockId suggestion = some new) :
    ∃ before marker body rest tail, tidyLines md = before ++ marker :: (body ++ rest) ∧
      (∀ l ∈ before, marks.mark l ≠ some blockId) ∧ marks.mark marker = some blockId ∧
      Text.Unmarked marks body ∧ (∀ l, tail.head? = some l → marks.mark l ≠ none) ∧
      (rest = tail ∨ rest = tail ++ [[]]) ∧
      tidyLines new = before ++ marker :: ((Text.pieces (suggestion.rdropWhile Text.isNewline)).map
        Text.tidy ++ [[]] ++ tail) := by
  obtain ⟨before, marker, body, rest, hLines, hBefore, hMarker, hBody, hRest, rfl⟩ :=
    applyBlockSuggestion_some h
  have hTidy : ∀ l, marks.mark (Text.tidy l) = parseBlockMarker l := marks.tidy
  have hFree := Text.lines_free md
  rw [hLines] at hFree
  have hRestFree : ∀ l ∈ rest, '\n' ∉ l := fun l hl => hFree l (by simp [hl])
  have hTail := Text.tidyLines_joined hRestFree
  have hText : tidyLines (terminated (before ++ [marker]) ++
      (suggestion.rdropWhile Text.isNewline ++ '\n' :: '\n' :: joined rest)) =
      before.map Text.tidy ++ Text.tidy marker ::
        ((Text.pieces (suggestion.rdropWhile Text.isNewline)).map Text.tidy ++ [[]] ++
          tidyLines (joined rest)) := by
    rw [Text.tidyLines_terminated fun l hl => hFree l (by
      rcases List.mem_append.mp hl with hl | hl
      · simp [hl]
      · simp [List.mem_singleton.mp hl])]
    rw [Text.tidyLines_between, show '\n' :: joined rest = [] ++ '\n' :: joined rest from rfl,
      Text.tidyLines_between, show (Text.pieces []).map Text.tidy = [[]] from rfl]
    simp
  refine ⟨before.map Text.tidy, Text.tidy marker, body.map Text.tidy, rest.map Text.tidy,
    tidyLines (joined rest), ?_, ?_, ?_, ?_, ?_, hTail, hText⟩
  · rw [tidyLines, hLines]
    simp
  · intro l hl
    obtain ⟨l₀, hl₀, rfl⟩ := List.mem_map.mp hl
    rw [hTidy]
    exact hBefore l₀ hl₀
  · rw [hTidy]
    exact hMarker
  · intro l hl
    obtain ⟨l₀, hl₀, rfl⟩ := List.mem_map.mp hl
    rw [hTidy]
    exact hBody l₀ hl₀
  · intro l hl
    cases rest with
    | nil => cases hl
    | cons next rest =>
      have hNext : (tidyLines (joined (next :: rest))).head? = some (Text.tidy next) := by
        rcases hTail with hTail | hTail
        · rw [← hTail]
          rfl
        · cases hEmpty : tidyLines (joined (next :: rest)) with
          | nil =>
            -- the line of a marker is not empty
            rw [hEmpty] at hTail
            have hNil : Text.tidy next = [] := (List.cons.inj hTail).1
            have hMark := hRest next rfl
            rw [← hTidy, hNil] at hMark
            exact absurd rfl hMark
          | cons first more =>
            rw [hEmpty] at hTail
            rw [(List.cons.inj hTail).1]
            rfl
      rw [← Option.some.inj (hNext.symm.trans hl), hTidy]
      exact hRest next rfl

theorem settled_written (suggestion : List Char) :
    settled ((Text.pieces (suggestion.rdropWhile Text.isNewline)).map Text.tidy ++ [[]]) =
      suggestionBody suggestion := by
  rw [Text.settled_concat, Text.settled_pieces, Text.settled_trimmed, suggestionBody]

theorem Plain.unmarked {suggestion : List Char} (h : Plain suggestion) : Text.Unmarked marks
    ((Text.pieces (suggestion.rdropWhile Text.isNewline)).map Text.tidy ++ [[]]) := by
  intro line hLine
  rcases Text.mem_settled hLine with hLine | rfl
  · rw [settled_written] at hLine
    exact plain_iff.mp h line (Text.mem_of_mem_settled hLine)
  · exact marks.empty

theorem bodyOf_applied {md blockId suggestion new : List Char}
    (h : applyBlockSuggestion md blockId suggestion = some new) :
    bodyOf blockId new = some (suggestionBody suggestion) ↔ Plain suggestion := by
  obtain ⟨before, marker, body, rest, tail, -, hBefore, hMarker, -, hTail, -, hNew⟩ :=
    applyBlockSuggestion_lines h
  constructor
  · intro hBody
    obtain ⟨found, hFound, hSame⟩ := Option.map_eq_some_iff.mp hBody
    refine plain_iff.mpr fun line hLine => ?_
    rcases Text.mem_settled hLine with hLine | rfl
    · rw [← suggestionBody, ← hSame] at hLine
      exact Text.blockOf_unmarked hFound line (Text.mem_of_mem_settled hLine)
    · exact marks.empty
  · intro hPlain
    rw [bodyOf, hNew, Text.blockOf_replaced hBefore hMarker hPlain.unmarked hTail, Option.map_some,
      settled_written]

theorem bodyOf_frame {md blockId suggestion new b : List Char}
    (h : applyBlockSuggestion md blockId suggestion = some new) (hPlain : Plain suggestion)
    (hNe : b ≠ blockId) : bodyOf b new = bodyOf b md := by
  obtain ⟨before, marker, body, rest, tail, hMd, hBefore, hMarker, hBody, hTail, hRest, hNew⟩ :=
    applyBlockSuggestion_lines h
  have hOld : bodyOf b md = (blockOf marks b (before ++ marker :: tail)).map settled := by
    rw [bodyOf, hMd, Text.blockOf_other hNe hMarker hBody]
    rcases hRest with rfl | rfl
    · rfl
    · rw [show before ++ marker :: (tail ++ [[]]) = before ++ marker :: tail ++ [[]] by simp,
        Text.blockOf_concat]
  rw [hOld, bodyOf, hNew, Text.blockOf_other hNe hMarker hPlain.unmarked]

end Cronymax.Flow.Document
