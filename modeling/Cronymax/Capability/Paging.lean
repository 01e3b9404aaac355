import Cronymax.Capability.Tools

/-! Reading a file page by page, until a page is not marked as truncated.  Each page is decoded on its
own, and a page that ends where the file ends is marked as well, so that the text and the marks are right
only for some sizes of a page. -/

namespace Cronymax.Capability

open Atomic Utf8

section Host

variable (file : List UInt8)

/-- What a host with this one file answers, with the position of its handle. -/
def answer (pos : Nat) : HostAct → Host × Nat
  | .openFile _ => (silentHost, 0)
  | .seek offset => (silentHost, offset)
  | .readToEnd limit =>
    ({ silentHost with bytes := .ok ((file.drop pos).take limit) },
      pos + ((file.drop pos).take limit).length)
  | _ => (silentHost, pos)

/-- A tool on a host with this one file. -/
def exec {α : Type} : Nat → HostProg α → Except String α
  | _, .done a => .ok a
  | _, .fail e => .error e
  | pos, .act x next => exec (answer file pos x).2 (next (answer file pos x).1)

/-- The bytes of a page. -/
def window (m k : Nat) : List UInt8 := (file.drop (k * m)).take m

/-- One page. -/
def readPage (path : PathBuf) (m offset : Nat) : Except String ReadFileResult :=
  exec file 0 (LocalFilesystem.readFile path (some offset) (some m))

end Host

/-- Pages that are read until one is not full. -/
inductive Pages (read : Nat → Except String ReadFileResult) (m : Nat) : Nat → List ReadFileResult → Prop where
  | last {offset : Nat} {r : ReadFileResult} (hRead : read offset = .ok r)
      (hLast : r.truncated = false) : Pages read m offset [r]
  | more {offset : Nat} {r : ReadFileResult} {rs : List ReadFileResult} (hRead : read offset = .ok r)
      (hMore : r.truncated = true) (rest : Pages read m (offset + m) rs) : Pages read m offset (r :: rs)

/-- The pages hold every byte once and give the text, and are marked where bytes remain. -/
structure Rebuilt (text : List Char) (m : Nat) (pages : List ReadFileResult) : Prop where
  once : (List.range pages.length).flatMap (window (encode text) m) = encode text
  contents : pages.flatMap (fun r => r.content.toList) = text
  marked : ∀ k, (h : k < pages.length) → ((pages.get ⟨k, h⟩).truncated = true ↔
    (k + 1) * m < (encode text).length)

/-- The pages are those of the text, whole where the cut falls between characters. -/
def PagedReading (path : PathBuf) (text : List Char) (m : Nat) : Prop :=
  ∃ pages, Pages (readPage (encode text) path m) m 0 pages ∧ Rebuilt text m pages

/-- No character lies across the end of a page. -/
def Aligned (text : List Char) (m : Nat) : Prop :=
  ∀ p ∈ located 0 text, ∀ k, ¬(p.1 < k * m ∧ k * m < p.1 + (String.utf8EncodeChar p.2).length)

section Pages

variable {file : List UInt8} {path : PathBuf} {m : Nat}

/-- The page at an offset, by its number. -/
def pageOf (file : List UInt8) (path : PathBuf) (m k : Nat) : ReadFileResult :=
  ⟨display path, String.ofList (lossy (window file m k)), decide (m ≤ (window file m k).length)⟩

theorem readPage_eq (k : Nat) : readPage file path m (k * m) = .ok (pageOf file path m k) := rfl

theorem truncated_iff (hm : 0 < m) (k : Nat) :
    (pageOf file path m k).truncated = true ↔ (k + 1) * m ≤ file.length := by
  simp only [pageOf, window, decide_eq_true_eq, List.length_take, List.length_drop, Nat.succ_mul]
  omega

theorem pages_from (hm : 0 < m) {k d : Nat} (h : k + d = file.length / m) :
    Pages (readPage file path m) m (k * m) ((List.range' k (d + 1)).map (pageOf file path m)) := by
  induction d generalizing k with
  | zero =>
    refine .last (readPage_eq k) (Bool.eq_false_iff.mpr fun hMore => ?_)
    have hNext := (Nat.le_div_iff_mul_le hm).mpr ((truncated_iff hm k).mp hMore)
    omega
  | succ d ih =>
    rw [List.range'_succ, List.map_cons]
    refine .more (readPage_eq k) ((truncated_iff hm k).mpr ?_) ?_
    · exact (Nat.le_div_iff_mul_le hm).mp (by omega)
    · rw [← Nat.succ_mul]
      exact ih (by omega)

theorem Pages.unique {read : Nat → Except String ReadFileResult} {offset : Nat}
    {pages pages' : List ReadFileResult} (h : Pages read m offset pages)
    (h' : Pages read m offset pages') : pages = pages' := by
  induction h generalizing pages' with
  | last hRead hLast =>
    cases h' with
    | last hRead' hLast' => rw [Except.ok.inj (hRead.symm.trans hRead')]
    | more hRead' hMore rest =>
      obtain rfl := Except.ok.inj (hRead.symm.trans hRead')
      rw [hLast] at hMore
      cases hMore
  | more hRead hMore rest ih =>
    cases h' with
    | last hRead' hLast =>
      obtain rfl := Except.ok.inj (hRead.symm.trans hRead')
      rw [hLast] at hMore
      cases hMore
    | more hRead' hMore' rest' => rw [Except.ok.inj (hRead.symm.trans hRead'), ih rest']

def allPages (file : List UInt8) (path : PathBuf) (m : Nat) : List ReadFileResult :=
  (List.range (file.length / m + 1)).map (pageOf file path m)

theorem pages_iff (hm : 0 < m) {pages : List ReadFileResult} :
    Pages (readPage file path m) m 0 pages ↔ pages = allPages file path m := by
  have hAll : Pages (readPage file path m) m 0 (allPages file path m) := by
    have h : Pages (readPage file path m) m (0 * m) _ := pages_from hm (Nat.zero_add (file.length / m))
    rwa [Nat.zero_mul, ← List.range_eq_range'] at h
  exact ⟨fun h => h.unique hAll, fun h => h ▸ hAll⟩

theorem windows_take (n : Nat) : (List.range n).flatMap (window file m) = file.take (n * m) := by
  induction n with
  | zero => simp
  | succ n ih =>
    rw [List.range_succ, List.flatMap_append, ih, Nat.succ_mul, List.take_add]
    simp [window]

theorem windows_all (hm : 0 < m) :
    (List.range (file.length / m + 1)).flatMap (window file m) = file := by
  rw [windows_take]
  refine List.take_of_length_le ?_
  rw [Nat.mul_comm]
  exact Nat.le_of_lt (Nat.lt_mul_div_succ file.length hm)

end Pages

section Contents

variable {text : List Char} {m : Nat}

theorem located_le {n : Nat} {p : Nat × Char} (h : p ∈ located n text) :
    p.1 + (String.utf8EncodeChar p.2).length ≤ n + (encode text).length := by
  induction text generalizing n with
  | nil => cases h
  | cons c text ih =>
    rw [encode_cons, List.length_append]
    rcases List.mem_cons.mp h with rfl | hRest
    · simp only
      omega
    · have := ih hRest
      omega

theorem endsAt_windows (hm : 0 < m) (file : List UInt8) (n : Nat) :
    EndsAt ((List.range (file.length / m + 1)).map (window file m)) n ↔
      ∃ k, k * m ≤ file.length ∧ n = min ((k + 1) * m) file.length := by
  have hUntil (k : Nat) (hk : k ≤ file.length / m) :
      (((List.range (file.length / m + 1)).map (window file m)).take (k + 1)).flatten.length =
        min ((k + 1) * m) file.length := by
    rw [← List.map_take, List.take_range, Nat.min_eq_left (Nat.succ_le_succ hk), ← List.flatMap_def,
      windows_take, List.length_take]
  constructor
  · rintro ⟨before, piece, rest, hSplit, rfl⟩
    have hLength := congrArg List.length hSplit
    simp only [List.length_map, List.length_range, List.length_append, List.length_cons] at hLength
    have hk : before.length ≤ file.length / m := by omega
    refine ⟨before.length, (Nat.le_div_iff_mul_le hm).mp hk, ?_⟩
    have hTake : (before ++ piece :: rest).take (before.length + 1) = before ++ [piece] := by
      rw [List.take_length_add_append]
      rfl
    rw [← hUntil before.length hk, hSplit, hTake]
  · rintro ⟨k, hk, rfl⟩
    have hk := (Nat.le_div_iff_mul_le hm).mpr hk
    generalize hPieces : (List.range (file.length / m + 1)).map (window file m) = pieces at hUntil ⊢
    have hLength : k < pieces.length := by
      rw [← hPieces, List.length_map, List.length_range]
      omega
    refine ⟨pieces.take k, pieces.get ⟨k, hLength⟩, pieces.drop (k + 1), ?_, ?_⟩
    · simp
    · rw [← hUntil k hk, List.take_succ_eq_append_getElem hLength]
      rfl

theorem torn_iff (hm : 0 < m) {p : Nat × Char} (h : p ∈ located 0 text) :
    Torn ((List.range ((encode text).length / m + 1)).map (window (encode text) m)) p ↔
      ∃ k, p.1 < k * m ∧ k * m < p.1 + (String.utf8EncodeChar p.2).length := by
  have hLe := located_le h
  constructor
  · rintro ⟨n, hEnds, hAbove, hBelow⟩
    obtain ⟨k, -, rfl⟩ := (endsAt_windows hm _ n).mp hEnds
    exact ⟨k + 1, by omega, by omega⟩
  · rintro ⟨k, hAbove, hBelow⟩
    obtain ⟨j, rfl⟩ : ∃ j, k = j + 1 := Nat.exists_eq_succ_of_ne_zero (by rintro rfl; omega)
    rw [Nat.succ_mul] at hAbove hBelow
    refine ⟨j * m + m, (endsAt_windows hm _ _).mpr ⟨j, by omega, ?_⟩, hAbove, hBelow⟩
    rw [Nat.succ_mul]
    omega

theorem contents_iff (path : PathBuf) (hm : 0 < m) :
    (allPages (encode text) path m).flatMap (fun r => r.content.toList) = text ↔ Aligned text m := by
  have hDecoded : (allPages (encode text) path m).flatMap (fun r => r.content.toList) =
      ((List.range ((encode text).length / m + 1)).map (window (encode text) m)).flatMap lossy := by
    rw [allPages, List.flatMap_map, List.flatMap_map]
    simp only [pageOf, String.toList_ofList]
  have hBytes : ((List.range ((encode text).length / m + 1)).map (window (encode text) m)).flatten =
      encode text := by
    rw [← List.flatMap_def, windows_all hm]
  obtain ⟨arrived, hArrives, hArrived⟩ := arrivals hBytes
  have hEq := arrived_eq_iff hArrives
  rw [located_text] at hEq
  rw [hDecoded, hArrived, hEq]
  refine forall₂_congr fun p hp => ?_
  rw [torn_iff hm hp, not_exists]

theorem marked_iff (path : PathBuf) (hm : 0 < m) (file : List UInt8) :
    (∀ k, (h : k < (allPages file path m).length) →
      (((allPages file path m).get ⟨k, h⟩).truncated = true ↔ (k + 1) * m < file.length)) ↔
      (file ≠ [] → ¬m ∣ file.length) := by
  have hPage (k : Nat) (h : k < (allPages file path m).length) :
      (allPages file path m).get ⟨k, h⟩ = pageOf file path m k := by
    simp [allPages]
  have hLength : (allPages file path m).length = file.length / m + 1 := by simp [allPages]
  constructor
  · rintro hMarked hSome ⟨n, hn⟩
    have hPos := List.length_pos_of_ne_nil hSome
    obtain ⟨k, rfl⟩ : ∃ k, n = k + 1 := Nat.exists_eq_succ_of_ne_zero fun hZero => by
      subst hZero
      omega
    have hEnd : (k + 1) * m = file.length := by rw [hn, Nat.mul_comm]
    have hk : k < (allPages file path m).length := by
      have hLe := (Nat.le_div_iff_mul_le hm).mpr (Nat.le_of_eq hEnd)
      omega
    have hLast := hMarked k hk
    rw [hPage, truncated_iff hm] at hLast
    omega
  · intro hNone k hk
    rw [hPage, truncated_iff hm]
    refine ⟨fun hLe => ?_, Nat.le_of_lt⟩
    refine Nat.lt_of_le_of_ne hLe fun hEnd => ?_
    have hSome : file ≠ [] := fun hNil => by
      have hPos := Nat.mul_pos (Nat.succ_pos k) hm
      rw [hEnd, hNil] at hPos
      exact Nat.lt_irrefl 0 hPos
    exact hNone hSome ⟨k + 1, by rw [← hEnd, Nat.mul_comm]⟩

/-- Reading a file in pages gives its text, and marks the pages where bytes remain, exactly if its last
page ends before the end of a page and no character lies across the end of one. -/
theorem pagedReading_iff (path : PathBuf) (text : List Char) (hm : 0 < m) :
    PagedReading path text m ↔ (text ≠ [] → ¬m ∣ (encode text).length) ∧ Aligned text m := by
  have hSome : encode text ≠ [] ↔ text ≠ [] := by
    cases text with
    | nil => simp
    | cons c text => simp
  have hMarked := marked_iff path hm (encode text)
  rw [hSome] at hMarked
  constructor
  · rintro ⟨pages, hPages, hRebuilt⟩
    obtain rfl := (pages_iff hm).mp hPages
    exact ⟨hMarked.mp hRebuilt.marked, (contents_iff path hm).mp hRebuilt.contents⟩
  · rintro ⟨hEnd, hAligned⟩
    refine ⟨_, (pages_iff hm).mpr rfl, ?_, (contents_iff path hm).mpr hAligned, hMarked.mpr hEnd⟩
    rw [allPages, List.length_map, List.length_range]
    exact windows_all hm

/-- Two pages of one byte each, where the last one is marked though nothing remains. -/
theorem paging_two_bytes : ¬PagedReading (pathOf "/ws/a") ['\u00E9'] 1 := by
  rintro ⟨pages, hPages, hRebuilt⟩
  obtain rfl := (pages_iff Nat.one_pos).mp hPages
  have hContents := hRebuilt.contents
  revert hContents
  decide

/-- The pages are cut between the characters. -/
theorem paging_three_bytes : PagedReading (pathOf "/ws/a") ['\u00E9', 'a'] 2 := by
  refine (pagedReading_iff (pathOf "/ws/a") ['\u00E9', 'a'] (by decide)).mpr ⟨by decide, ?_⟩
  intro p hp k hAcross
  have hLocated : located 0 ['\u00E9', 'a'] = [(0, '\u00E9'), (2, 'a')] := by decide
  rw [hLocated] at hp
  have hTwo : (String.utf8EncodeChar '\u00E9').length = 2 := by decide
  have hOne : (String.utf8EncodeChar 'a').length = 1 := by decide
  rcases List.mem_cons.mp hp with rfl | hp
  · simp only [hTwo] at hAcross
    omega
  · obtain rfl := List.mem_singleton.mp hp
    simp only [hOne] at hAcross
    omega

end Contents

end Cronymax.Capability
