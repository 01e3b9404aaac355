import Mathlib.Order.Lattice
import Mathlib.Data.List.Pairwise
import Mathlib.Data.List.Basic

/-! Paging: a list in the descending order of its keys is read in pages, and each page begins below the
last key of the one before.  A page that is not full is the last one. -/

namespace Paging

variable {α κ : Type*} [LinearOrder κ] (key : α → κ)

/-- The rows behind a cursor. -/
def below (before : Option κ) (rows : List α) : List α :=
  match before with
  | none => rows
  | some k => rows.filter (key · < k)

structure Page (α κ : Type*) where
  rows : List α
  cursor : Option κ

/-- The cursor of a full page. -/
def cursor (limit : Nat) (found : List α) : Option κ :=
  if found.length = limit then found.getLast?.map key else none

def page (limit : Nat) (before : Option κ) (rows : List α) : Page α κ where
  rows := (below key before rows).take limit
  cursor := cursor key limit ((below key before rows).take limit)

/-- The pages one after the other. -/
def walk (limit : Nat) (rows : List α) : Nat → Option κ → List α
  | 0, _ => []
  | fuel + 1, before =>
    (page key limit before rows).rows ++
      match (page key limit before rows).cursor with
      | none => []
      | some k => walk limit rows fuel (some k)

variable {key} {limit : Nat} {before : Option κ} {rows : List α}

theorem sublist_below : (below key before rows).Sublist rows := by
  unfold below
  split
  · exact List.Sublist.refl _
  · exact List.filter_sublist

theorem below_below {k : κ} (hBelow : ∀ k' ∈ before, k < k') :
    below key (some k) (below key before rows) = below key (some k) rows := by
  cases before with
  | none => rfl
  | some k' =>
    show (rows.filter (key · < k')).filter (key · < k) = rows.filter (key · < k)
    rw [List.filter_filter]
    refine List.filter_congr fun a _ => ?_
    have hLess : key a < k → key a < k' := fun h => h.trans (hBelow k' rfl)
    by_cases h : key a < k
    · simp [h, hLess h]
    · simp [h]

theorem filter_below_split {found rest : List α} {a : α}
    (hSorted : ((found ++ [a]) ++ rest).Pairwise fun a b => key b < key a) :
    ((found ++ [a]) ++ rest).filter (key · < key a) = rest := by
  obtain ⟨hPiece, -, hAcross⟩ := List.pairwise_append.mp hSorted
  obtain ⟨-, -, hLast⟩ := List.pairwise_append.mp hPiece
  rw [List.filter_append, List.filter_append]
  have hFound : found.filter (key · < key a) = [] := by
    refine List.filter_eq_nil_iff.mpr fun b hb => ?_
    have := hLast b hb a (List.mem_singleton_self a)
    simpa using this.le
  have hRest : rest.filter (key · < key a) = rest := by
    refine List.filter_eq_self.mpr fun b hb => ?_
    simpa using hAcross a (by simp) b hb
  rw [hFound, hRest]
  simp

theorem page_rows : (page key limit before rows).rows = (below key before rows).take limit := rfl

theorem cursor_none (hShort : (below key before rows).length < limit) :
    (page key limit before rows).cursor = none := by
  refine if_neg ?_
  rw [List.length_take]
  omega

theorem cursor_some (hSorted : rows.Pairwise fun a b => key b < key a) (hLimit : 0 < limit)
    (hFull : limit ≤ (below key before rows).length) :
    ∃ k, (page key limit before rows).cursor = some k ∧
      below key (some k) rows = (below key before rows).drop limit := by
  have hLength : ((below key before rows).take limit).length = limit := List.length_take_of_le hFull
  obtain ⟨found, a, hFound⟩ := List.eq_nil_or_concat'
    ((below key before rows).take limit) |>.resolve_left fun hNil => by
      rw [hNil, List.length_nil] at hLength
      omega
  refine ⟨key a, ?_, ?_⟩
  · show cursor key limit ((below key before rows).take limit) = _
    rw [cursor, if_pos hLength, hFound]
    simp
  · have hSplit : below key before rows = (found ++ [a]) ++ (below key before rows).drop limit := by
      rw [← hFound, List.take_append_drop]
    have hBefore : ∀ k ∈ before, key a < k := by
      rintro k rfl
      have hMem : a ∈ below key (some k) rows := by
        rw [hSplit]
        simp
      simpa using (List.mem_filter.mp hMem).2
    have hPiece := hSorted.sublist (sublist_below : (below key before rows).Sublist rows)
    rw [← below_below hBefore]
    generalize (below key before rows).drop limit = rest at hSplit
    rw [hSplit] at hPiece ⊢
    exact filter_below_split hPiece

theorem walk_eq (hSorted : rows.Pairwise fun a b => key b < key a) (hLimit : 0 < limit) {fuel : Nat}
    (hFuel : (below key before rows).length < fuel) :
    walk key limit rows fuel before = below key before rows := by
  induction fuel generalizing before with
  | zero => omega
  | succ fuel ih =>
    unfold walk
    by_cases hShort : (below key before rows).length < limit
    · rw [cursor_none hShort, page_rows, List.take_of_length_le (Nat.le_of_lt hShort)]
      exact List.append_nil _
    · obtain ⟨k, hCursor, hBelow⟩ := cursor_some hSorted hLimit (Nat.le_of_not_lt hShort)
      have hLess : (below key (some k) rows).length < fuel := by
        rw [hBelow, List.length_drop]
        omega
      rw [hCursor, page_rows]
      show _ ++ walk key limit rows fuel (some k) = _
      rw [ih hLess, hBelow, List.take_append_drop]

theorem take_filter {part : α → Bool} {n : Nat} (h : ∀ a ∈ rows.take n, part a = true) :
    (rows.filter part).take n = rows.take n := by
  induction rows generalizing n with
  | nil => rfl
  | cons a rest ih =>
    cases n with
    | zero => rfl
    | succ n =>
      rw [List.filter_cons_of_pos (h a List.mem_cons_self), List.take_succ_cons, List.take_succ_cons,
        ih fun b hb => h b (List.mem_cons_of_mem a hb)]

theorem below_filter (part : α → Bool) :
    below key before (rows.filter part) = (below key before rows).filter part := by
  cases before with
  | none => rfl
  | some k =>
    show (rows.filter part).filter _ = (rows.filter _).filter part
    simp only [List.filter_filter, Bool.and_comm]

theorem page_filter {part : α → Bool} (h : ∀ a ∈ (below key before rows).take limit, part a = true) :
    page key limit before (rows.filter part) = page key limit before rows := by
  unfold page
  rw [below_filter, take_filter h]

variable (key) in
/-- How many rows have a greater key. -/
def ahead (rows : List α) (a : α) : Nat := rows.countP (key a < key ·)

theorem ahead_lt {n : Nat} {a : α} (hSorted : rows.Pairwise fun a b => key b < key a)
    (ha : a ∈ rows.take n) : ahead key rows a < n := by
  unfold ahead
  induction rows generalizing n with
  | nil => simp at ha
  | cons b rest ih =>
    obtain ⟨hFirst, hRest⟩ := List.pairwise_cons.mp hSorted
    cases n with
    | zero => simp at ha
    | succ n =>
      rw [List.take_succ_cons] at ha
      rw [List.countP_cons]
      rcases List.mem_cons.mp ha with rfl | hLater
      · have hNone : rest.countP (key a < key ·) = 0 := by
          refine List.countP_eq_zero.mpr fun c hc => ?_
          simpa using (hFirst c hc).le
        rw [hNone, if_neg (by simp)]
        omega
      · have := ih hRest hLater
        split <;> omega

variable (key) in
/-- Pages are gathered until one is not full or the cap is passed. -/
def gather (size cap : Nat) (rows buf : List α) (before : Option κ) : List α :=
  if _ : (page key size before rows).rows.length = 0 then buf
  else
    match (page key size before rows).cursor with
    | none => buf ++ (page key size before rows).rows
    | some k =>
      if _ : cap < (buf ++ (page key size before rows).rows).length then
        buf ++ (page key size before rows).rows
      else gather size cap rows (buf ++ (page key size before rows).rows) (some k)
termination_by cap + 1 - buf.length
decreasing_by
  rename_i hCap
  rw [List.length_append] at hCap ⊢
  omega

section gather

variable {size cap : Nat} {buf : List α}

theorem gather_short (hShort : (below key before rows).length < size) :
    gather key size cap rows buf before = buf ++ below key before rows := by
  have hRows : (page key size before rows).rows = below key before rows :=
    List.take_of_length_le (Nat.le_of_lt hShort)
  rw [gather, cursor_none hShort, hRows]
  split
  · rename_i hEmpty
    rw [List.length_eq_zero_iff.mp hEmpty, List.append_nil]
  · rfl

theorem gather_full (hSorted : rows.Pairwise fun a b => key b < key a) (hSize : 0 < size)
    (hFull : size ≤ (below key before rows).length) :
    ∃ k, below key (some k) rows = (below key before rows).drop size ∧
      gather key size cap rows buf before =
        if cap < buf.length + size then buf ++ (below key before rows).take size
        else gather key size cap rows (buf ++ (below key before rows).take size) (some k) := by
  obtain ⟨k, hCursor, hBelow⟩ := cursor_some hSorted hSize hFull
  refine ⟨k, hBelow, ?_⟩
  have hLength : ((below key before rows).take size).length = size := List.length_take_of_le hFull
  rw [gather, hCursor, page_rows, dif_neg (by omega)]
  simp only [List.length_append, hLength, dite_eq_ite]

theorem gather_eq (hSorted : rows.Pairwise fun a b => key b < key a) (hSize : 0 < size) (left : Nat)
    (hBuf : buf.length + size * left ≤ cap) (hCap : cap < buf.length + size * (left + 1)) :
    gather key size cap rows buf before =
      buf ++ (below key before rows).take (size * (left + 1)) := by
  induction left generalizing buf before with
  | zero =>
    by_cases hShort : (below key before rows).length < size
    · rw [gather_short hShort, List.take_of_length_le (by omega)]
    · obtain ⟨k, -, hGather⟩ := gather_full hSorted hSize (Nat.le_of_not_lt hShort)
      rw [hGather, if_pos (by omega), Nat.zero_add, Nat.mul_one]
  | succ left ih =>
    rw [Nat.mul_succ] at hBuf
    rw [Nat.mul_succ, Nat.mul_succ] at hCap ⊢
    by_cases hShort : (below key before rows).length < size
    · rw [gather_short hShort, List.take_of_length_le (by omega)]
    · have hFull := Nat.le_of_not_lt hShort
      obtain ⟨k, hRest, hGather⟩ := gather_full hSorted hSize hFull
      have hLength : (buf ++ (below key before rows).take size).length = buf.length + size := by
        rw [List.length_append, List.length_take_of_le hFull]
      have hTake : (below key before rows).take (size * left + size + size) =
          (below key before rows).take size ++
            ((below key before rows).drop size).take (size * (left + 1)) := by
        rw [Nat.mul_succ, Nat.add_comm (size * left + size) size, List.take_add]
      rw [hGather, if_neg (by omega), ih (by rw [hLength]; omega) (by rw [hLength, Nat.mul_succ]; omega),
        hRest, hTake, List.append_assoc]

end gather

end Paging
