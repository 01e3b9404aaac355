import Cronymax.Text.Lines

/-! The lines of a text that is put together: those that end before the seam do not depend on what
comes behind it, and those behind the first line feed after it do not depend on what comes before. -/

namespace Text

open Framing (cutAt)

theorem length_cutAt (text : List Char) : (cutAt isNewline text).1.length = text.count '\n' := by
  induction text with
  | nil => rfl
  | cons c text ih =>
    rw [cutAt]
    cases hc : isNewline c with
    | true =>
      obtain rfl : c = '\n' := by simpa [isNewline] using hc
      simp [ih]
    | false =>
      have hNe : c ≠ '\n' := by simpa [isNewline] using hc
      rw [List.count_cons_of_ne hNe, ← ih]
      cases (cutAt isNewline text).1 <;> rfl

theorem length_pieces (text : List Char) : (pieces text).length = text.count '\n' + 1 := by
  rw [pieces, List.length_append, length_cutAt, List.length_singleton]

theorem length_lines (text : List Char) :
    (lines text).length = text.count '\n' + if (cutAt isNewline text).2 = [] then 0 else 1 := by
  rw [lines, List.length_append, List.length_map, length_cutAt]
  split <;> rfl

theorem length_lines_le (text : List Char) : (lines text).length ≤ text.count '\n' + 1 := by
  rw [length_lines]
  split <;> omega

/-- The text ends with a line feed. -/
def Ended (text : List Char) : Prop := ∃ front, text = front ++ ['\n']

def span (text : List Char) : Nat := max (lines text).length 1

theorem span_ended {text : List Char} (h : Ended text) : span text = text.count '\n' := by
  obtain ⟨front, rfl⟩ := h
  rw [span, length_lines, cutAt_between]
  simp [cutAt]

theorem span_open {text : List Char} (h : ¬Ended text) : span text = text.count '\n' + 1 := by
  rcases List.eq_nil_or_concat text with rfl | ⟨front, c, rfl⟩
  · rfl
  · rw [List.concat_eq_append] at h ⊢
    have hc : c ≠ '\n' := fun hc => h ⟨front, by rw [hc]⟩
    have hRest : (cutAt isNewline (front ++ [c])).2 ≠ [] := by
      have hFree : '\n' ∉ (cutAt isNewline front).2 ++ [c] := by
        simp [cutAt_rest_free, Ne.symm hc]
      rw [Framing.cutAt_append, cutAt_free hFree]
      simp
    rw [span, length_lines, if_neg hRest]
    omega

theorem lines_append (after : List Char) :
    ∃ shared, ∀ text, ∃ own, lines (text ++ after) = own ++ shared ∧ own.length ≤ text.count '\n' + 1 := by
  by_cases hFeed : '\n' ∈ after
  · obtain ⟨front, rest, rfl, hFront⟩ := List.eq_append_cons_of_mem hFeed
    refine ⟨lines rest, fun text => ⟨_, by rw [← List.append_assoc, lines_between], ?_⟩⟩
    rw [List.length_map, length_pieces, List.count_append, List.count_eq_zero.mpr hFront]
  · refine ⟨[], fun text => ⟨_, (List.append_nil _).symm, ?_⟩⟩
    refine (length_lines_le _).trans ?_
    rw [List.count_append, List.count_eq_zero.mpr hFeed]

theorem lines_ended {text : List Char} (h : Ended text) (after : List Char) :
    ∃ own, lines (text ++ after) = own ++ lines after ∧ own.length = text.count '\n' := by
  obtain ⟨front, rfl⟩ := h
  refine ⟨(pieces front).map stripReturn, ?_, ?_⟩
  · rw [List.append_assoc, List.singleton_append, lines_between]
  · rw [List.length_map, length_pieces, List.count_append, List.count_singleton_self]

theorem lines_prepend (before : List Char) :
    ∃ shared, shared.length = before.count '\n' ∧ ∀ text, shared <+: lines (before ++ text) := by
  by_cases hFeed : '\n' ∈ before
  · obtain ⟨front, rest, rfl, hFront⟩ := List.eq_append_cons_of_mem hFeed
    obtain ⟨shared, hLength, hShared⟩ := lines_prepend rest
    refine ⟨stripReturn front :: shared, ?_, fun text => ?_⟩
    · rw [List.length_cons, hLength, List.count_append, List.count_eq_zero.mpr hFront,
        List.count_cons_self]
      omega
    · rw [List.append_assoc, List.cons_append, lines_between, pieces_of_free hFront]
      exact List.cons_prefix_cons.mpr ⟨rfl, hShared text⟩
  · exact ⟨[], (List.count_eq_zero.mpr hFeed).symm, fun text => List.nil_prefix⟩
termination_by before.length
decreasing_by
  subst_vars
  simp only [List.length_append, List.length_cons]
  omega

theorem drop_eq_of_suffix {α : Type*} {shared l m : List α} (hl : shared <:+ l) (hm : shared <:+ m)
    {i j : Nat} (h : l.length - i = m.length - j) (hShort : l.length - i ≤ shared.length) :
    l.drop i = m.drop j := by
  have hi : l.drop i <:+ shared := List.suffix_of_suffix_length_le (List.drop_suffix i l) hl (by
    rwa [List.length_drop])
  have hj : m.drop j <:+ shared := List.suffix_of_suffix_length_le (List.drop_suffix j m) hm (by
    rw [List.length_drop]
    omega)
  refine (List.suffix_of_suffix_length_le hi hj ?_).eq_of_length ?_
  · simp only [List.length_drop]
    omega
  · simp only [List.length_drop]
    omega

theorem lines_rest_eq (before old new after : List Char) {c : Nat} (hc : before.count '\n' ≤ c)
    (h : (lines (before ++ old ++ after)).length - (c + span old) =
      (lines (before ++ new ++ after)).length - (c + span new)) :
    (lines (before ++ old ++ after)).drop (c + span old) =
      (lines (before ++ new ++ after)).drop (c + span new) := by
  obtain ⟨shared, hShared⟩ := lines_append after
  obtain ⟨ownOld, hOld, hOldLength⟩ := hShared (before ++ old)
  obtain ⟨ownNew, hNew, hNewLength⟩ := hShared (before ++ new)
  rw [List.count_append] at hOldLength hNewLength
  have hTail : (lines (before ++ old ++ after)).length - (c + span old) ≤ shared.length →
      (lines (before ++ old ++ after)).drop (c + span old) =
        (lines (before ++ new ++ after)).drop (c + span new) :=
    drop_eq_of_suffix (hOld ▸ List.suffix_append _ _) (hNew ▸ List.suffix_append _ _) h
  by_cases hOldEnd : Ended old
  · by_cases hNewEnd : Ended new
    · have hEnds {text : List Char} (hText : Ended text) : Ended (before ++ text) := by
        obtain ⟨front, rfl⟩ := hText
        exact ⟨before ++ front, by rw [List.append_assoc]⟩
      obtain ⟨own, hLines, hLength⟩ := lines_ended (hEnds hOldEnd) after
      obtain ⟨own', hLines', -⟩ := lines_ended (hEnds hNewEnd) after
      refine drop_eq_of_suffix (hLines ▸ List.suffix_append _ _) (hLines' ▸ List.suffix_append _ _) h ?_
      rw [hLines, List.length_append, hLength, List.count_append, span_ended hOldEnd]
      omega
    · refine hTail ?_
      rw [h, hNew, List.length_append, span_open hNewEnd]
      omega
  · refine hTail ?_
    rw [hOld, List.length_append, span_open hOldEnd]
    omega

theorem pieces_between (a b : List Char) : pieces (a ++ '\n' :: b) = pieces a ++ pieces b := by
  rw [pieces, cutAt_between, pieces, pieces, List.append_assoc]

theorem pieces_ne_nil (text : List Char) : pieces text ≠ [] := by
  simp [pieces]

theorem pieces_free (text : List Char) : ∀ line ∈ pieces text, '\n' ∉ line := by
  simp only [pieces, List.mem_append, List.mem_singleton]
  rintro line (hLine | rfl)
  · exact cutAt_lines_free text line hLine
  · exact cutAt_rest_free text

theorem joined_cons (l : List Char) {ls : List (List Char)} (h : ls ≠ []) :
    joined (l :: ls) = l ++ '\n' :: joined ls := by
  cases ls with
  | nil => exact absurd rfl h
  | cons l' ls => rfl

theorem pieces_joined {ls : List (List Char)} (hSome : ls ≠ []) (h : ∀ line ∈ ls, '\n' ∉ line) :
    pieces (joined ls) = ls := by
  induction ls with
  | nil => exact absurd rfl hSome
  | cons l ls ih =>
    obtain ⟨hl, hls⟩ := List.forall_mem_cons.mp h
    rcases eq_or_ne ls [] with rfl | hSome
    · exact pieces_of_free hl
    · rw [joined_cons l hSome, pieces_between, pieces_of_free hl, ih hSome hls, List.singleton_append]

theorem joined_pieces (text : List Char) : joined (pieces text) = text := by
  by_cases hFeed : '\n' ∈ text
  · obtain ⟨front, rest, rfl, hFront⟩ := List.eq_append_cons_of_mem hFeed
    rw [pieces_between, pieces_of_free hFront, List.singleton_append,
      joined_cons front (pieces_ne_nil rest), joined_pieces rest]
  · rw [pieces_of_free hFeed, joined]
termination_by text.length
decreasing_by
  subst text
  simp
  omega

end Text
