import Cronymax.Agent.Messages

/-! The calls that a reader of a stream gathers: one entry for each index, in the order of the indices. -/

namespace Cronymax.Agent

/-- An entry before its first chunk. -/
def emptyCall : AccumCall := ⟨"", "", ""⟩

section Calls

variable {calls : List (Nat × AccumCall)} {index i : Nat} {f : AccumCall → AccumCall}

theorem mem_keys_editCall : i ∈ (editCall index f calls).map Prod.fst ↔ i = index ∨ i ∈ calls.map Prod.fst := by
  induction calls with
  | nil => simp [editCall]
  | cons entry rest ih =>
    obtain ⟨j, call⟩ := entry
    rw [editCall]
    split
    · simp
    · split
      · rename_i hSame
        simp [hSame]
      · simp only [List.map_cons, List.mem_cons, ih]
        tauto

theorem editCall_sorted (h : (calls.map Prod.fst).Pairwise (· < ·)) :
    ((editCall index f calls).map Prod.fst).Pairwise (· < ·) := by
  induction calls with
  | nil => simp [editCall]
  | cons entry rest ih =>
    obtain ⟨j, call⟩ := entry
    obtain ⟨hFirst, hRest⟩ := List.pairwise_cons.mp h
    rw [editCall]
    split
    · rename_i hBefore
      refine List.pairwise_cons.mpr ⟨fun k hk => ?_, h⟩
      rcases List.mem_cons.mp hk with rfl | hk
      · exact hBefore
      · exact hBefore.trans (hFirst k hk)
    · rename_i hNotBefore
      split
      · exact h
      · rename_i hOther
        refine List.pairwise_cons.mpr ⟨fun k hk => ?_, ih hRest⟩
        rcases mem_keys_editCall.mp hk with rfl | hk
        · exact lt_of_le_of_ne (not_lt.mp hNotBefore) (Ne.symm hOther)
        · exact hFirst k hk

/-- What is gathered for an index so far. -/
def callAt : List (Nat × AccumCall) → Nat → AccumCall
  | [], _ => emptyCall
  | (j, call) :: rest, i => if i = j then call else callAt rest i

theorem callAt_cons (j : Nat) (call : AccumCall) (rest : List (Nat × AccumCall)) (i : Nat) :
    callAt ((j, call) :: rest) i = if i = j then call else callAt rest i := rfl

theorem callAt_none (h : i ∉ calls.map Prod.fst) : callAt calls i = emptyCall := by
  induction calls with
  | nil => rfl
  | cons entry rest ih =>
    obtain ⟨j, call⟩ := entry
    rw [List.map_cons, List.mem_cons, not_or] at h
    rw [callAt_cons, if_neg h.1, ih h.2]

theorem callAt_editCall (h : (calls.map Prod.fst).Pairwise (· < ·)) :
    callAt (editCall index f calls) i = if i = index then f (callAt calls index) else callAt calls i := by
  induction calls with
  | nil => rfl
  | cons entry rest ih =>
    obtain ⟨j, call⟩ := entry
    obtain ⟨hFirst, hRest⟩ := List.pairwise_cons.mp h
    rw [editCall]
    split
    · rename_i hBefore
      -- the indices of the list are above this one
      have hNone : index ∉ ((j, call) :: rest).map Prod.fst := by
        intro hMem
        rcases List.mem_cons.mp hMem with hSame | hMem
        · exact absurd hSame (Nat.ne_of_lt hBefore)
        · exact absurd (hFirst index hMem) (Nat.lt_asymm hBefore)
      rw [callAt_none hNone]
      rfl
    · split
      · rename_i hSame
        subst hSame
        rw [callAt_cons, callAt_cons, callAt_cons, if_pos rfl]
        split <;> rfl
      · rename_i hOther
        rw [callAt_cons, ih hRest, callAt_cons, callAt_cons, if_neg hOther]
        by_cases hi : i = j
        · rw [if_pos hi, if_neg (fun hSame => hOther (hSame.symm.trans hi)), if_pos hi]
        · rw [if_neg hi, if_neg hi]

theorem mem_iff_callAt (h : (calls.map Prod.fst).Pairwise (· < ·)) {call : AccumCall} :
    (i, call) ∈ calls ↔ i ∈ calls.map Prod.fst ∧ callAt calls i = call := by
  induction calls with
  | nil => simp
  | cons first rest ih =>
    obtain ⟨j, old⟩ := first
    obtain ⟨hFirst, hRest⟩ := List.pairwise_cons.mp h
    rw [callAt_cons, List.map_cons, List.mem_cons, List.mem_cons, ih hRest, Prod.mk.injEq]
    by_cases hSame : i = j
    · subst hSame
      have hNot : i ∉ rest.map Prod.fst := fun hMem => absurd (hFirst i hMem) (Nat.lt_irrefl i)
      simp [hNot, eq_comm]
    · simp [hSame]

theorem mem_editCall (h : (calls.map Prod.fst).Pairwise (· < ·)) {call : AccumCall} :
    (i, call) ∈ editCall index f calls ↔
      i ≠ index ∧ (i, call) ∈ calls ∨ i = index ∧ call = f (callAt calls index) := by
  rw [mem_iff_callAt (editCall_sorted h), mem_iff_callAt h, mem_keys_editCall, callAt_editCall h]
  by_cases hSame : i = index
  · simp [hSame, eq_comm]
  · simp [hSame]

end Calls

end Cronymax.Agent
