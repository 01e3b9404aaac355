import Mathlib.Data.List.Induction
import Mathlib.Data.List.Sort
import Mathlib.Order.Defs.LinearOrder

/-! The entries of an ordered map: a list of keys with values in which the keys ascend.  A key that is
inserted again gets the new value.  A map that is filled from a list with distinct keys is that list
in ascending order. -/

namespace Ordered

variable {κ α β : Type*} [LinearOrder κ]

@[grind =] def insert (k : κ) (a : α) : List (κ × α) → List (κ × α)
  | [] => [(k, a)]
  | e :: rest =>
    if k < e.1 then (k, a) :: e :: rest
    else if k = e.1 then (k, a) :: rest
    else e :: insert k a rest

def ofList (entries : List (κ × α)) : List (κ × α) := entries.foldl (fun m e => insert e.1 e.2 m) []

/-- The keys ascend, and so each stands once. -/
def Ascending (entries : List (κ × α)) : Prop := entries.Pairwise fun e e' => e.1 < e'.1

instance (entries : List (κ × α)) : Decidable (Ascending entries) :=
  inferInstanceAs (Decidable (List.Pairwise _ _))

variable {k : κ} {a : α} {entries rest : List (κ × α)}

theorem mem_insert {e : κ × α} (h : e ∈ insert k a entries) : e = (k, a) ∨ e ∈ entries := by
  induction entries with
  | nil => simpa [insert] using h
  | cons e' rest ih =>
    rw [insert] at h
    split_ifs at h
    · simpa using h
    · simp only [List.mem_cons] at h ⊢
      tauto
    · simp only [List.mem_cons] at h ⊢
      tauto

theorem Ascending.insert (h : Ascending entries) : Ascending (insert k a entries) := by
  induction entries with
  | nil => simp [Ordered.insert, Ascending]
  | cons e rest ih =>
    obtain ⟨hFirst, hRest⟩ := List.pairwise_cons.mp h
    rw [Ordered.insert]
    split_ifs with hLt hEq
    · refine List.pairwise_cons.mpr ⟨fun e' he' => ?_, h⟩
      rcases List.mem_cons.mp he' with rfl | he'
      · exact hLt
      · exact lt_trans hLt (hFirst e' he')
    · subst hEq
      exact List.pairwise_cons.mpr ⟨hFirst, hRest⟩
    · refine List.pairwise_cons.mpr ⟨fun e' he' => ?_, ih hRest⟩
      rcases mem_insert he' with rfl | he'
      · exact lt_of_le_of_ne (not_lt.mp hLt) (Ne.symm hEq)
      · exact hFirst e' he'

theorem insert_last (h : ∀ e ∈ entries, e.1 < k) : insert k a entries = entries ++ [(k, a)] := by
  induction entries with
  | nil => rfl
  | cons e rest ih =>
    have hLt := h e List.mem_cons_self
    rw [insert, if_neg (not_lt.mpr hLt.le), if_neg hLt.ne',
      ih fun e' he' => h e' (List.mem_cons_of_mem _ he'), List.cons_append]

theorem insert_perm (h : ∀ e ∈ entries, e.1 ≠ k) : (insert k a entries).Perm ((k, a) :: entries) := by
  induction entries with
  | nil => exact .refl _
  | cons e rest ih =>
    have hNe : k ≠ e.1 := (h e List.mem_cons_self).symm
    rw [insert]
    split_ifs
    · exact .refl _
    · exact ((ih fun e' he' => h e' (List.mem_cons_of_mem _ he')).cons e).trans (.swap _ _ _)

theorem ofList_append (e : κ × α) : ofList (entries ++ [e]) = insert e.1 e.2 (ofList entries) := by
  simp [ofList]

theorem ascending_ofList (entries : List (κ × α)) : Ascending (ofList entries) := by
  induction entries using List.reverseRecOn with
  | nil => exact .nil
  | append_singleton entries e ih =>
    rw [ofList_append]
    exact ih.insert

theorem mem_ofList {e : κ × α} (h : e ∈ ofList entries) : e ∈ entries := by
  induction entries using List.reverseRecOn with
  | nil => exact h
  | append_singleton entries e' ih =>
    rw [ofList_append] at h
    rcases mem_insert h with rfl | h
    · simp
    · exact List.mem_append_left _ (ih h)

theorem ofList_ascending (h : Ascending entries) : ofList entries = entries := by
  induction entries using List.reverseRecOn with
  | nil => rfl
  | append_singleton entries e ih =>
    obtain ⟨hEntries, -, hLast⟩ := List.pairwise_append.mp h
    rw [ofList_append, ih hEntries, insert_last fun e' he' => hLast e' he' e (by simp)]

theorem ofList_perm (h : (entries.map (·.1)).Nodup) : (ofList entries).Perm entries := by
  induction entries using List.reverseRecOn with
  | nil => exact .refl _
  | append_singleton entries e ih =>
    rw [List.map_append, List.nodup_append] at h
    obtain ⟨hEntries, -, hNew⟩ := h
    have hKey : ∀ e' ∈ ofList entries, e'.1 ≠ e.1 := fun e' he' =>
      hNew e'.1 (List.mem_map_of_mem (mem_ofList he')) e.1 (by simp)
    rw [ofList_append]
    exact (insert_perm hKey).trans (((ih hEntries).cons e).trans (List.perm_append_singleton e entries).symm)

def sort (entries : List (κ × α)) : List (κ × α) := entries.mergeSort fun e e' => e.1 ≤ e'.1

theorem ofList_eq_sort (h : (entries.map (·.1)).Nodup) : ofList entries = sort entries := by
  have hPerm : (ofList entries).Perm (sort entries) :=
    (ofList_perm h).trans (List.mergeSort_perm _ _).symm
  refine List.Perm.eq_of_pairwise (fun e e' he he' hLe hLe' => ?_)
    ((ascending_ofList entries).imp fun hLt => decide_eq_true hLt.le)
    (List.pairwise_mergeSort (fun _ _ _ hLe hLe' => ?_) (fun e e' => ?_) entries) hPerm
  · exact List.inj_on_of_nodup_map h (mem_ofList he) ((List.mergeSort_perm _ _).mem_iff.mp he')
      (le_antisymm (of_decide_eq_true hLe) (of_decide_eq_true hLe'))
  · exact decide_eq_true ((of_decide_eq_true hLe).trans (of_decide_eq_true hLe'))
  · simpa using le_total e.1 e'.1

end Ordered
