import Mathlib.Data.List.Infix

/-! Where a pattern stands in a text, and what replaces it.  Two places may overlap, so that a search that
goes on behind each match it has found does not meet them all. -/

namespace Text

section Places

variable {α : Type*} {pat text : List α} {k : Nat}

/-- The pattern stands in the text after so many of its members. -/
def OccursAt (pat text : List α) (k : Nat) : Prop :=
  ∃ before after, text = before ++ pat ++ after ∧ before.length = k

theorem occursAt_iff : OccursAt pat text k ↔ k ≤ text.length ∧ pat <+: text.drop k := by
  constructor
  · rintro ⟨before, after, rfl, rfl⟩
    refine ⟨by simp, ?_⟩
    rw [List.append_assoc, List.drop_left]
    exact List.prefix_append pat after
  · rintro ⟨hk, after, hAfter⟩
    refine ⟨text.take k, after, ?_, by rw [List.length_take, Nat.min_eq_left hk]⟩
    rw [List.append_assoc, hAfter, List.take_append_drop]

instance [DecidableEq α] (pat text : List α) (k : Nat) : Decidable (OccursAt pat text k) :=
  decidable_of_iff _ occursAt_iff.symm

theorem occursAt_zero : OccursAt pat text 0 ↔ pat <+: text := by
  simp [occursAt_iff]

@[simp] theorem occursAt_cons_succ {c : α} : OccursAt pat (c :: text) (k + 1) ↔ OccursAt pat text k := by
  simp [occursAt_iff]

theorem OccursAt.le (h : OccursAt pat text k) : k + pat.length ≤ text.length := by
  obtain ⟨before, after, rfl, rfl⟩ := h
  simp only [List.length_append]
  omega

/-- The pattern stands in exactly one place. -/
def OccursOnce (pat text : List α) : Prop := ∃ k, OccursAt pat text k ∧ ∀ k', OccursAt pat text k' → k' = k

instance [DecidableEq α] (pat text : List α) : Decidable (OccursOnce pat text) :=
  decidable_of_iff (∃ k < text.length + 1, OccursAt pat text k ∧
      ∀ k' < text.length + 1, OccursAt pat text k' → k' = k)
    ⟨fun ⟨k, _, hk, hOnly⟩ => ⟨k, hk, fun k' hk' => hOnly k' (by have := hk'.le; omega) hk'⟩,
      fun ⟨k, hk, hOnly⟩ => ⟨k, by have := hk.le; omega, hk, fun k' _ => hOnly k'⟩⟩

theorem OccursOnce.eq (h : OccursOnce pat text) {k k' : Nat} (hk : OccursAt pat text k)
    (hk' : OccursAt pat text k') : k = k' := by
  obtain ⟨j, -, hj⟩ := h
  rw [hj k hk, hj k' hk']

end Places

variable {α : Type*}

section Replace

variable [DecidableEq α] (pat new : List α)

/-- The search goes on behind each match. -/
@[grind =] def replaceFrom : Nat → List α → List α
  | _, [] => []
  | k + 1, _ :: text => replaceFrom k text
  | 0, a :: text =>
    if pat <+: a :: text then new ++ replaceFrom (pat.length - 1) text else a :: replaceFrom 0 text

/-- `str::replace` of a pattern that is not empty. -/
@[grind =] def replaceAll (text : List α) : List α := replaceFrom pat new 0 text

variable {pat new}

section Count

variable {p : α → Bool}

theorem countP_replaceFrom_le (hPat : pat ≠ []) (h : new.countP p ≤ pat.countP p) (k : Nat) (text : List α) :
    (replaceFrom pat new k text).countP p ≤ (text.drop k).countP p := by
  induction text generalizing k with
  | nil => simp [replaceFrom]
  | cons a text ih =>
    cases k with
    | succ k => exact ih k
    | zero =>
      rw [replaceFrom, List.drop_zero]
      split
      · rename_i hHere
        obtain ⟨c, q, rfl⟩ := List.exists_cons_of_ne_nil hPat
        obtain ⟨rfl, rest, rfl⟩ := List.cons_prefix_cons.mp hHere
        have ih := ih q.length
        rw [List.drop_left] at ih
        rw [List.countP_append, ← List.cons_append, List.countP_append]
        exact Nat.add_le_add h ih
      · have ih := ih 0
        rw [List.countP_cons, List.countP_cons]
        exact Nat.add_le_add_right ih _

theorem countP_replaceAll_le (hPat : pat ≠ []) (h : new.countP p ≤ pat.countP p) (text : List α) :
    (replaceAll pat new text).countP p ≤ text.countP p := countP_replaceFrom_le hPat h 0 text

theorem countP_replaceAll_lt (h : new.countP p < pat.countP p) {text : List α} (hOccurs : pat <:+: text) :
    (replaceAll pat new text).countP p < text.countP p := by
  have hPat : pat ≠ [] := fun hNone => by simp [hNone] at h
  induction text with
  | nil => exact absurd (List.infix_nil.mp hOccurs) hPat
  | cons a text ih =>
    rw [replaceAll, replaceFrom]
    split
    · rename_i hHere
      obtain ⟨c, q, rfl⟩ := List.exists_cons_of_ne_nil hPat
      obtain ⟨rfl, rest, rfl⟩ := List.cons_prefix_cons.mp hHere
      have hRest := countP_replaceFrom_le hPat h.le q.length (q ++ rest)
      rw [List.drop_left] at hRest
      rw [List.countP_append, ← List.cons_append, List.countP_append]
      exact Nat.add_lt_add_of_lt_of_le h hRest
    · rename_i hNot
      have ih := ih ((List.infix_cons_iff.mp hOccurs).resolve_left hNot)
      rw [List.countP_cons, List.countP_cons]
      exact Nat.add_lt_add_right ih _

theorem length_replaceAll_lt (h : new.length < pat.length) {text : List α} (hOccurs : pat <:+: text) :
    (replaceAll pat new text).length < text.length := by
  simp only [← List.countP_true] at h ⊢
  exact countP_replaceAll_lt h hOccurs

end Count

theorem count_replaceAll_lt {c : α} (hNew : c ∉ new) (hc : c ∈ pat) {text : List α} (hOccurs : pat <:+: text) :
    (replaceAll pat new text).count c < text.count c := by
  refine countP_replaceAll_lt ?_ hOccurs
  show new.count c < pat.count c
  rw [List.count_eq_zero.mpr hNew]
  exact List.count_pos_iff.mpr hc

theorem not_mem_replaceAll (hPat : pat ≠ []) {c : α} (hNew : c ∉ new) {text : List α} (h : c ∉ text) :
    c ∉ replaceAll pat new text := by
  have hNone : new.count c = 0 := List.count_eq_zero.mpr hNew
  have hCount : (replaceAll pat new text).count c ≤ text.count c :=
    countP_replaceAll_le hPat (hNone.trans_le (Nat.zero_le _)) text
  rw [List.count_eq_zero.mpr h] at hCount
  exact List.count_eq_zero.mp (Nat.le_zero.mp hCount)

theorem replaceAll_ne_nil (hNew : new ≠ []) {text : List α} (h : text ≠ []) : replaceAll pat new text ≠ [] := by
  obtain ⟨a, text, rfl⟩ := List.exists_cons_of_ne_nil h
  rw [replaceAll, replaceFrom]
  split <;> simp [hNew]

/-- A pattern is looked for on both sides of what is not in it. -/
theorem replaceAll_between (hPat : pat ≠ []) {c : α} (hc : c ∉ pat) (before after : List α) :
    replaceAll pat new (before ++ c :: after) = replaceAll pat new before ++ c :: replaceAll pat new after := by
  suffices hFrom : ∀ k ≤ before.length, replaceFrom pat new k (before ++ c :: after) =
      replaceFrom pat new k before ++ c :: replaceFrom pat new 0 after from hFrom 0 (Nat.zero_le _)
  intro k hk
  induction before generalizing k with
  | nil =>
    obtain rfl : k = 0 := Nat.le_zero.mp hk
    have hNot : ¬pat <+: c :: after := fun hHere => by
      obtain ⟨d, q, rfl⟩ := List.exists_cons_of_ne_nil hPat
      exact hc ((List.cons_prefix_cons.mp hHere).1 ▸ List.mem_cons_self)
    show replaceFrom pat new 0 (c :: after) = c :: replaceFrom pat new 0 after
    rw [replaceFrom, if_neg hNot]
  | cons a before ih =>
    cases k with
    | succ k => exact ih k (Nat.le_of_succ_le_succ hk)
    | zero =>
      have hHere : pat <+: a :: (before ++ c :: after) ↔ pat <+: a :: before := by
        refine ⟨fun h => ?_, fun h => h.trans (List.prefix_append (a :: before) _)⟩
        refine List.prefix_of_prefix_length_le h (List.prefix_append (a :: before) _) (Nat.le_of_not_lt fun hLong => hc ?_)
        have hPart : (a :: before) ++ [c] <+: pat :=
          List.prefix_of_prefix_length_le ⟨after, by simp⟩ h (by simpa [Nat.succ_le_iff] using hLong)
        exact hPart.subset (List.mem_append_right _ List.mem_cons_self)
      rw [List.cons_append, replaceFrom, replaceFrom]
      split_ifs with h₁ h₂ h₂
      · have hLength := h₂.length_le
        rw [List.length_cons] at hLength
        rw [ih _ (by omega), List.append_assoc]
      · exact absurd (hHere.mp h₁) h₂
      · exact absurd (hHere.mpr h₂) h₁
      · rw [ih 0 (Nat.zero_le _)]
        rfl

theorem replaceAll_behind (hPat : pat ≠ []) {before : List α} (hBefore : ∀ c ∈ before, c ∉ pat) (after : List α) :
    replaceAll pat new (before ++ after) = before ++ replaceAll pat new after := by
  induction before with
  | nil => rfl
  | cons c before ih =>
    obtain ⟨hc, hBefore⟩ := List.forall_mem_cons.mp hBefore
    rw [List.cons_append, List.cons_append, ← ih hBefore]
    exact replaceAll_between hPat hc [] (before ++ after)

end Replace

section Absent

variable [DecidableEq α] {pat text : List α} {b : α}

theorem prefix_of_replaced {q : List α} (hq : b ∉ q) (h : q <+: replaceFrom pat [b] 0 text) :
    q <+: text := by
  induction text generalizing q with
  | nil => exact h
  | cons a text ih =>
    cases q with
    | nil => exact List.nil_prefix
    | cons c q =>
      obtain ⟨hc, hq⟩ := not_or.mp (mt List.mem_cons.mpr hq)
      rw [replaceFrom] at h
      split_ifs at h
      · exact absurd (List.cons_prefix_cons.mp h).1.symm hc
      · obtain ⟨rfl, hRest⟩ := List.cons_prefix_cons.mp h
        exact List.cons_prefix_cons.mpr ⟨rfl, ih hq hRest⟩

theorem replaceFrom_absent (hPat : pat ≠ []) (hb : b ∉ pat) (k : Nat) :
    ¬pat <:+: replaceFrom pat [b] k text := by
  induction text generalizing k with
  | nil => simpa [replaceFrom] using hPat
  | cons a text ih =>
    cases k with
    | succ k => exact ih k
    | zero =>
      rw [replaceFrom]
      split_ifs with hHere
      · rw [List.singleton_append, List.infix_cons_iff, not_or]
        refine ⟨fun h => ?_, ih _⟩
        obtain ⟨c, q, rfl⟩ := List.exists_cons_of_ne_nil hPat
        exact hb (by simp [(List.cons_prefix_cons.mp h).1])
      · rw [List.infix_cons_iff, not_or]
        exact ⟨fun h => hHere (prefix_of_replaced hb (by rwa [replaceFrom, if_neg hHere])), ih 0⟩

theorem replaceAll_absent (hPat : pat ≠ []) (hb : b ∉ pat) : ¬pat <:+: replaceAll pat [b] text :=
  replaceFrom_absent hPat hb 0

theorem replaceAll_of_absent {new : List α} (h : ¬pat <:+: text) : replaceAll pat new text = text := by
  induction text with
  | nil => rfl
  | cons a text ih =>
    rw [List.infix_cons_iff, not_or] at h
    rw [replaceAll, replaceFrom, if_neg h.1]
    exact congrArg (a :: ·) (ih h.2)

end Absent

end Text
