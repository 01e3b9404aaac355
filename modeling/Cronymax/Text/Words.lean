import Mathlib.Data.List.Basic

/-! A text as its words, each with the separators behind it.  Only the first word can be empty, where
the text begins with separators, and only behind the last word can there be none.  A text is split in
one way only, so that words can be exchanged and compared one by one. -/

namespace Text

variable {α : Type*} (p : α → Bool)

/-- Words, each with the separators behind it. -/
@[grind =] def split : List α → List (List α × List α)
  | [] => []
  | a :: text =>
    match p a, split text with
    | true, ([], s) :: rest => ([], a :: s) :: rest
    | true, rest => ([], [a]) :: rest
    | false, (w, s) :: rest => (a :: w, s) :: rest
    | false, [] => [([a], [])]

/-- The text of the words. -/
def unsplit (ws : List (List α × List α)) : List α := ws.flatMap fun e => e.1 ++ e.2

/-- The words have no separators, and what is between them nothing else. -/
def IsSplit : List (List α × List α) → Prop
  | [] => True
  | e :: rest => (∀ a ∈ e.1, p a = false) ∧ (∀ a ∈ e.2, p a = true) ∧ (e.1 ≠ [] ∨ e.2 ≠ []) ∧
      (∀ e' ∈ rest.head?, e.2 ≠ [] ∧ e'.1 ≠ []) ∧ IsSplit rest

variable {p}

@[simp] theorem unsplit_nil : unsplit ([] : List (List α × List α)) = [] := rfl

@[simp] theorem unsplit_cons (e : List α × List α) (ws : List (List α × List α)) :
    unsplit (e :: ws) = e.1 ++ (e.2 ++ unsplit ws) := by
  simp [unsplit]

theorem unsplit_split (text : List α) : unsplit (split p text) = text := by
  induction text with
  | nil => rfl
  | cons a text ih =>
    rw [split]
    split <;> simp_all

theorem isSplit_split (text : List α) : IsSplit p (split p text) := by
  induction text with
  | nil => trivial
  | cons a text ih =>
    rw [split]
    split
    · rename_i ha hSplit
      rw [hSplit] at ih
      obtain ⟨hWord, hSep, -, hNext, hRest⟩ := ih
      exact ⟨hWord, List.forall_mem_cons.mpr ⟨ha, hSep⟩, .inr (List.cons_ne_nil _ _),
        fun e he => ⟨List.cons_ne_nil _ _, (hNext e he).2⟩, hRest⟩
    · rename_i ha hNot
      refine ⟨by simp, by simpa using ha, .inr (List.cons_ne_nil _ _),
        fun e he => ⟨List.cons_ne_nil _ _, fun hEmpty => ?_⟩, ih⟩
      obtain ⟨rest, hRest⟩ := List.head?_eq_some_iff.mp he
      exact hNot e.2 rest (by rw [hRest, ← hEmpty])
    · rename_i ha hSplit
      rw [hSplit] at ih
      obtain ⟨hWord, hSep, -, hNext, hRest⟩ := ih
      exact ⟨List.forall_mem_cons.mpr ⟨ha, hWord⟩, hSep, .inl (List.cons_ne_nil _ _), hNext, hRest⟩
    · rename_i ha hSplit
      simp [IsSplit, ha]

theorem split_separators {s text : List α} {ws : List (List α × List α)} (hSep : ∀ a ∈ s, p a = true)
    (hs : s ≠ []) (hText : split p text = ws) (hNext : ∀ e ∈ ws.head?, e.1 ≠ []) :
    split p (s ++ text) = ([], s) :: ws := by
  induction s with
  | nil => exact absurd rfl hs
  | cons a s ih =>
    obtain ⟨ha, hSep⟩ := List.forall_mem_cons.mp hSep
    rcases eq_or_ne s [] with rfl | hs
    · rw [List.cons_append, List.nil_append, split, hText, ha]
      cases ws with
      | nil => rfl
      | cons e ws =>
        obtain ⟨w, s⟩ := e
        cases w with
        | nil => exact absurd rfl (hNext _ rfl)
        | cons b w => rfl
    · rw [List.cons_append, split, ih hSep hs, ha]

theorem split_word {w s text : List α} {ws : List (List α × List α)} (hWord : ∀ a ∈ w, p a = false)
    (hText : split p text = ([], s) :: ws) : split p (w ++ text) = (w, s) :: ws := by
  induction w with
  | nil => exact hText
  | cons a w ih =>
    obtain ⟨ha, hWord⟩ := List.forall_mem_cons.mp hWord
    rw [List.cons_append, split, ih hWord, ha]

theorem split_last {w : List α} (hWord : ∀ a ∈ w, p a = false) (hw : w ≠ []) :
    split p w = [(w, [])] := by
  induction w with
  | nil => exact absurd rfl hw
  | cons a w ih =>
    obtain ⟨ha, hWord⟩ := List.forall_mem_cons.mp hWord
    rcases eq_or_ne w [] with rfl | hw
    · simp [split, ha]
    · rw [split, ih hWord hw, ha]

theorem split_unsplit {ws : List (List α × List α)} (h : IsSplit p ws) : split p (unsplit ws) = ws := by
  induction ws with
  | nil => rfl
  | cons e ws ih =>
    obtain ⟨w, s⟩ := e
    obtain ⟨hWord, hSep, hSome, hNext, hRest⟩ := h
    rw [unsplit_cons]
    rcases eq_or_ne s [] with rfl | hs
    · obtain rfl : ws = [] := by
        cases ws with
        | nil => rfl
        | cons e ws => exact absurd rfl (hNext e rfl).1
      have hw : w ≠ [] := hSome.resolve_right fun h => h rfl
      rw [unsplit_nil, List.append_nil, List.append_nil, split_last hWord hw]
    · exact split_word hWord (split_separators hSep hs (ih hRest) fun e he => (hNext e he).2)

theorem unsplit_inj {ws ws' : List (List α × List α)} (h : IsSplit p ws) (h' : IsSplit p ws') :
    unsplit ws = unsplit ws' ↔ ws = ws' :=
  ⟨fun hText => by rw [← split_unsplit h, hText, split_unsplit h'], fun hWords => by rw [hWords]⟩

end Text
