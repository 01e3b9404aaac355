import Mathlib.Data.List.Basic
import Mathlib.Data.List.TakeWhile

/-! Scanning a text for words behind a mark.  A scan goes from the left and skips each word that it finds; as
no word has the mark in it, this is the same as a look at every place of the mark. -/

namespace Text

variable {α : Type*} [DecidableEq α]

/-- Where a mark stands, with the text before and behind. -/
@[grind =] def sites (mark : α) (before : List α) : List α → List (List α × List α)
  | [] => []
  | c :: rest => (if c = mark then [(before, rest)] else []) ++ sites mark (before ++ [c]) rest

/-- The words behind a mark, each with the text before it. -/
def scan (mark : α) (starts : List α → List α → Bool) (word : α → Bool) (before : List α) :
    List α → List (List α × List α)
  | [] => []
  | c :: rest =>
    if c = mark ∧ starts before rest then
      (before, rest.takeWhile word) ::
        scan mark starts word (before ++ c :: rest.takeWhile word) (rest.dropWhile word)
    else scan mark starts word (before ++ [c]) rest
termination_by text => text.length
decreasing_by
  · exact Nat.lt_succ_of_le (List.dropWhile_sublist word).length_le
  · exact Nat.lt_succ_self _

variable {mark : α}

theorem sites_skip {word : List α} (h : mark ∉ word) (before rest : List α) :
    sites mark before (word ++ rest) = sites mark (before ++ word) rest := by
  induction word generalizing before with
  | nil => rw [List.nil_append, List.append_nil]
  | cons c word ih =>
    have hc : c ≠ mark := fun hSame => h (hSame ▸ List.mem_cons_self)
    rw [List.cons_append, sites, if_neg hc, List.nil_append, ih fun hMem => h (List.mem_cons_of_mem c hMem),
      List.append_assoc, List.singleton_append]

theorem scan_eq {starts : List α → List α → Bool} {word : α → Bool} (h : word mark = false)
    (before text : List α) : scan mark starts word before text =
      ((sites mark before text).filter fun s => starts s.1 s.2).map fun s => (s.1, s.2.takeWhile word) := by
  fun_induction scan mark starts word before text with
  | case1 before => simp [sites]
  | case2 before c rest hStarts ih =>
    have hFree : mark ∉ rest.takeWhile word := fun hMem => by
      have hWord := List.mem_takeWhile_imp hMem
      rw [h] at hWord
      cases hWord
    have hSkip := sites_skip hFree (before ++ [c]) (rest.dropWhile word)
    rw [List.takeWhile_append_dropWhile, List.append_assoc, List.singleton_append] at hSkip
    rw [ih, sites, if_pos hStarts.1, hSkip]
    simp [hStarts.2]
  | case3 before c rest hNot ih =>
    rw [ih, sites]
    by_cases hc : c = mark
    · have hStarts : starts before rest = false := by
        rw [← Bool.not_eq_true]
        exact fun hStarts => hNot ⟨hc, hStarts⟩
      simp [hc, hStarts]
    · rw [if_neg hc, List.nil_append]

theorem mem_sites {before text : List α} {s : List α × List α} :
    s ∈ sites mark before text ↔ ∃ pre, text = pre ++ mark :: s.2 ∧ s.1 = before ++ pre := by
  induction text generalizing before with
  | nil => simp [sites]
  | cons c rest ih =>
    rw [sites, List.mem_append, ih]
    constructor
    · rintro (h | ⟨pre, hRest, hBefore⟩)
      · split at h
        · rename_i hc
          rw [List.mem_singleton.mp h, hc]
          exact ⟨[], rfl, (List.append_nil _).symm⟩
        · cases h
      · exact ⟨c :: pre, by rw [hRest, List.cons_append], by rw [hBefore, List.append_assoc, List.singleton_append]⟩
    · rintro ⟨pre, hText, hBefore⟩
      cases pre with
      | nil =>
        obtain ⟨hc, hRest⟩ := List.cons.inj hText
        rw [List.append_nil] at hBefore
        refine .inl ?_
        rw [if_pos hc, hRest, ← hBefore]
        exact List.mem_singleton_self _
      | cons d pre =>
        obtain ⟨rfl, hRest⟩ := List.cons.inj hText
        exact .inr ⟨pre, hRest, by rw [hBefore, List.append_assoc, List.singleton_append]⟩

theorem sites_ordered (before text : List α) :
    (sites mark before text).Pairwise fun s s' => s.1.length < s'.1.length := by
  induction text generalizing before with
  | nil => exact .nil
  | cons c rest ih =>
    rw [sites, List.pairwise_append]
    refine ⟨by split <;> simp, ih _, fun s hs s' hs' => ?_⟩
    split at hs
    · obtain ⟨pre, -, hBefore⟩ := mem_sites.mp hs'
      rw [List.mem_singleton.mp hs, hBefore]
      simp
    · cases hs

theorem filter_map_eq_iff {β κ γ : Type*} {l : List β} {p q : β → Bool} {key : β → κ} {f g : β → γ}
    (h : l.Pairwise fun s s' => key s ≠ key s') :
    ((l.filter p).map fun s => (key s, f s)) = ((l.filter q).map fun s => (key s, g s)) ↔
      ∀ s ∈ l, p s = q s ∧ (p s = true → f s = g s) := by
  induction l with
  | nil => simp
  | cons s l ih =>
    obtain ⟨hHead, hTail⟩ := List.pairwise_cons.mp h
    have ih := ih hTail
    have hAbsent (r : β → Bool) (u : β → γ) (v : γ) : (key s, v) ∉ (l.filter r).map fun s => (key s, u s) := by
      intro hMem
      obtain ⟨s', hs', hPair⟩ := List.mem_map.mp hMem
      exact hHead s' (List.mem_filter.mp hs').1 (Prod.mk.inj hPair).1.symm
    rw [List.forall_mem_cons, List.filter_cons, List.filter_cons]
    by_cases hp : p s = true <;> by_cases hq : q s = true
    · rw [if_pos hp, if_pos hq, List.map_cons, List.map_cons, List.cons.injEq, Prod.mk.injEq, ih]
      simp [hp, hq]
    · rw [if_pos hp, if_neg hq, List.map_cons]
      refine iff_of_false (fun hEq => hAbsent q g (f s) ?_) fun hBoth => hq (hBoth.1.1 ▸ hp)
      rw [← hEq]
      exact List.mem_cons_self
    · rw [if_neg hp, if_pos hq, List.map_cons]
      refine iff_of_false (fun hEq => hAbsent p f (g s) ?_) fun hBoth => hp (hBoth.1.1.symm ▸ hq)
      rw [hEq]
      exact List.mem_cons_self
    · rw [if_neg hp, if_neg hq, ih]
      simp [hp, hq]

/-- What comes behind blanks and a word. -/
def behind (blank : α → Bool) (word text : List α) : Option (List α) := (text.dropWhile blank).dropPrefix? word

theorem behind_eq_some {blank : α → Bool} {word text rest : List α} (h : ∀ c ∈ word.head?, blank c = false)
    (hSome : word ≠ []) : behind blank word text = some rest ↔
      ∃ before, (∀ c ∈ before, blank c = true) ∧ text = before ++ (word ++ rest) := by
  have hPrefix {l : List α} : l.dropPrefix? word = some rest ↔ l = word ++ rest := by
    rw [List.dropPrefix?_eq_some_iff]
    simp
  rw [behind, hPrefix]
  constructor
  · intro hRest
    exact ⟨text.takeWhile blank, fun c hc => List.mem_takeWhile_imp hc,
      by rw [← hRest, List.takeWhile_append_dropWhile]⟩
  · rintro ⟨before, hBlank, rfl⟩
    obtain ⟨c, more, rfl⟩ := List.exists_cons_of_ne_nil hSome
    rw [List.dropWhile_append_of_pos hBlank, List.cons_append, List.dropWhile_cons_of_neg (by simp [h c rfl])]

end Text
