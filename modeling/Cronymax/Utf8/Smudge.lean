import Cronymax.Utf8.Lossy

/-! A text some of whose characters have come as replacements.  ASCII comes through, so that what is
recognised by ASCII is recognised still; what a lost character leaves behind is longer than the
character, so that a smudged text is never the text itself. -/

namespace Utf8

/-- Characters that are not ASCII may have become two or more replacements. -/
inductive Smudged : List Char → List Char → Prop where
  | nil : Smudged [] []
  | keep {t t' : List Char} (c : Char) (rest : Smudged t t') : Smudged (c :: t) (c :: t')
  | lost {c : Char} {t t' : List Char} (k : Nat) (hWide : 0x80 ≤ c.val.toNat) (rest : Smudged t t') :
      Smudged (c :: t) (List.replicate (k + 2) replacement ++ t')

namespace Smudged

variable {t t' u u' : List Char}

theorem append (h : Smudged t t') (hu : Smudged u u') : Smudged (t ++ u) (t' ++ u') := by
  induction h with
  | nil => exact hu
  | keep c rest ih => exact .keep c ih
  | lost k hWide rest ih =>
    rw [List.append_assoc]
    exact .lost k hWide ih

theorem reverse (h : Smudged t t') : Smudged t.reverse t'.reverse := by
  induction h with
  | nil => exact .nil
  | keep c rest ih =>
    rw [List.reverse_cons, List.reverse_cons]
    exact ih.append (.keep c .nil)
  | @lost c t t' k hWide rest ih =>
    rw [List.reverse_cons, List.reverse_append, List.reverse_replicate]
    have hLast := Smudged.lost (c := c) k hWide .nil
    rw [List.append_nil] at hLast
    exact ih.append hLast

theorem eq_or_longer (h : Smudged t t') : t' = t ∨ t.length < t'.length := by
  induction h with
  | nil => exact .inl rfl
  | keep c rest ih =>
    rcases ih with rfl | hLonger
    · exact .inl rfl
    · exact .inr (Nat.succ_lt_succ hLonger)
  | lost k hWide rest ih =>
    refine .inr ?_
    rw [List.length_append, List.length_replicate, List.length_cons]
    rcases ih with rfl | hLonger <;> omega

theorem length_le (h : Smudged t t') : t.length ≤ t'.length := by
  rcases h.eq_or_longer with rfl | hLonger
  · exact Nat.le_refl _
  · exact Nat.le_of_lt hLonger

theorem dropWhile_longer {p : Char → Bool} (hp : p replacement = false) (h : Smudged t t') :
    t' = t ∨ (t.dropWhile p).length < (t'.dropWhile p).length := by
  induction h with
  | nil => exact .inl rfl
  | @keep t t' c rest ih =>
    rcases ih with rfl | hLonger
    · exact .inl rfl
    · refine .inr ?_
      rw [List.dropWhile_cons, List.dropWhile_cons]
      split
      · exact hLonger
      · rcases rest.eq_or_longer with rfl | hRest
        · exact absurd hLonger (Nat.lt_irrefl _)
        · exact Nat.succ_lt_succ hRest
  | @lost c t t' k hWide rest ih =>
    refine .inr ?_
    have hKept : (List.replicate (k + 2) replacement ++ t').dropWhile p =
        List.replicate (k + 2) replacement ++ t' := by
      rw [List.replicate_succ, List.cons_append, List.dropWhile_cons, if_neg (by simp [hp])]
    have hShorter : ((c :: t).dropWhile p).length ≤ (c :: t).length :=
      (List.dropWhile_suffix p).length_le
    have hRest := rest.length_le
    rw [hKept, List.length_append, List.length_replicate]
    rw [List.length_cons] at hShorter
    omega

theorem dropWhile {p : Char → Bool} (hp : p replacement = false)
    (hAscii : ∀ c, p c = true → c.val.toNat < 0x80) (h : Smudged t t') :
    Smudged (t.dropWhile p) (t'.dropWhile p) := by
  induction h with
  | nil => exact .nil
  | @keep t t' c rest ih =>
    rw [List.dropWhile_cons, List.dropWhile_cons]
    split
    · exact ih
    · exact .keep c rest
  | @lost c t t' k hWide rest ih =>
    have hc : p c = false := by
      by_contra hDrop
      have := hAscii c (by simpa using hDrop)
      omega
    rw [List.dropWhile_cons, if_neg (by simp [hc]), List.replicate_succ, List.cons_append,
      List.dropWhile_cons, if_neg (by simp [hp])]
    exact .lost k hWide rest

theorem prefix_iff {q : List Char} (hq : ∀ c ∈ q, c.val.toNat < 0x80) (h : Smudged t t') :
    q <+: t ↔ q <+: t' := by
  induction q generalizing t t' with
  | nil => exact ⟨fun _ => List.nil_prefix, fun _ => List.nil_prefix⟩
  | cons a q ih =>
    have ha := hq a List.mem_cons_self
    cases h with
    | nil => rfl
    | keep c rest =>
      rw [List.cons_prefix_cons, List.cons_prefix_cons,
        ih (fun d hd => hq d (List.mem_cons_of_mem _ hd)) rest]
    | @lost c t t' k hWide rest =>
      rw [List.replicate_succ, List.cons_append, List.cons_prefix_cons, List.cons_prefix_cons]
      have hNe : a ≠ c := fun hEq => by rw [hEq] at ha; omega
      have hNe' : a ≠ replacement := fun hEq => by
        rw [hEq] at ha
        exact absurd ha (by decide)
      exact ⟨fun h => absurd h.1 hNe, fun h => absurd h.1 hNe'⟩

theorem drop_prefix {q : List Char} (hq : ∀ c ∈ q, c.val.toNat < 0x80)
    (h : Smudged (q ++ t) (q ++ t')) : Smudged t t' := by
  induction q with
  | nil => exact h
  | cons a q ih =>
    have ha := hq a List.mem_cons_self
    generalize hSent : a :: q ++ t = s at h
    generalize hReceived : a :: q ++ t' = s' at h
    cases h with
    | nil => cases hSent
    | keep c rest =>
      obtain ⟨rfl, rfl⟩ := List.cons.inj hSent
      obtain ⟨-, rfl⟩ := List.cons.inj hReceived
      exact ih (fun d hd => hq d (List.mem_cons_of_mem _ hd)) rest
    | @lost c t t' k hWide rest =>
      obtain ⟨rfl, -⟩ := List.cons.inj hSent
      omega

end Smudged

section Stream

variable {pieces : List (List UInt8)} {line : List (Nat × Char)} {arrived : List (List Char)}

theorem smudged_of_arrives (h : List.Forall₂ (Arrives pieces) line arrived) :
    Smudged (line.map Prod.snd) arrived.flatten := by
  induction h with
  | nil => exact .nil
  | @cons p a line arrived hFirst hRest ih =>
    rw [List.map_cons, List.flatten_cons]
    by_cases hTorn : Torn pieces p
    · obtain ⟨hWide, k, rfl⟩ := hFirst.torn hTorn
      exact .lost k hWide ih
    · rw [hFirst.whole hTorn]
      exact .keep p.2 ih

theorem arrived_eq_iff (h : List.Forall₂ (Arrives pieces) line arrived) :
    arrived.flatten = line.map Prod.snd ↔ ∀ p ∈ line, ¬Torn pieces p := by
  induction h with
  | nil => simp
  | @cons p a line arrived hFirst hRest ih =>
    rw [List.map_cons, List.flatten_cons, List.forall_mem_cons]
    by_cases hTorn : Torn pieces p
    · obtain ⟨hWide, k, rfl⟩ := hFirst.torn hTorn
      refine ⟨fun hEq => ?_, fun hWhole => absurd hTorn hWhole.1⟩
      have hLength := congrArg List.length hEq
      have hLe := (smudged_of_arrives hRest).length_le
      rw [List.length_append, List.length_replicate, List.length_cons] at hLength
      omega
    · rw [hFirst.whole hTorn, List.singleton_append, List.cons_inj_right, ih]
      exact ⟨fun hWhole => ⟨hTorn, hWhole⟩, And.right⟩

end Stream

end Utf8
