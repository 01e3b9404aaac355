import Cronymax.Framing.Decoder

/-! Lines cut from a text that arrives in pieces.  A line is what stands before a separator; what
stands behind the last one is not yet a line. -/

namespace Framing

variable {α β : Type*} {p : α → Bool}

/-- A text cut at the separators, with what is left behind the last one. -/
@[grind =] def cutAt (p : α → Bool) : List α → List (List α) × List α
  | [] => ([], [])
  | a :: text =>
    let rest := cutAt p text
    if p a then ([] :: rest.1, rest.2)
    else
      match rest.1 with
      | [] => ([], a :: rest.2)
      | line :: lines => ((a :: line) :: lines, rest.2)

/-- One line, without its separator. -/
@[grind =] def readLine (p : α → Bool) : Read α Empty (List α) := fun text =>
  if text.any p then
    .ok (some (text.takeWhile fun a => !p a, (text.takeWhile fun a => !p a).length + 1))
  else .ok none

theorem readLine_cons_separator {a : α} (h : p a = true) (text : List α) :
    readLine p (a :: text) = .ok (some ([], 1)) := by
  simp [readLine, h]

theorem readLine_cons {a : α} (h : p a = false) (text : List α) :
    readLine p (a :: text) =
      (readLine p text).map (Option.map fun (line, n) => (a :: line, n + 1)) := by
  by_cases hAny : text.any p
  · simp [readLine, h, hAny, Except.map]
  · simp [readLine, h, hAny, Except.map]

theorem readLine_found {text line : List α} {n : Nat}
    (h : readLine p text = .ok (some (line, n))) :
    ∃ a rest, text = line ++ a :: rest ∧ p a = true ∧ n = line.length + 1 ∧ ∀ b ∈ line, p b = false := by
  induction text generalizing line n with
  | nil => simp [readLine] at h
  | cons a text ih =>
    cases ha : p a with
    | true =>
      rw [readLine_cons_separator ha] at h
      cases h
      exact ⟨a, text, rfl, ha, rfl, fun b hb => by cases hb⟩
    | false =>
      rw [readLine_cons ha] at h
      cases hRest : readLine p text with
      | error e => exact e.elim
      | ok v =>
        cases v with
        | none =>
          rw [hRest] at h
          cases h
        | some v =>
          rw [hRest] at h
          cases h
          obtain ⟨b, rest, rfl, hb, hn, hLine⟩ := ih hRest
          refine ⟨b, rest, rfl, hb, by rw [hn, List.length_cons], fun c hc => ?_⟩
          rcases List.mem_cons.mp hc with rfl | hc
          · exact ha
          · exact hLine c hc

theorem readLine_append {text line : List α} {n : Nat}
    (h : readLine p text = .ok (some (line, n))) (more : List α) :
    readLine p (text ++ more) = .ok (some (line, n)) := by
  induction text generalizing line n with
  | nil => simp [readLine] at h
  | cons a text ih =>
    cases ha : p a with
    | true => rwa [List.cons_append, readLine_cons_separator ha, ← readLine_cons_separator ha text]
    | false =>
      rw [readLine_cons ha] at h
      cases hRest : readLine p text with
      | error e => exact e.elim
      | ok v =>
        cases v with
        | none =>
          rw [hRest] at h
          cases h
        | some v =>
          rw [List.cons_append, readLine_cons ha, ih hRest, ← h, hRest]

/-- The decoder of lines. -/
def lineDecoder (p : α → Bool) : Decoder α Empty (List α) where
  read := readLine p
  waits := rfl
  sequential :=
    { within := fun {text line n} h => by
        obtain ⟨a, rest, rfl, -, rfl, -⟩ := readLine_found h
        simp
      stands := fun {text} h more => by
        cases hText : readLine p text with
        | error e => exact e.elim
        | ok v =>
          cases v with
          | none => exact absurd hText h
          | some v => exact readLine_append hText more }
  progress := fun h => by
    obtain ⟨-, -, -, -, rfl, -⟩ := readLine_found h
    exact Nat.succ_pos _

theorem cutAt_line {line : List α} (hLine : ∀ b ∈ line, p b = false) {a : α} (ha : p a = true)
    (text : List α) : cutAt p (line ++ a :: text) = (line :: (cutAt p text).1, (cutAt p text).2) := by
  induction line with
  | nil => simp [cutAt, ha]
  | cons b line ih =>
    rw [List.cons_append, cutAt, ih fun c hc => hLine c (List.mem_cons_of_mem _ hc)]
    simp [hLine b List.mem_cons_self]

theorem cutAt_of_none {text : List α} (h : ∀ a ∈ text, p a = false) : cutAt p text = ([], text) := by
  induction text with
  | nil => rfl
  | cons a text ih =>
    rw [cutAt, ih fun b hb => h b (List.mem_cons_of_mem _ hb)]
    simp [h a List.mem_cons_self]

theorem parse_eq_cutAt (text : List α) :
    (lineDecoder p).parse text = ((cutAt p text).1, .ok (cutAt p text).2) := by
  generalize hLength : text.length = k
  induction k using Nat.strongRecOn generalizing text with
  | _ k ih =>
    subst hLength
    cases hRead : readLine p text with
    | error e => exact e.elim
    | ok v =>
      cases v with
      | none =>
        rw [Decoder.parse_more (d := lineDecoder p) hRead, cutAt_of_none]
        intro a ha
        by_contra hSep
        rw [readLine, if_pos (List.any_eq_true.mpr ⟨a, ha, by simpa using hSep⟩)] at hRead
        cases hRead
      | some v =>
        obtain ⟨line, n⟩ := v
        obtain ⟨a, rest, rfl, ha, rfl, hLine⟩ := readLine_found hRead
        rw [Decoder.parse_found (d := lineDecoder p) hRead,
          show (line ++ a :: rest).drop (line.length + 1) = rest by simp,
          ih rest.length (by simp only [List.length_append, List.length_cons]; omega) rest rfl,
          cutAt_line hLine ha]

theorem cutAt_append (text more : List α) :
    cutAt p (text ++ more) =
      ((cutAt p text).1 ++ (cutAt p ((cutAt p text).2 ++ more)).1,
        (cutAt p ((cutAt p text).2 ++ more)).2) := by
  have h := (lineDecoder p).parse_append text more
  simp only [parse_eq_cutAt, Prod.mk.injEq, Except.ok.injEq] at h
  exact Prod.ext h.1 h.2

theorem cutAt_map (f : α → β) (q : β → Bool) (text : List α) :
    cutAt q (text.map f) =
      ((cutAt (fun a => q (f a)) text).1.map (·.map f), (cutAt (fun a => q (f a)) text).2.map f) := by
  induction text with
  | nil => rfl
  | cons a text ih =>
    rw [List.map_cons, cutAt, ih, cutAt]
    cases q (f a) with
    | true => rfl
    | false => cases (cutAt (fun a => q (f a)) text).1 <;> rfl

theorem cutAt_forall₂ {R : α → List β → Prop} {q : β → Bool} {text : List α} {parts : List (List β)}
    (h : List.Forall₂ R text parts)
    (hEnd : ∀ a b, R a b → p a = true → ∃ c, b = [c] ∧ q c = true)
    (hInside : ∀ a b, R a b → p a = false → ∀ c ∈ b, q c = false) :
    ∃ (lines : List (List (List β))) (rest : List (List β)),
      cutAt q parts.flatten = (lines.map List.flatten, rest.flatten) ∧
      List.Forall₂ (List.Forall₂ R) (cutAt p text).1 lines ∧ List.Forall₂ R (cutAt p text).2 rest := by
  induction h with
  | nil => exact ⟨[], [], rfl, .nil, .nil⟩
  | @cons a b text parts hFirst hRest ih =>
    obtain ⟨lines, rest, hCut, hLines, hBehind⟩ := ih
    cases ha : p a with
    | true =>
      obtain ⟨c, rfl, hc⟩ := hEnd a b hFirst ha
      refine ⟨[] :: lines, rest, ?_, ?_, ?_⟩
      · simp [List.flatten_cons, cutAt, hc, hCut]
      · simpa [cutAt, ha] using hLines
      · simpa [cutAt, ha] using hBehind
    | false =>
      have hb := hInside a b hFirst ha
      have hNone : cutAt q (b ++ parts.flatten) =
          match lines.map List.flatten with
          | [] => ([], b ++ rest.flatten)
          | line :: lines => ((b ++ line) :: lines, rest.flatten) := by
        clear hFirst
        induction b with
        | nil =>
          rw [List.nil_append, hCut]
          cases lines <;> rfl
        | cons c b ihb =>
          rw [List.cons_append, cutAt, ihb fun d hd => hb d (List.mem_cons_of_mem _ hd)]
          cases lines <;> simp [hb c List.mem_cons_self]
      cases hSent : (cutAt p text).1 with
      | nil =>
        rw [hSent] at hLines
        cases hLines
        refine ⟨[], b :: rest, ?_, ?_, ?_⟩
        · rw [List.flatten_cons, hNone]
          rfl
        · simp [cutAt, ha, hSent]
        · simpa [cutAt, ha, hSent] using And.intro hFirst hBehind
      | cons line lines' =>
        rw [hSent] at hLines
        cases hLines with
        | cons hLine hLines =>
          rename_i received lines
          refine ⟨(b :: received) :: lines, rest, ?_, ?_, ?_⟩
          · rw [List.flatten_cons, hNone]
            rfl
          · simpa [cutAt, ha, hSent] using And.intro (List.Forall₂.cons hFirst hLine) hLines
          · simpa [cutAt, ha, hSent] using hBehind

end Framing
