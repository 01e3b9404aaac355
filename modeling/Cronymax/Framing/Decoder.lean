import Mathlib.Data.List.Forall2

/-! Values read from bytes that arrive in pieces.  A `Read` makes a value of the bytes received so
far, asks for more of them, or gives an error.  When its verdicts stand whatever comes after them,
the values that a stream holds do not depend on where the pieces end: `Decoder.parse_append` and
`Decoder.parse_unfinished`. -/

namespace Framing

variable {B E E' α β F : Type*}

/-- A reader of a prefix: what it has read and how long that was, or that it needs more. -/
abbrev Read (B E α : Type*) := List B → Except E (Option (α × Nat))

namespace Read

/-- A verdict is not changed by the bytes that come after it, and counts bytes that are there. -/
structure Sequential (r : Read B E α) : Prop where
  within : ∀ {b : List B} {a : α} {n : Nat}, r b = .ok (some (a, n)) → n ≤ b.length
  stands : ∀ {b : List B}, r b ≠ .ok none → ∀ c, r (b ++ c) = r b

variable {r : Read B E α} {a : α} {n : Nat} {b p : List B}

theorem Sequential.found (h : r.Sequential) (hRead : r b = .ok (some (a, n))) (c : List B) :
    r (b ++ c) = .ok (some (a, n)) :=
  (h.stands (by simp [hRead]) c).trans hRead

theorem Sequential.failed (h : r.Sequential) {e : E} (hRead : r b = .error e) (c : List B) :
    r (b ++ c) = .error e :=
  (h.stands (by simp [hRead]) c).trans hRead

/-- The reader takes exactly these bytes. -/
def Accepts (r : Read B E α) (bytes : List B) (a : α) : Prop :=
  r bytes = .ok (some (a, bytes.length)) ∧ ∀ p, p <+: bytes → p ≠ bytes → r p = .ok none

/-- Takes no bytes. -/
def value (a : α) : Read B E α := fun _ => .ok (some (a, 0))

def reject (e : E) : Read B E α := fun _ => .error e

def next : Read B E B
  | [] => .ok none
  | x :: _ => .ok (some (x, 1))

/-- One reader after the other. -/
def andThen (r : Read B E α) (f : α → Read B E β) : Read B E β := fun b =>
  match r b with
  | .ok none => .ok none
  | .ok (some (a, n)) => (f a (b.drop n)).map (Option.map fun (c, m) => (c, n + m))
  | .error e => .error e

def translate (r : Read B E α) (f : α → Except E' β) (g : E → E') : Read B E' β := fun b =>
  match r b with
  | .ok none => .ok none
  | .ok (some (a, n)) => (f a).map fun c => some (c, n)
  | .error e => .error (g e)

/-- `k` values one after the other. -/
def times (r : Read B E α) : Nat → Read B E (List α)
  | 0 => value []
  | k + 1 => r.andThen fun a => (r.times k).andThen fun rest => value (a :: rest)

theorem value_sequential (a : α) : (value a : Read B E α).Sequential where
  within h := by
    cases h
    exact Nat.zero_le _
  stands _ _ := rfl

theorem reject_sequential (e : E) : (reject e : Read B E α).Sequential where
  within h := nomatch h
  stands _ _ := rfl

theorem next_sequential : (next : Read B E B).Sequential where
  within {b a n} h := by
    cases b with
    | nil => cases h
    | cons x b =>
      cases h
      exact Nat.le_add_left 1 _
  stands {b} h c := by
    cases b with
    | nil => exact absurd rfl h
    | cons x b => rfl

theorem andThen_found {f : α → Read B E β} (hRead : r b = .ok (some (a, n))) :
    r.andThen f b = (f a (b.drop n)).map (Option.map fun (c, m) => (c, n + m)) := by
  simp only [andThen, hRead]

theorem andThen_more {f : α → Read B E β} (hRead : r b = .ok none) :
    r.andThen f b = .ok none := by
  simp only [andThen, hRead]

theorem andThen_failed {f : α → Read B E β} {e : E} (hRead : r b = .error e) :
    r.andThen f b = .error e := by
  simp only [andThen, hRead]

theorem Sequential.andThen (h : r.Sequential) {f : α → Read B E β}
    (hf : ∀ a, (f a).Sequential) : (r.andThen f).Sequential where
  within {b c k} hRead := by
    cases hFirst : r b with
    | error e => rw [andThen_failed hFirst] at hRead; cases hRead
    | ok v =>
      cases v with
      | none => rw [andThen_more hFirst] at hRead; cases hRead
      | some v =>
        obtain ⟨a, n⟩ := v
        have hn := h.within hFirst
        rw [andThen_found hFirst] at hRead
        cases hRest : f a (b.drop n) with
        | error e => rw [hRest] at hRead; cases hRead
        | ok w =>
          rw [hRest] at hRead
          cases w with
          | none => cases hRead
          | some w =>
            obtain ⟨c', m⟩ := w
            cases hRead
            have hm := (hf a).within hRest
            simp only [List.length_drop] at hm
            omega
  stands {b} hRead c := by
    cases hFirst : r b with
    | error e => rw [andThen_failed hFirst, andThen_failed (h.failed hFirst c)]
    | ok v =>
      cases v with
      | none => exact absurd (andThen_more hFirst) hRead
      | some v =>
        obtain ⟨a, n⟩ := v
        have hRest : f a (b.drop n) ≠ .ok none := fun hNone =>
          hRead (by rw [andThen_found hFirst, hNone]; rfl)
        rw [andThen_found hFirst, andThen_found (h.found hFirst c),
          List.drop_append_of_le_length (h.within hFirst), (hf a).stands hRest]

theorem Sequential.times (h : r.Sequential) (k : Nat) : (r.times k).Sequential := by
  induction k with
  | zero => exact value_sequential []
  | succ k ih => exact h.andThen fun a => ih.andThen fun rest => value_sequential (a :: rest)

theorem translate_found {f : α → Except E' β} {g : E → E'} {c : β}
    (hRead : r.translate f g b = .ok (some (c, n))) :
    ∃ a, r b = .ok (some (a, n)) ∧ f a = .ok c := by
  unfold translate at hRead
  split at hRead
  · cases hRead
  · rename_i a n' hFirst
    cases hValue : f a with
    | error e => rw [hValue] at hRead; cases hRead
    | ok c' =>
      rw [hValue] at hRead
      cases hRead
      exact ⟨a, hFirst, hValue⟩
  · cases hRead

theorem Sequential.translate (h : r.Sequential) (f : α → Except E' β) (g : E → E') :
    (r.translate f g).Sequential where
  within hRead := by
    obtain ⟨a, hFirst, -⟩ := translate_found hRead
    exact h.within hFirst
  stands {b} hRead c := by
    have hFirst : r b ≠ .ok none := fun hNone => hRead (by rw [Read.translate, hNone])
    rw [Read.translate, Read.translate, h.stands hFirst]

theorem Accepts.translate {bytes : List B} (h : r.Accepts bytes a) {f : α → Except E' β}
    {g : E → E'} {c : β} (hValue : f a = .ok c) : (r.translate f g).Accepts bytes c := by
  constructor
  · rw [Read.translate, h.1]
    dsimp only
    rw [hValue]
    rfl
  · intro p hPart hProper
    rw [Read.translate, h.2 p hPart hProper]

theorem next_andThen_pos {f : B → Read B E β} {c : β} {k : Nat}
    (hRead : (next : Read B E B).andThen f b = .ok (some (c, k))) : 0 < k := by
  cases b with
  | nil => cases hRead
  | cons x b =>
    rw [andThen_found (r := next) (a := x) (n := 1) rfl] at hRead
    cases hRest : f x ((x :: b).drop 1) with
    | error e => rw [hRest] at hRead; cases hRead
    | ok w =>
      rw [hRest] at hRead
      cases w with
      | none => cases hRead
      | some w =>
        cases hRead
        omega

end Read

/-- A reader whose frames are not empty. -/
structure Decoder (B E F : Type*) where
  read : Read B E F
  waits : read [] = .ok none
  sequential : read.Sequential
  progress : ∀ {b : List B} {f : F} {n : Nat}, read b = .ok (some (f, n)) → 0 < n

namespace Decoder

variable (d : Decoder B E F) {b c : List B} {f : F} {n : Nat}

variable {d} in
theorem length_drop_lt (h : d.read b = .ok (some (f, n))) : (b.drop n).length < b.length := by
  have hPos := d.progress h
  have hWithin := d.sequential.within h
  rw [List.length_drop]
  omega

/-- The frames of a buffer, and what is left. -/
def parse (b : List B) : List F × Except E (List B) :=
  match _hRead : d.read b with
  | .ok (some (f, n)) =>
    let rest := parse (b.drop n)
    (f :: rest.1, rest.2)
  | .ok none => ([], .ok b)
  | .error e => ([], .error e)
termination_by b.length
decreasing_by exact length_drop_lt _hRead

variable {d}

theorem parse_found (h : d.read b = .ok (some (f, n))) :
    d.parse b = (f :: (d.parse (b.drop n)).1, (d.parse (b.drop n)).2) := by
  rw [parse]
  split
  · rename_i h'
    rw [h] at h'
    cases h'
    rfl
  · rename_i h'
    rw [h] at h'
    cases h'
  · rename_i h'
    rw [h] at h'
    cases h'

theorem parse_more (h : d.read b = .ok none) : d.parse b = ([], .ok b) := by
  rw [parse]
  split <;> rename_i h' <;> rw [h] at h' <;> cases h'

theorem parse_failed {e : E} (h : d.read b = .error e) : d.parse b = ([], .error e) := by
  rw [parse]
  split <;> rename_i h' <;> rw [h] at h' <;> cases h'
  rfl

theorem parse_append (b c : List B) :
    d.parse (b ++ c) =
      match (d.parse b).2 with
      | .ok rest => ((d.parse b).1 ++ (d.parse (rest ++ c)).1, (d.parse (rest ++ c)).2)
      | .error e => ((d.parse b).1, .error e) := by
  generalize hLength : b.length = k
  induction k using Nat.strongRecOn generalizing b with
  | _ k ih =>
    subst hLength
    cases hRead : d.read b with
    | error e => rw [parse_failed hRead, parse_failed (d.sequential.failed hRead c)]
    | ok v =>
      cases v with
      | none => rw [parse_more hRead]; rfl
      | some v =>
        obtain ⟨f, n⟩ := v
        rw [parse_found hRead, parse_found (d.sequential.found hRead c),
          List.drop_append_of_le_length (d.sequential.within hRead),
          ih _ (length_drop_lt hRead) _ rfl]
        cases (d.parse (b.drop n)).2 <;> rfl

theorem parse_rest {rest : List B} (h : (d.parse b).2 = .ok rest) : d.read rest = .ok none := by
  generalize hLength : b.length = k
  induction k using Nat.strongRecOn generalizing b with
  | _ k ih =>
    subst hLength
    cases hRead : d.read b with
    | error e =>
      rw [parse_failed hRead] at h
      cases h
    | ok v =>
      cases v with
      | none =>
        rw [parse_more hRead] at h
        cases h
        exact hRead
      | some v =>
        rw [parse_found hRead] at h
        exact ih _ (length_drop_lt hRead) h rfl

/-- What is left is the start of the next frame. -/
def Unfinished (rest : List B) : List (List B) → Prop
  | [] => rest = []
  | bytes :: _ => rest <+: bytes ∧ rest ≠ bytes

theorem parse_accepted {bytes : List B} (h : d.read.Accepts bytes f) (tail : List B) :
    d.parse (bytes ++ tail) = (f :: (d.parse tail).1, (d.parse tail).2) := by
  rw [parse_found (d.sequential.found h.1 tail), List.drop_left]

theorem parse_stream {fs : List F} {parts : List (List B)}
    (h : List.Forall₂ (fun f bytes => d.read.Accepts bytes f) fs parts) (tail : List B) :
    d.parse (parts.flatten ++ tail) = (fs ++ (d.parse tail).1, (d.parse tail).2) := by
  induction h with
  | nil => rfl
  | cons hFirst _ ih =>
    rw [List.flatten_cons, List.append_assoc, parse_accepted hFirst, ih]
    rfl

theorem parse_part {fs : List F} {parts : List (List B)}
    (h : List.Forall₂ (fun f bytes => d.read.Accepts bytes f) fs parts) (hb : b <+: parts.flatten) :
    ∃ k rest, d.parse b = (fs.take k, .ok rest) ∧ b = (parts.take k).flatten ++ rest ∧
      Unfinished rest (parts.drop k) := by
  induction h generalizing b with
  | nil =>
    obtain rfl := List.prefix_nil.mp hb
    exact ⟨0, [], parse_more d.waits, rfl, rfl⟩
  | @cons f bytes fs parts hFirst _ ih =>
    rw [List.flatten_cons] at hb
    by_cases hShort : bytes <+: b
    · obtain ⟨tail, rfl⟩ := hShort
      obtain ⟨k, rest, hParse, rfl, hRest⟩ := ih ((List.prefix_append_right_inj bytes).mp hb)
      refine ⟨k + 1, rest, ?_, ?_, hRest⟩
      · rw [parse_accepted hFirst, hParse]
        rfl
      · rw [List.take_succ_cons, List.flatten_cons, List.append_assoc]
    · have hPart : b <+: bytes := (List.prefix_or_prefix_of_prefix hb
        (List.prefix_append bytes _)).resolve_right hShort
      have hProper : b ≠ bytes := by
        rintro rfl
        exact hShort List.prefix_rfl
      exact ⟨0, b, parse_more (hFirst.2 b hPart hProper), rfl, hPart, hProper⟩

end Decoder

end Framing
