import Cronymax.Text.Occurrences

/-! Templates: texts with holes.  A hole is filled by a search for what it is spelled as, in the whole text and
so in what has been filled in before; the search finds nothing but the holes where what it looks for stands
nowhere else. -/

namespace Text

/-- A part of a template: some text, or a hole. -/
inductive Piece (α κ : Type*) where
  | plain (text : List α)
  | hole (k : κ)

namespace Piece

variable {α κ : Type*} (spell : κ → List α)

/-- How the part reads. -/
@[grind =] def flat : Piece α κ → List α
  | plain text => text
  | hole k => spell k

@[grind =] def fill (value : κ → Option (List α)) : Piece α κ → Piece α κ
  | plain text => plain text
  | hole k =>
    match value k with
    | some text => plain text
    | none => hole k

end Piece

variable {α κ : Type*}

@[grind =] def flat (spell : κ → List α) (pieces : List (Piece α κ)) : List α := pieces.flatMap (·.flat spell)

@[grind =] def fill (value : κ → Option (List α)) (pieces : List (Piece α κ)) : List (Piece α κ) :=
  pieces.map (·.fill value)

/-- A placeholder reads as such only where it is one. -/
def Only (spell : κ → List α) (k : κ) (pieces : List (Piece α κ)) : Prop :=
  ∀ before after, flat spell pieces = before ++ (spell k ++ after) →
    ∃ left right, pieces = left ++ .hole k :: right ∧ flat spell left = before

variable {spell : κ → List α} {k : κ} {p : Piece α κ} {pieces : List (Piece α κ)}

@[simp] theorem flat_nil : flat spell ([] : List (Piece α κ)) = [] := rfl

@[simp] theorem flat_cons : flat spell (p :: pieces) = p.flat spell ++ flat spell pieces := rfl

@[simp] theorem fill_nil (value : κ → Option (List α)) : fill value ([] : List (Piece α κ)) = [] := rfl

@[simp] theorem fill_cons (value : κ → Option (List α)) : fill value (p :: pieces) = p.fill value :: fill value pieces :=
  rfl

theorem Only.tail (h : Only spell k (p :: pieces)) (hSome : spell k ≠ []) : Only spell k pieces := by
  intro before after hFlat
  obtain ⟨left, right, hSplit, hLeft⟩ := h (p.flat spell ++ before) after (by
    rw [flat_cons, hFlat, List.append_assoc])
  cases left with
  | nil =>
    obtain ⟨rfl, -⟩ := List.cons.inj hSplit
    have hEmpty := (List.append_eq_nil_iff.mp hLeft.symm).1
    exact absurd hEmpty hSome
  | cons q left =>
    obtain ⟨rfl, hRest⟩ := List.cons.inj hSplit
    exact ⟨left, right, hRest, List.append_cancel_left hLeft⟩

theorem Only.not_inside (h : Only spell k (p :: pieces)) (hNot : p ≠ .hole k) {before after : List α}
    (hPiece : p.flat spell = before ++ after) (hAfter : after ≠ []) :
    ¬spell k <+: after ++ flat spell pieces := by
  rintro ⟨rest, hRest⟩
  obtain ⟨left, right, hSplit, hLeft⟩ := h before rest (by rw [flat_cons, hPiece, List.append_assoc, ← hRest])
  cases left with
  | nil => exact hNot (List.cons.inj hSplit).1
  | cons q left =>
    obtain ⟨rfl, -⟩ := List.cons.inj hSplit
    have hLength := congrArg List.length hLeft
    have hPositive := List.length_pos_iff.mpr hAfter
    rw [flat_cons, List.length_append, hPiece, List.length_append] at hLength
    omega

theorem Only.cons (h : Only spell k pieces)
    (hHere : ∀ before after, p.flat spell ++ flat spell pieces = before ++ (spell k ++ after) →
      before.length < (p.flat spell).length → before = [] ∧ p = .hole k) : Only spell k (p :: pieces) := by
  intro before after hFlat
  rw [flat_cons] at hFlat
  by_cases hShort : before.length < (p.flat spell).length
  · obtain ⟨rfl, rfl⟩ := hHere before after hFlat hShort
    exact ⟨[], pieces, rfl, rfl⟩
  · obtain ⟨rest, rfl⟩ := List.prefix_of_prefix_length_le (List.prefix_append _ _) ⟨_, hFlat.symm⟩
      (Nat.le_of_not_lt hShort)
    rw [List.append_assoc] at hFlat
    obtain ⟨left, right, rfl, rfl⟩ := h rest after (List.append_cancel_left hFlat)
    exact ⟨p :: left, right, rfl, rfl⟩

theorem only_of_longer (h : (flat spell pieces).length < (spell k).length) : Only spell k pieces := by
  intro before after hFlat
  rw [hFlat, List.length_append, List.length_append] at h
  omega

section Replace

variable [DecidableEq α] {new : List α}

theorem replaceFrom_skip {pat : List α} (skipped text : List α) :
    replaceFrom pat new skipped.length (skipped ++ text) = replaceFrom pat new 0 text := by
  induction skipped with
  | nil => rfl
  | cons a skipped ih => exact ih

theorem replaceAll_here {pat : List α} (hSome : pat ≠ []) (text : List α) :
    replaceAll pat new (pat ++ text) = new ++ replaceAll pat new text := by
  obtain ⟨a, rest, rfl⟩ := List.exists_cons_of_ne_nil hSome
  have hPrefix : a :: rest <+: a :: (rest ++ text) := ⟨text, rfl⟩
  rw [replaceAll, List.cons_append, replaceFrom, if_pos hPrefix, List.length_cons, Nat.add_sub_cancel,
    replaceFrom_skip]
  rfl

theorem replaceAll_keep {pat kept text : List α}
    (h : ∀ before after, kept = before ++ after → after ≠ [] → ¬pat <+: after ++ text) :
    replaceAll pat new (kept ++ text) = kept ++ replaceAll pat new text := by
  induction kept with
  | nil => rfl
  | cons a kept ih =>
    have hNot : ¬pat <+: a :: (kept ++ text) := h [] (a :: kept) rfl (List.cons_ne_nil _ _)
    rw [replaceAll, List.cons_append, replaceFrom, if_neg hNot]
    exact congrArg (a :: ·) (ih fun before after hKept => h (a :: before) after (by rw [hKept]; rfl))

theorem replaceAll_flat [DecidableEq κ] (hSome : spell k ≠ []) (h : Only spell k pieces) :
    replaceAll (spell k) new (flat spell pieces) =
      flat spell (fill (fun j => if j = k then some new else none) pieces) := by
  induction pieces with
  | nil => rfl
  | cons p pieces ih =>
    rw [flat_cons, fill_cons, flat_cons, ← ih (h.tail hSome)]
    have hKeep (hNot : p ≠ .hole k) : replaceAll (spell k) new (p.flat spell ++ flat spell pieces) =
        p.flat spell ++ replaceAll (spell k) new (flat spell pieces) :=
      replaceAll_keep fun before after hPiece hAfter => h.not_inside hNot hPiece hAfter
    cases p with
    | plain text => exact hKeep (by simp)
    | hole j =>
      by_cases hj : j = k
      · subst hj
        simpa [Piece.fill, Piece.flat] using replaceAll_here hSome (flat spell pieces)
      · simpa [Piece.fill, Piece.flat, hj] using hKeep (by simpa using hj)

end Replace

theorem fill_fill (f g : κ → Option (List α)) (pieces : List (Piece α κ)) :
    fill g (fill f pieces) = fill (fun k => (f k).or (g k)) pieces := by
  rw [fill, fill, fill, List.map_map]
  refine List.map_congr_left fun p _ => ?_
  cases p with
  | plain text => rfl
  | hole k =>
    rw [Function.comp_apply, Piece.fill, Piece.fill]
    cases f k <;> rfl

theorem fill_congr {f g : κ → Option (List α)} (h : ∀ k, .hole k ∈ pieces → f k = g k) :
    fill f pieces = fill g pieces := by
  refine List.map_congr_left fun p hp => ?_
  cases p with
  | plain text => rfl
  | hole k => rw [Piece.fill, Piece.fill, h k hp]

theorem mem_of_mem_fill {f : κ → Option (List α)} (h : .hole k ∈ fill f pieces) : .hole k ∈ pieces := by
  obtain ⟨p, hp, hFill⟩ := List.mem_map.mp h
  cases p with
  | plain text => cases hFill
  | hole j =>
    rw [Piece.fill] at hFill
    split at hFill
    · cases hFill
    · rwa [← hFill]

section Passes

variable [DecidableEq κ]

/-- The value of a name: the first entry. -/
def assigned (entries : List (κ × List α)) (k : κ) : Option (List α) :=
  (entries.find? fun e => e.1 = k).map (·.2)

/-- No value brings a placeholder that comes later. -/
def Clean (spell : κ → List α) : List (κ × List α) → List (Piece α κ) → Prop
  | [], _ => True
  | (k, new) :: passes, pieces =>
    Only spell k pieces ∧ Clean spell passes (fill (fun j => if j = k then some new else none) pieces)

theorem assigned_cons (e : κ × List α) (entries : List (κ × List α)) (k : κ) :
    assigned (e :: entries) k = (if k = e.1 then some e.2 else none).or (assigned entries k) := by
  rw [assigned, assigned, List.find?_cons]
  by_cases hk : e.1 = k
  · simp [hk]
  · simp [hk, Ne.symm hk]

theorem assigned_append (entries entries' : List (κ × List α)) (k : κ) :
    assigned (entries ++ entries') k = (assigned entries k).or (assigned entries' k) := by
  rw [assigned, List.find?_append, Option.map_or]
  rfl

theorem assigned_map (f : List α → List α) (entries : List (κ × List α)) (k : κ) :
    assigned (entries.map fun e => (e.1, f e.2)) k = (assigned entries k).map f := by
  rw [assigned, assigned, List.find?_map, Option.map_map, Option.map_map]
  rfl

theorem assigned_eq_some {entries : List (κ × List α)} (hNodup : (entries.map (·.1)).Nodup) {k : κ}
    {text : List α} : assigned entries k = some text ↔ (k, text) ∈ entries := by
  induction entries with
  | nil => simp [assigned]
  | cons e entries ih =>
    obtain ⟨hNew, hRest⟩ := List.nodup_cons.mp hNodup
    rw [assigned_cons, List.mem_cons]
    by_cases hk : k = e.1
    · have hAbsent : (k, text) ∉ entries := fun hMem => hNew (List.mem_map.mpr ⟨_, hMem, hk⟩)
      rw [if_pos hk, Option.some_or, Option.some.injEq, Prod.ext_iff]
      exact ⟨fun h => .inl ⟨hk, h.symm⟩, fun h => (h.resolve_right hAbsent).2.symm⟩
    · rw [if_neg hk, Option.none_or, ih hRest]
      exact ⟨.inr, fun h => h.resolve_left fun hSame => hk (congrArg Prod.fst hSame)⟩

theorem foldl_replaceAll [DecidableEq α] {β : Type*} {key : β → κ} {f g : β → List α} {entries : List β}
    (hSome : ∀ k, spell k ≠ []) (h : Clean spell (entries.map fun e => (key e, f e)) pieces)
    (hSame : ∀ e ∈ entries, .hole (key e) ∈ pieces → g e = f e) :
    entries.foldl (fun text e => replaceAll (spell (key e)) (g e) text) (flat spell pieces) =
      flat spell (fill (assigned (entries.map fun e => (key e, f e))) pieces) := by
  induction entries generalizing pieces with
  | nil =>
    have hStays : fill (assigned ([] : List (κ × List α))) pieces = pieces := by
      refine (List.map_congr_left fun p _ => ?_).trans (List.map_id _)
      cases p <;> rfl
    exact (congrArg (flat spell) hStays).symm
  | cons e entries ih =>
    obtain ⟨hOnly, hRest⟩ := h
    have hFirst : fill (fun j => if j = key e then some (g e) else none) pieces =
        fill (fun j => if j = key e then some (f e) else none) pieces := by
      refine fill_congr fun j hj => ?_
      by_cases hKey : j = key e
      · rw [if_pos hKey, if_pos hKey, hSame e List.mem_cons_self (hKey ▸ hj)]
      · rw [if_neg hKey, if_neg hKey]
    rw [List.foldl_cons, replaceAll_flat (hSome _) hOnly, hFirst,
      ih hRest fun e' he' hHole => hSame e' (List.mem_cons_of_mem e he') (mem_of_mem_fill hHole), fill_fill,
      List.map_cons]
    exact congrArg (flat spell) (fill_congr fun k _ => (assigned_cons (key e, f e) _ k).symm)

end Passes

end Text
