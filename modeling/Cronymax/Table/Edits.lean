import Mathlib.Data.Finmap
import Mathlib.Data.Finset.Sort
import Mathlib.Data.String.Basic
import Mathlib.Data.List.Basic

/-! Tables: finite maps that are equal when they have the same entries, with the edits that a
program makes to the entry of one key or to all entries. -/

universe u v w

abbrev Table (α : Type u) (β : Type v) := Finmap fun _ : α => β

namespace Table

def inOrder (names : Finset String) : List String := names.sort

@[simp] theorem mem_inOrder {names : Finset String} {name : String} :
    name ∈ inOrder names ↔ name ∈ names := Finset.mem_sort _

variable {α : Type u} {β : Type v} {γ : Type w} [DecidableEq α]

/-- The entry of a key is edited, if it is there. -/
def modify (k : α) (f : β → β) (t : Table α β) : Table α β :=
  match t.lookup k with
  | some b => t.insert k (f b)
  | none => t

theorem lookup_insert_if (k k' : α) (b : β) (t : Table α β) :
    (t.insert k b).lookup k' = if k' = k then some b else t.lookup k' := by
  split
  · subst k'
    exact Finmap.lookup_insert t
  · rename_i h
    exact Finmap.lookup_insert_of_ne t h

theorem lookup_modify (k k' : α) (f : β → β) (t : Table α β) :
    (modify k f t).lookup k' = if k' = k then (t.lookup k').map f else t.lookup k' := by
  unfold modify
  split
  · rename_i b h
    rw [lookup_insert_if]
    split
    · subst k'
      simp [h]
    · rfl
  · rename_i h
    split
    · subst k'
      simp [h]
    · rfl

theorem insert_eq_self {k : α} {b : β} {t : Table α β} : t.insert k b = t ↔ t.lookup k = some b := by
  constructor
  · intro h
    rw [← h]
    exact Finmap.lookup_insert t
  · intro h
    refine Finmap.ext_lookup fun k' => ?_
    rw [lookup_insert_if]
    split
    · subst k'
      exact h.symm
    · rfl

theorem insert_eq_of_lookup {k : α} {b b' : β} {t : Table α β} (h : t.lookup k = some b) :
    t.insert k b' = t ↔ b' = b := by
  rw [insert_eq_self, h, Option.some_inj, eq_comm]

theorem modify_eq_self {k : α} {f : β → β} {t : Table α β} :
    modify k f t = t ↔ ∀ b ∈ t.lookup k, f b = b := by
  unfold modify
  split
  · rename_i b h
    rw [insert_eq_self, h]
    simp [eq_comm]
  · rename_i h
    simp [h]

/-- What `f` leaves of an entry. -/
@[grind =] def keep (f : α → β → Option γ) (e : Σ _ : α, β) : Option (Σ _ : α, γ) :=
  (f e.1 e.2).map fun c => ⟨e.1, c⟩

omit [DecidableEq α] in
theorem keys_keep (f : α → β → Option γ) (l : List (Σ _ : α, β)) :
    (l.filterMap (keep f)).keys.Sublist l.keys := by
  induction l with
  | nil => exact List.Sublist.slnil
  | cons e l ih =>
    cases he : f e.1 e.2 with
    | none => simpa [List.keys, keep, he] using ih.cons e.1
    | some c => simpa [List.keys, keep, he] using ih

/-- Every entry is edited or dropped. -/
def filterMap (f : α → β → Option γ) (t : Table α β) : Table α γ :=
  t.liftOn
    (fun l => AList.toFinmap
      ⟨l.entries.filterMap (keep f), List.Nodup.sublist (keys_keep f _) l.nodupKeys⟩)
    fun _ _ h => AList.toFinmap_eq.mpr (h.filterMap _)

theorem lookup_filterMap (f : α → β → Option γ) (t : Table α β) (k : α) :
    (filterMap f t).lookup k = (t.lookup k).bind (f k) := by
  induction t using Finmap.induction_on with
  | H l =>
    refine Option.ext fun c => ?_
    rw [filterMap, Finmap.liftOn_toFinmap, ← Option.mem_def, Finmap.mem_lookup_iff]
    simp only [Option.bind_eq_some_iff, Finmap.lookup_eq_some_iff]
    constructor
    · intro h
      obtain ⟨e, he, hc⟩ := List.mem_filterMap.mp h
      obtain ⟨c', hf, hk⟩ := Option.map_eq_some_iff.mp hc
      cases hk
      exact ⟨e.2, he, hf⟩
    · rintro ⟨b, hb, hf⟩
      exact List.mem_filterMap.mpr ⟨⟨k, b⟩, hb, by simp only [keep, hf, Option.map_some]⟩

def mapValues (f : β → γ) (t : Table α β) : Table α γ := filterMap (fun _ b => some (f b)) t

theorem lookup_mapValues (f : β → γ) (t : Table α β) (k : α) :
    (mapValues f t).lookup k = (t.lookup k).map f := by
  rw [mapValues, lookup_filterMap]
  cases t.lookup k <;> rfl

theorem mapValues_eq_self {f : β → β} {t : Table α β} :
    t.mapValues f = t ↔ ∀ k b, t.lookup k = some b → f b = b := by
  constructor
  · intro h k b hk
    have hLookup := congrArg (Finmap.lookup k) h
    rw [lookup_mapValues, hk, Option.map_some] at hLookup
    exact Option.some.inj hLookup
  · intro h
    refine Finmap.ext_lookup fun k => ?_
    rw [lookup_mapValues]
    cases hk : t.lookup k with
    | none => rfl
    | some b => rw [Option.map_some, h k b hk]

theorem foldl_eraseIdx {α β : Type*} {f : β → α → β} {l : List α} {i : Nat} {a : α} (hAt : l[i]? = some a)
    (hComm : ∀ j < i, ∀ x, l[j]? = some x → ∀ b, f (f b x) a = f (f b a) x) (b : β) :
    (l.eraseIdx i).foldl f (f b a) = l.foldl f b := by
  induction l generalizing i b with
  | nil => cases hAt
  | cons x l ih =>
    cases i with
    | zero =>
      obtain rfl : x = a := Option.some.inj hAt
      rfl
    | succ i =>
      have hFirst : f (f b x) a = f (f b a) x := hComm 0 (Nat.succ_pos i) x rfl b
      have hRest := ih hAt (fun j hj y hy => hComm (j + 1) (Nat.succ_lt_succ hj) y hy) (f b x)
      show (l.eraseIdx i).foldl f (f (f b a) x) = l.foldl f (f b x)
      rw [← hFirst]
      exact hRest

end Table

/-! Fields with names: a field is set, or it is added where its name is missing.  What a list of additions
leaves under a name is what was there, or else what the first addition of the name brings. -/

namespace Additions

variable {κ β : Type*} [DecidableEq κ]

/-- The member is there. -/
def has (fields : List (κ × β)) (k : κ) : Bool := (fields.lookup k).isSome

/-- A member is set, in its place or at the end. -/
def set (k : κ) (v : β) (fields : List (κ × β)) : List (κ × β) :=
  if has fields k then fields.map fun f => if f.1 = k then (k, v) else f else fields ++ [(k, v)]

/-- A member is added, unless it is there. -/
def add (fields : List (κ × β)) (f : κ × β) : List (κ × β) :=
  if has fields f.1 then fields else fields ++ [f]

def addAll (fields : List (κ × β)) (additions : List (κ × β)) : List (κ × β) :=
  additions.foldl add fields

variable {fields : List (κ × β)} {k j : κ} {v : β}

theorem lookup_single (name : κ) (v : β) : [(name, v)].lookup k = if k = name then some v else none := by
  rw [List.lookup_cons, List.lookup_nil]
  by_cases h : k = name
  · rw [if_pos h, beq_iff_eq.mpr h]
  · rw [if_neg h, beq_eq_false_iff_ne.mpr h]

theorem lookup_add (f : κ × β) :
    (add fields f).lookup k = (fields.lookup k).or ([f].lookup k) := by
  unfold add
  split
  · rename_i hHas
    obtain ⟨v, hThere⟩ := Option.isSome_iff_exists.mp hHas
    rw [lookup_single]
    by_cases hSame : k = f.1
    · rw [hSame, hThere]
      rfl
    · rw [if_neg hSame, Option.or_none]
  · rw [List.lookup_append]

theorem lookup_addAll (additions : List (κ × β)) :
    (addAll fields additions).lookup k = (fields.lookup k).or (additions.lookup k) := by
  induction additions generalizing fields with
  | nil =>
    rw [List.lookup_nil, Option.or_none]
    rfl
  | cons f rest ih =>
    show (addAll (add fields f) rest).lookup k = _
    rw [ih, lookup_add, Option.or_assoc, ← List.lookup_append]
    rfl

theorem lookup_map_other (h : k ≠ j) :
    (fields.map fun f => if f.1 = j then (j, v) else f).lookup k = fields.lookup k := by
  induction fields with
  | nil => rfl
  | cons f rest ih =>
    obtain ⟨name, value⟩ := f
    rw [List.map_cons, List.lookup_cons]
    by_cases hName : name = j
    · subst hName
      rw [if_pos rfl, List.lookup_cons, ih, beq_eq_false_iff_ne.mpr h]
    · rw [if_neg hName, List.lookup_cons, ih]

theorem lookup_map_same (h : (fields.lookup k).isSome) :
    (fields.map fun f => if f.1 = k then (k, v) else f).lookup k = some v := by
  induction fields with
  | nil => cases h
  | cons f rest ih =>
    obtain ⟨name, value⟩ := f
    rw [List.map_cons]
    by_cases hName : name = k
    · rw [if_pos hName, List.lookup_cons, beq_self_eq_true]
    · rw [List.lookup_cons, beq_eq_false_iff_ne.mpr (Ne.symm hName)] at h
      rw [if_neg hName, List.lookup_cons, beq_eq_false_iff_ne.mpr (Ne.symm hName)]
      exact ih h

theorem lookup_set : (set j v fields).lookup k = if k = j then some v else fields.lookup k := by
  unfold set
  split
  · rename_i hHas
    by_cases hSame : k = j
    · rw [if_pos hSame, hSame]
      exact lookup_map_same hHas
    · rw [if_neg hSame, lookup_map_other hSame]
  · rename_i hNot
    rw [List.lookup_append, lookup_single]
    by_cases hSame : k = j
    · have hNone : fields.lookup k = none := by
        rw [hSame]
        exact Option.not_isSome_iff_eq_none.mp hNot
      rw [if_pos hSame, if_pos hSame, hNone]
      rfl
    · rw [if_neg hSame, if_neg hSame, Option.or_none]

end Additions
