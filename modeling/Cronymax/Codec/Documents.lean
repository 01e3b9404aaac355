import Cronymax.Table.Edits

/-! Codecs: how values are written as documents and read back.  A codec carries the proof of what a
value is after both, which is the value itself unless the format leaves something out. -/

universe u v w

/-- Documents that are made of lists and of named fields. -/
class Documents (D : Type u) where
  null : D
  list : List D → D
  object : List (String × D) → D
  isNull : D → Bool
  items : D → Option (List D)
  fields : D → Option (List (String × D))
  isNull_null : isNull null = true
  isNull_list (ds : List D) : isNull (list ds) = false
  isNull_object (fs : List (String × D)) : isNull (object fs) = false
  items_list (ds : List D) : items (list ds) = some ds
  fields_object (fs : List (String × D)) : fields (object fs) = some fs

/-- What is written is read back. -/
structure Codec (D : Type u) (α : Type v) where
  write : α → D
  read : D → Option α
  stored : α → α
  read_write (a : α) : read (write a) = some (stored a)

namespace Codec

open Documents

attribute [simp] read_write isNull_null isNull_list isNull_object items_list fields_object

variable {D : Type u} {α : Type v} {β : Type w} [Documents D]

/-- A codec that loses nothing, and whose documents are not null. -/
class Plain (c : Codec D α) : Prop where
  stored_eq (a : α) : c.stored a = a
  isNull_write (a : α) : isNull (c.write a) = false

attribute [simp] Plain.stored_eq Plain.isNull_write

theorem Plain.stored_eq_id (c : Codec D α) [Plain c] : c.stored = id := funext Plain.stored_eq

omit [Documents D] in
/-- A document as it is. -/
def raw : Codec D D := ⟨id, some, id, fun _ => rfl⟩

omit [Documents D] in
@[simp] theorem stored_raw (d : D) : (raw : Codec D D).stored d = d := rfl

def via (c : Codec D α) [Plain c] (unwrap : β → α) (wrap : α → Option β)
    (h : ∀ b, wrap (unwrap b) = some b) : Codec D β where
  write b := c.write (unwrap b)
  read d := (c.read d).bind wrap
  stored b := b
  read_write b := by rw [read_write, Option.bind_some, Plain.stored_eq, h]

instance (c : Codec D α) [Plain c] (unwrap : β → α) (wrap : α → Option β)
    (h : ∀ b, wrap (unwrap b) = some b) : Plain (c.via unwrap wrap h) where
  stored_eq _ := rfl
  isNull_write b := Plain.isNull_write (unwrap b)

/-- A codec for an enumeration by names. -/
abbrev named [DecidableEq α] (c : Codec D α) [Plain c] (name : β → α) (all : List β)
    (h : ∀ b, all.find? (fun b' => name b' = name b) = some b) : Codec D β :=
  c.via name (fun a => all.find? fun b => name b = a) h

omit [Documents D] in
theorem mapM_read (c : Codec D α) (l : List α) :
    (l.map c.write).mapM c.read = some (l.map c.stored) := by
  induction l with
  | nil => rfl
  | cons a l ih => simp [ih]

/-- Lists, member by member. -/
def list (c : Codec D α) : Codec D (List α) where
  write l := Documents.list (l.map c.write)
  read d := (items d).bind fun ds => ds.mapM c.read
  stored := List.map c.stored
  read_write l := by rw [items_list, Option.bind_some, mapM_read]

instance (c : Codec D α) [Plain c] : Plain c.list where
  stored_eq l := by simp [list, Plain.stored_eq_id]
  isNull_write l := isNull_list _

/-- A value, or null. -/
def nullable (c : Codec D α) : Codec D (Option α) where
  write o := (o.map c.write).getD null
  read d := if isNull d then some none else (c.read d).map some
  stored o := (o.filter fun a => !isNull (c.write a)).map c.stored
  read_write o := by
    cases o with
    | none => simp
    | some a => by_cases h : isNull (c.write a) = true <;> simp [h, Option.filter]

@[simp] theorem stored_nullable (c : Codec D α) [Plain c] (o : Option α) :
    c.nullable.stored o = o := by
  cases o <;> simp [nullable, Option.filter]

section Tables

variable {κ : Type v} [DecidableEq κ] {β : Type w}

def readEntries (keyOf : String → Option κ) (c : Codec D β) :
    Table κ β → List (String × D) → Option (Table κ β)
  | t, [] => some t
  | t, (name, d) :: rest =>
    (keyOf name).bind fun k => (c.read d).bind fun b => readEntries keyOf c (t.insert k b) rest

def entriesOf (keyOf : String → Option κ) (c : Codec D β) (t : Table κ β) (names : List String) :
    List (String × D) :=
  names.filterMap fun name =>
    (keyOf name).bind fun k => (t.lookup k).map fun b => (name, c.write b)

omit [Documents D] in
theorem readEntries_entriesOf {nameOf : κ → String} {keyOf : String → Option κ}
    (hKey : ∀ k, keyOf (nameOf k) = some k) (c : Codec D β) (t : Table κ β) (ks : List κ)
    (acc : Table κ β) :
    ∃ t', readEntries keyOf c acc (entriesOf keyOf c t (ks.map nameOf)) = some t' ∧
      ∀ k, t'.lookup k =
        if k ∈ ks then ((t.lookup k).map c.stored).or (acc.lookup k) else acc.lookup k := by
  induction ks generalizing acc with
  | nil => exact ⟨acc, rfl, fun k => by simp⟩
  | cons k₀ ks ih =>
    cases hLookup : t.lookup k₀ with
    | none =>
      obtain ⟨t', hRead, hEntries⟩ := ih acc
      refine ⟨t', by simpa [entriesOf, hKey, hLookup] using hRead, fun k => ?_⟩
      rw [hEntries]
      by_cases hk : k = k₀
      · subst k
        simp [hLookup]
      · simp [hk]
    | some b =>
      obtain ⟨t', hRead, hEntries⟩ := ih (acc.insert k₀ (c.stored b))
      refine ⟨t', by simpa [entriesOf, readEntries, hKey, hLookup] using hRead, fun k => ?_⟩
      rw [hEntries, Table.lookup_insert_if]
      by_cases hk : k = k₀
      · subst k
        simp [hLookup]
      · simp [hk]

def names (nameOf : κ → String) (t : Table κ β) : List String :=
  Table.inOrder (t.keys.image nameOf)

omit [DecidableEq κ] in
theorem mem_names {nameOf : κ → String} {t : Table κ β} {name : String} :
    name ∈ names nameOf t ↔ ∃ k ∈ t, nameOf k = name := by
  simp [names, Finmap.mem_keys]

/-- Tables, as objects in the order of the names. -/
def table (nameOf : κ → String) (keyOf : String → Option κ)
    (hKey : ∀ k, keyOf (nameOf k) = some k) (c : Codec D β) : Codec D (Table κ β) where
  write t := object (entriesOf keyOf c t (names nameOf t))
  read d := (fields d).bind (readEntries keyOf c ∅)
  stored t := t.mapValues c.stored
  read_write t := by
    have hNames : names nameOf t = ((names nameOf t).filterMap keyOf).map nameOf := by
      rw [List.map_filterMap]
      have hSome : ∀ name ∈ names nameOf t, (keyOf name).map nameOf = some name := by
        intro name hName
        obtain ⟨k, -, rfl⟩ := mem_names.mp hName
        rw [hKey, Option.map_some]
      rw [List.filterMap_congr hSome, List.filterMap_some]
    obtain ⟨t', hRead, hEntries⟩ :=
      readEntries_entriesOf hKey c t ((names nameOf t).filterMap keyOf) ∅
    rw [fields_object, Option.bind_some, hNames, hRead]
    refine congrArg some (Finmap.ext_lookup fun k => ?_)
    rw [hEntries, Table.lookup_mapValues, Finmap.lookup_empty]
    split
    · exact Option.or_none
    · rename_i hNot
      cases hLookup : t.lookup k with
      | none => rfl
      | some b =>
        have hName : nameOf k ∈ names nameOf t :=
          mem_names.mpr ⟨k, Finmap.mem_of_lookup_eq_some hLookup, rfl⟩
        exact absurd (List.mem_filterMap.mpr ⟨nameOf k, hName, hKey k⟩) hNot

instance (nameOf : κ → String) (keyOf : String → Option κ)
    (hKey : ∀ k, keyOf (nameOf k) = some k) (c : Codec D β) [Plain c] :
    Plain (table nameOf keyOf hKey c) where
  stored_eq t := Finmap.ext_lookup fun k => by
    simp [table, Table.lookup_mapValues, Plain.stored_eq_id]
  isNull_write _ := isNull_object _

end Tables

/-- A record: members without a value are left out. -/
def record (fs : List (String × Option D)) : D :=
  object (fs.filterMap fun f => f.2.map fun d => (f.1, d))

/-- A member of an object. -/
def field? (d : D) (name : String) : Option D := (fields d).bind fun fs => fs.lookup name

@[simp] theorem isNull_record (fs : List (String × Option D)) : isNull (record fs) = false :=
  isNull_object _

@[simp] theorem field_record_nil (name : String) :
    field? (record ([] : List (String × Option D))) name = none := by
  simp [field?, record]

@[simp] theorem field_record_cons (n name : String) (o : Option D) (fs : List (String × Option D)) :
    field? (record ((n, o) :: fs)) name =
      if name = n then o.or (field? (record fs) name) else field? (record fs) name := by
  cases o with
  | none => simp [field?, record]
  | some d =>
    by_cases h : name = n
    · simp [field?, record, h]
    · simp [field?, record, h, List.lookup_cons, beq_eq_false_iff_ne.mpr h]

/-- A member that has to be there. -/
def required (c : Codec D α) (o : Option D) : Option α := o.bind c.read

/-- A member with a default. -/
def orDefault (c : Codec D α) (default : α) : Option D → Option α
  | some d => c.read d
  | none => some default

/-- A list that is left out where it is empty. -/
def unlessEmpty (c : Codec D α) : List α → Option D
  | [] => none
  | l => some (c.list.write l)

omit [Documents D] in
@[simp] theorem required_write (c : Codec D α) (a : α) :
    required c (some (c.write a)) = some (c.stored a) := c.read_write a

omit [Documents D] in
@[simp] theorem orDefault_write (c : Codec D α) (default a : α) :
    orDefault c default (some (c.write a)) = some (c.stored a) := c.read_write a

@[simp] theorem orDefault_unlessEmpty (c : Codec D α) (l : List α) :
    orDefault c.list [] (unlessEmpty c l) = some (c.list.stored l) := by
  cases l with
  | nil => rfl
  | cons a l => exact c.list.read_write (a :: l)

@[simp] theorem orDefault_map (c : Codec D α) (o : Option α) :
    orDefault c.nullable none (o.map c.write) = some (c.nullable.stored o) := by
  cases o with
  | none => rfl
  | some a => exact c.nullable.read_write (some a)

end Codec
