import Mathlib.Data.List.AList

/-! Names of files, and handles on files that are open.  A handle stays with its file when the name is
moved, and so a name says where a file is found, and not which file has been opened. -/

namespace Files

/-- Names of files, and the bytes of each file by its handle. -/
structure Volume (P : Type*) [DecidableEq P] where
  names : AList fun _ : P => Nat
  bytes : Nat → List UInt8
  next : Nat
  created : ∀ p i, names.lookup p = some i → i < next
  single : ∀ p q i, names.lookup p = some i → names.lookup q = some i → p = q

namespace Volume

variable {P : Type*} [DecidableEq P] (v : Volume P)

def empty (P : Type*) [DecidableEq P] : Volume P where
  names := ∅
  bytes _ := []
  next := 0
  created _ _ h := by simp at h
  single _ _ _ h := by simp at h

def has (p : P) : Bool := (v.names.lookup p).isSome

@[grind =] def read (p : P) : Option (List UInt8) := (v.names.lookup p).map v.bytes

def write (h : Nat) (bytes : List UInt8) : Volume P :=
  { v with bytes := Function.update v.bytes h bytes }

/-- Bytes are added at the end of a file. -/
def append (h : Nat) (data : List UInt8) : Volume P := v.write h (v.bytes h ++ data)

/-- A new file. -/
def create (p : P) : Volume P where
  names := v.names.insert p v.next
  bytes := Function.update v.bytes v.next []
  next := v.next + 1
  created q i h := by
    by_cases hq : q = p
    · subst hq
      rw [AList.lookup_insert] at h
      have hNew : v.next = i := Option.some.inj h
      omega
    · rw [AList.lookup_insert_ne hq] at h
      exact Nat.lt_succ_of_lt (v.created q i h)
  single q r i hq hr := by
    have hOld (s : P) (hs : s ≠ p) (h : (v.names.insert p v.next).lookup s = some v.next) : False := by
      rw [AList.lookup_insert_ne hs] at h
      exact Nat.lt_irrefl _ (v.created s _ h)
    by_cases hqp : q = p
    · subst hqp
      rw [AList.lookup_insert] at hq
      obtain rfl : v.next = i := Option.some.inj hq
      by_contra hne
      exact hOld r (Ne.symm hne) hr
    · by_cases hrp : r = p
      · subst hrp
        rw [AList.lookup_insert] at hr
        obtain rfl : v.next = i := Option.some.inj hr
        exact absurd hq (hOld q hqp)
      · rw [AList.lookup_insert_ne hqp] at hq
        rw [AList.lookup_insert_ne hrp] at hr
        exact v.single q r i hq hr

/-- The handle of a name, of a new file if there is none. -/
def openFile (p : P) : Nat × Volume P :=
  match v.names.lookup p with
  | some h => (h, v)
  | none => (v.next, v.create p)

/-- The name goes, its handle remains good. -/
def remove (p : P) : Volume P where
  names := v.names.erase p
  bytes := v.bytes
  next := v.next
  created q i h := by
    by_cases hq : q = p
    · subst hq
      simp at h
    · rw [AList.lookup_erase_ne hq] at h
      exact v.created q i h
  single q r i hq hr := by
    by_cases hqp : q = p
    · subst hqp
      simp at hq
    · by_cases hrp : r = p
      · subst hrp
        simp at hr
      · rw [AList.lookup_erase_ne hqp] at hq
        rw [AList.lookup_erase_ne hrp] at hr
        exact v.single q r i hq hr

def name (q : P) (h : Nat) (hNew : h < v.next) (hFree : ∀ p, v.names.lookup p ≠ some h) : Volume P where
  names := v.names.insert q h
  bytes := v.bytes
  next := v.next
  created r i hr := by
    by_cases hrq : r = q
    · subst hrq
      rw [AList.lookup_insert] at hr
      exact Option.some.inj hr ▸ hNew
    · rw [AList.lookup_insert_ne hrq] at hr
      exact v.created r i hr
  single r s i hr hs := by
    by_cases hrq : r = q
    · subst hrq
      rw [AList.lookup_insert] at hr
      obtain rfl : h = i := Option.some.inj hr
      by_contra hne
      rw [AList.lookup_insert_ne (Ne.symm hne)] at hs
      exact hFree s hs
    · by_cases hsq : s = q
      · subst hsq
        rw [AList.lookup_insert] at hs
        obtain rfl : h = i := Option.some.inj hs
        rw [AList.lookup_insert_ne hrq] at hr
        exact absurd hr (hFree r)
      · rw [AList.lookup_insert_ne hrq] at hr
        rw [AList.lookup_insert_ne hsq] at hs
        exact v.single r s i hr hs

theorem free_of_removed {p : P} {h : Nat} (hp : v.names.lookup p = some h) (q : P) :
    (v.remove p).names.lookup q ≠ some h := by
  intro hq
  by_cases hqp : q = p
  · subst hqp
    exact absurd hq (by simp [remove])
  · rw [remove, AList.lookup_erase_ne hqp] at hq
    exact hqp (v.single q p h hq hp)

/-- A name gives way to another, which loses its file. -/
def rename (p q : P) : Volume P :=
  match hp : v.names.lookup p with
  | some h => (v.remove p).name q h (v.created p h hp) (v.free_of_removed hp)
  | none => v

variable {v} {p q r : P} {h : Nat}

theorem read_eq_none : v.read p = none ↔ v.has p = false := by
  cases hp : v.names.lookup p <;> simp [read, has, hp]

@[simp] theorem read_empty : (empty P).read p = none := by simp [read, empty]

/-- The handle is open on the file of the name. -/
def Opens (v : Volume P) (h : Nat) (p : P) : Prop := v.names.lookup p = some h

theorem Opens.read (hOpen : v.Opens h p) : v.read p = some (v.bytes h) := by
  rw [Volume.read, hOpen]
  rfl

theorem Opens.has (hOpen : v.Opens h p) : v.has p = true := by
  rw [Volume.has, hOpen]
  rfl

theorem Opens.other (hOpen : v.Opens h p) (hq : q ≠ p) (i : Nat) (hi : v.Opens i q) : i ≠ h := by
  rintro rfl
  exact hq (v.single q p i hi hOpen)

theorem read_write (hOpen : v.Opens h p) (bytes : List UInt8) :
    (v.write h bytes).read q = if q = p then some bytes else v.read q := by
  split
  · rename_i hq
    subst hq
    simp [Volume.read, write, show v.names.lookup q = some h from hOpen]
  · rename_i hq
    cases hi : v.names.lookup q with
    | none => simp [Volume.read, write, hi]
    | some i => simp [Volume.read, write, hi, hOpen.other hq i hi]

theorem read_append (hOpen : v.Opens h p) (data : List UInt8) :
    (v.append h data).read q = if q = p then (v.read p).map (· ++ data) else v.read q := by
  rw [append, read_write hOpen, hOpen.read]
  rfl

theorem Opens.append (hOpen : v.Opens h p) (i : Nat) (data : List UInt8) : (v.append i data).Opens h p :=
  hOpen

theorem read_create (hNew : v.has p = false) :
    (v.create p).read q = if q = p then some [] else v.read q := by
  split
  · rename_i hq
    subst hq
    simp [Volume.read, create]
  · rename_i hq
    cases hi : v.names.lookup q with
    | none => simp [Volume.read, create, AList.lookup_insert_ne hq, hi]
    | some i =>
      have hOld : i ≠ v.next := Nat.ne_of_lt (v.created q i hi)
      simp [Volume.read, create, AList.lookup_insert_ne hq, hi, hOld]

theorem openFile_opens : (v.openFile p).2.Opens (v.openFile p).1 p := by
  unfold openFile
  split
  · rename_i h hp
    exact hp
  · exact AList.lookup_insert _

theorem read_openFile : (v.openFile p).2.read q = if q = p then some ((v.read p).getD []) else v.read q := by
  unfold openFile
  split
  · rename_i h hp
    split
    · rename_i hq
      subst hq
      simp [Volume.read, hp]
    · rfl
  · rename_i hp
    have hNone : v.read p = none := by simp [Volume.read, hp]
    rw [read_create (read_eq_none.mp hNone), hNone]
    rfl

theorem read_remove : (v.remove p).read q = if q = p then none else v.read q := by
  split
  · rename_i hq
    subst hq
    simp [Volume.read, remove]
  · rename_i hq
    simp [Volume.read, remove, AList.lookup_erase_ne hq]

theorem Opens.remove (hOpen : v.Opens h q) (hq : q ≠ p) : (v.remove p).Opens h q :=
  (AList.lookup_erase_ne hq).trans hOpen

theorem lookup_remove_ne (hrp : r ≠ p) : (v.remove p).names.lookup r = v.names.lookup r :=
  AList.lookup_erase_ne hrp

theorem lookup_openFile_ne (hrp : r ≠ p) : (v.openFile p).2.names.lookup r = v.names.lookup r := by
  unfold openFile
  split
  · rfl
  · exact AList.lookup_insert_ne hrp

theorem lookup_rename_ne (hrp : r ≠ p) (hrq : r ≠ q) : (v.rename p q).names.lookup r = v.names.lookup r := by
  unfold rename
  split
  · exact (AList.lookup_insert_ne hrq).trans (AList.lookup_erase_ne hrp)
  · rfl

theorem lookup_rename (hpq : p ≠ q) (hp : v.has p = true) :
    (v.rename p q).names.lookup r =
      if r = q then v.names.lookup p else if r = p then none else v.names.lookup r := by
  unfold rename
  split
  · rename_i h hOpen
    split_ifs with hq hrp
    · subst hq
      exact (AList.lookup_insert _).trans hOpen.symm
    · subst hrp
      exact (AList.lookup_insert_ne hq).trans (by simp [remove])
    · exact (AList.lookup_insert_ne hq).trans (AList.lookup_erase_ne hrp)
  · rename_i hNone
    simp [has, hNone] at hp

@[simp] theorem bytes_rename : (v.rename p q).bytes = v.bytes := by
  unfold rename
  split <;> rfl

theorem read_rename (hpq : p ≠ q) (hp : v.has p = true) :
    (v.rename p q).read r = if r = q then v.read p else if r = p then none else v.read r := by
  unfold Volume.read
  rw [lookup_rename hpq hp, bytes_rename]
  split_ifs <;> rfl

theorem Opens.rename (hOpen : v.Opens h r) (hpq : p ≠ q) (hp : v.has p = true) (hrp : r ≠ p) (hrq : r ≠ q) :
    (v.rename p q).Opens h r := by
  unfold Opens
  rw [lookup_rename hpq hp, if_neg hrq, if_neg hrp]
  exact hOpen

end Volume

end Files
