import Mathlib.Data.List.Infix

/-! Paths as Unix spells them, over any alphabet with a separator and a dot, and their lexical
normalisation, which takes away a name for each step up and never looks at a disk.  What lies inside a
directory is what starts with it and goes nowhere up. -/

namespace Paths

class Alphabet (α : Type) where
  slash : α
  dot : α
  slash_ne_dot : slash ≠ dot

open Alphabet

/-- The characters of Unix. -/
instance : Alphabet Char := ⟨'/', '.', by decide⟩

/-- The name of a file or directory. -/
structure Name (α : Type) [Alphabet α] where
  text : List α
  nonempty : text ≠ []
  notHere : text ≠ [dot]
  notUp : text ≠ [dot, dot]
  plain : slash ∉ text
deriving DecidableEq

/-- A component of a path. -/
inductive Component (α : Type) [Alphabet α] where
  | rootDir
  | curDir
  | parentDir
  | normal (name : Name α)
deriving DecidableEq

/-- Where a path starts. -/
inductive Anchor where
  | root
  | here
  | bare
deriving DecidableEq

/-- A component behind the anchor. -/
inductive Step (α : Type) [Alphabet α] where
  | parentDir
  | normal (name : Name α)
deriving DecidableEq

/-- A path by its text: an anchor and steps. -/
structure Path (α : Type) [Alphabet α] where
  anchor : Anchor
  steps : List (Step α)
deriving DecidableEq

/-- What follows the dot of a file name. -/
structure Extension (α : Type) [Alphabet α] where
  text : List α
  nonempty : text ≠ []
  plain : slash ∉ text

variable {α : Type} [DecidableEq α] [Alphabet α]

@[grind =] def Anchor.components : Anchor → List (Component α)
  | .root => [.rootDir]
  | .here => [.curDir]
  | .bare => []

@[grind =] def Step.component : Step α → Component α
  | .parentDir => .parentDir
  | .normal name => .normal name

def Step.text : Step α → List α
  | .parentDir => [dot, dot]
  | .normal name => name.text

omit [DecidableEq α] in
theorem Step.component_injective : Function.Injective (Step.component : Step α → Component α) := by
  intro s s' h
  cases s <;> cases s' <;> simp_all [Step.component]

namespace Name

def stem (n : Name α) : List α :=
  let front := (n.text.reverse.dropWhile (· ≠ dot)).tail.reverse
  if front = [] then n.text else front

theorem stem_nonempty (n : Name α) : n.stem ≠ [] := by
  rw [stem]
  split
  · exact n.nonempty
  · assumption

theorem stem_plain (n : Name α) : slash ∉ n.stem := by
  rw [stem]
  split
  · exact n.plain
  · intro hMem
    have hTail := List.mem_of_mem_tail (List.mem_reverse.mp hMem)
    exact n.plain (List.mem_reverse.mp (List.dropWhile_suffix _ |>.subset hTail))

def withExtension (n : Name α) (e : Extension α) : Name α where
  text := n.stem ++ dot :: e.text
  nonempty := by simp
  notHere hText := by
    have hLength := congrArg List.length hText
    have hStem := List.length_pos_iff.mpr n.stem_nonempty
    simp at hLength
    omega
  notUp hText := by
    have hLength := congrArg List.length hText
    have hStem := List.length_pos_iff.mpr n.stem_nonempty
    have hExtension := List.length_pos_iff.mpr e.nonempty
    simp at hLength
    omega
  plain hMem := by
    rcases List.mem_append.mp hMem with hMem | hMem
    · exact n.stem_plain hMem
    · rcases List.mem_cons.mp hMem with hDot | hMem
      · exact slash_ne_dot hDot
      · exact e.plain hMem

end Name

namespace Path

variable (p q : Path α)

@[grind =] def components : List (Component α) := p.anchor.components ++ p.steps.map Step.component

def empty : Path α := ⟨.bare, []⟩

def step (s : List α) : Option (Step α) :=
  if hPlain : s ≠ [] ∧ s ≠ [dot] ∧ s ≠ [dot, dot] ∧ slash ∉ s then
    some (.normal ⟨s, hPlain.1, hPlain.2.1, hPlain.2.2.1, hPlain.2.2.2⟩)
  else if s = [dot, dot] then some .parentDir
  else none

/-- The path of a text. -/
def parse (text : List α) : Path α where
  anchor :=
    if text.head? = some slash then .root
    else if (text.splitOn slash).head? = some [dot] then .here
    else .bare
  steps := (text.splitOn slash).filterMap step

/-- The text of a path. -/
def display : List α :=
  let steps := [slash].intercalate (p.steps.map Step.text)
  match p.anchor with
  | .root => slash :: steps
  | .here => if p.steps = [] then [dot] else dot :: slash :: steps
  | .bare => steps

def isAbsolute : Bool := p.anchor = .root

/-- `join`: an absolute path replaces. -/
def join : Path α :=
  if q.isAbsolute ∨ p = empty then q else ⟨p.anchor, p.steps ++ q.steps⟩

/-- `push` of one component. -/
def push : Component α → Path α
  | .rootDir => ⟨.root, []⟩
  | .curDir => if p = empty then ⟨.here, []⟩ else p
  | .parentDir => ⟨p.anchor, p.steps ++ [.parentDir]⟩
  | .normal name => ⟨p.anchor, p.steps ++ [.normal name]⟩

/-- `parent`. -/
def parent : Option (Path α) :=
  if p.steps ≠ [] then some ⟨p.anchor, p.steps.dropLast⟩
  else if p.anchor = .here then some empty
  else none

/-- `pop`. -/
def pop : Path α := p.parent.getD p

/-- `with_extension`. -/
def withExtension (e : Extension α) : Path α :=
  match p.steps.getLast? with
  | some (.normal name) => ⟨p.anchor, p.steps.dropLast ++ [.normal (name.withExtension e)]⟩
  | _ => p

/-- `starts_with`. -/
def startsWith : Bool := decide (q.components <+: p.components)

/-- One turn of the loop of a normalization. -/
def tidy : Component α → Path α
  | .parentDir => p.pop
  | .curDir => p
  | c => p.push c

/-- A path without dots. -/
def normalize : Path α := p.components.foldl tidy empty

/-- Neither a dot nor a step up. -/
def Plain : Prop := ∀ c ∈ p.components, c ≠ .curDir ∧ c ≠ .parentDir

/-- The path starts with the directory and goes nowhere up. -/
def Inside (base p : Path α) : Prop := p.startsWith base ∧ p.Plain

instance : Decidable p.Plain := inferInstanceAs (Decidable (∀ c ∈ p.components, _))

instance (base : Path α) : Decidable (Inside base p) := inferInstanceAs (Decidable (_ ∧ _))

variable {p q}

omit [DecidableEq α] in
theorem components_injective (h : p.components = q.components) : p = q := by
  have hSteps : ∀ (c : Component α) (steps steps' : List (Step α)),
      (∀ s : Step α, s.component ≠ c) → c :: steps.map Step.component ≠ steps'.map Step.component := by
    intro c steps steps' hNever hSame
    cases steps' with
    | nil => cases hSame
    | cons s steps' => exact hNever s (List.cons.inj hSame).1.symm
  have hRoot (s : Step α) : s.component ≠ .rootDir := by cases s <;> simp [Step.component]
  have hHere (s : Step α) : s.component ≠ .curDir := by cases s <;> simp [Step.component]
  obtain ⟨anchor, steps⟩ := p
  obtain ⟨anchor', steps'⟩ := q
  have hMap := List.map_injective_iff.mpr (Step.component_injective (α := α))
  cases anchor <;> cases anchor' <;> simp only [components, Anchor.components] at h
  case root.root | here.here | bare.bare => simpa [hMap.eq_iff] using h
  case root.here | here.root => simp at h
  case root.bare => exact absurd h (hSteps _ _ _ hRoot)
  case here.bare => exact absurd h (hSteps _ _ _ hHere)
  case bare.root => exact absurd h.symm (hSteps _ _ _ hRoot)
  case bare.here => exact absurd h.symm (hSteps _ _ _ hHere)

omit [DecidableEq α] in
theorem parent_components (h : p.parent = some q) :
    ∃ c, p.components = q.components ++ [c] := by
  obtain ⟨anchor, steps⟩ := p
  rw [parent] at h
  split at h
  · rename_i hSome
    cases h
    refine ⟨(steps.getLast hSome).component, ?_⟩
    have hLast := List.dropLast_append_getLast hSome
    rw [components, components, List.append_assoc]
    conv_lhs => rw [← hLast]
    rw [List.map_append]
    rfl
  · rename_i hNone
    split at h
    · rename_i hHere
      cases h
      simp only [ne_eq, not_not] at hNone hHere
      subst hNone hHere
      exact ⟨.curDir, rfl⟩
    · cases h

theorem push_plain {c : Component α} (h : p.Plain) (hCur : c ≠ .curDir) (hUp : c ≠ .parentDir) :
    (p.push c).Plain := by
  intro c' hc'
  cases c with
  | rootDir =>
    obtain rfl : c' = .rootDir := by simpa [push, components, Anchor.components] using hc'
    simp
  | curDir => exact absurd rfl hCur
  | parentDir => exact absurd rfl hUp
  | normal name =>
    have hMem : c' ∈ p.components ∨ c' = .normal name := by
      simpa [push, components, Step.component, or_assoc] using hc'
    obtain hc' | rfl := hMem
    · exact h c' hc'
    · exact ⟨hCur, hUp⟩

omit [DecidableEq α] in
theorem parent_plain (h : p.Plain) (hParent : p.parent = some q) : q.Plain := by
  obtain ⟨c, hComponents⟩ := parent_components hParent
  exact fun c' hc' => h c' (hComponents ▸ List.mem_append_left _ hc')

theorem tidy_plain (h : p.Plain) (c : Component α) : (p.tidy c).Plain := by
  cases c with
  | curDir => exact h
  | rootDir | normal name => exact push_plain h (by simp) (by simp)
  | parentDir =>
    rw [tidy, pop]
    cases hParent : p.parent with
    | none => exact h
    | some q => exact parent_plain h hParent

/-- A normalised path goes nowhere up, whatever has been normalised. -/
theorem normalize_plain (p : Path α) : p.normalize.Plain := by
  have hFold : ∀ (cs : List (Component α)) (q : Path α), q.Plain → (cs.foldl tidy q).Plain := by
    intro cs
    induction cs with
    | nil => exact fun _ h => h
    | cons c cs ih => exact fun q h => ih _ (tidy_plain h c)
  exact hFold _ _ fun _ hc => absurd hc List.not_mem_nil

variable {dir : Path α} {e : Extension α}

theorem inside_iff : Inside dir p ↔ dir.components <+: p.components ∧ p.Plain := by
  rw [Inside, startsWith, decide_eq_true_iff]

omit [DecidableEq α] in
theorem parent_ne_empty (h : p.isAbsolute = true) (hParent : p.parent = some q) : q ≠ .empty := by
  obtain ⟨anchor, steps⟩ := p
  cases of_decide_eq_true h
  rintro rfl
  rw [parent] at hParent
  split at hParent
  · cases hParent
  · split at hParent <;> cases hParent
    contradiction

theorem Inside.base (h : Inside dir p) : Inside dir dir := by
  obtain ⟨hPrefix, hPlain⟩ := inside_iff.mp h
  exact inside_iff.mpr ⟨List.prefix_rfl, fun c hc => hPlain c (hPrefix.subset hc)⟩

theorem Inside.parent (h : Inside dir p) (hNe : p ≠ dir) (hParent : p.parent = some q) :
    Inside dir q := by
  obtain ⟨hPrefix, hPlain⟩ := inside_iff.mp h
  obtain ⟨c, hComponents⟩ := parent_components hParent
  refine inside_iff.mpr ⟨?_, parent_plain hPlain hParent⟩
  rw [hComponents] at hPrefix
  obtain hSame | hPrefix := List.prefix_concat_iff.mp hPrefix
  · exact absurd (components_injective (hComponents.trans hSame.symm)) hNe
  · exact hPrefix

theorem parent_not_inside (hParent : dir.parent = some q) : ¬Inside dir q := by
  intro h
  obtain ⟨c, hComponents⟩ := parent_components hParent
  have hLength := (inside_iff.mp h).1.length_le
  rw [hComponents, List.length_append, List.length_singleton] at hLength
  omega

theorem withExtension_cases (p : Path α) (e : Extension α) :
    p.withExtension e = p ∨ ∃ (init : List (Component α)) (name name' : Name α),
      p.components = init ++ [.normal name] ∧
        (p.withExtension e).components = init ++ [.normal name'] := by
  rw [withExtension]
  split
  · rename_i name hLast
    obtain ⟨steps, hSteps⟩ := List.getLast?_eq_some_iff.mp hLast
    refine .inr ⟨p.anchor.components ++ steps.map Step.component, name, name.withExtension e, ?_, ?_⟩
    · simp [components, hSteps, Step.component]
    · simp [components, hSteps, Step.component]
  · exact .inl rfl

theorem Inside.withExtension (h : Inside dir p) (hNe : p ≠ dir) :
    Inside dir (p.withExtension e) := by
  obtain hSame | ⟨init, name, name', hOld, hNew⟩ := withExtension_cases p e
  · exact hSame.symm ▸ h
  · obtain ⟨hPrefix, hPlain⟩ := inside_iff.mp h
    refine inside_iff.mpr ⟨?_, fun c hc => ?_⟩
    · rw [hOld] at hPrefix
      obtain hSame | hPrefix := List.prefix_concat_iff.mp hPrefix
      · exact absurd (components_injective (hOld.trans hSame.symm)) hNe
      · exact hNew ▸ hPrefix.trans (List.prefix_append _ _)
    · rw [hNew] at hc
      obtain hc | hc := List.mem_append.mp hc
      · exact hPlain c (hOld ▸ List.mem_append_left _ hc)
      · obtain rfl := List.mem_singleton.mp hc
        simp

theorem withExtension_not_inside (hNe : dir.withExtension e ≠ dir) :
    ¬Inside dir (dir.withExtension e) := by
  intro h
  obtain hSame | ⟨init, name, name', hOld, hNew⟩ := withExtension_cases dir e
  · exact hNe hSame
  · have hPrefix := (inside_iff.mp h).1
    have hLength : dir.components.length = (dir.withExtension e).components.length := by
      rw [hOld, hNew, List.length_append, List.length_append]
      rfl
    exact hNe (components_injective (hPrefix.eq_of_length hLength)).symm

end Path

end Paths

/-! Canonical paths: the names on the way from the root, each after a separator.  What a path names is
read off its segments, and a path whose text goes on behind a separator leads further down. -/

namespace Paths

open Alphabet

variable {α : Type} [DecidableEq α] [Alphabet α]

/-- The text of an absolute path. -/
def spell (names : List (Name α)) : List α :=
  if names = [] then [slash] else names.flatMap fun n => slash :: n.text

def segments (text : List α) : List (List α) := (text.splitOn slash).filter (· ≠ [])

theorem segments_nil : segments ([] : List α) = [] := by
  unfold segments
  simp

theorem segments_append (a b : List α) :
    segments (a ++ slash :: b) = segments a ++ segments b := by
  unfold segments
  rw [List.splitOn_append_cons_self, List.filter_append]

theorem segments_slash (text : List α) : segments (slash :: text) = segments text := by
  have h := segments_append ([] : List α) text
  rwa [segments_nil, List.nil_append, List.nil_append] at h

theorem segments_single {text : List α} (hSome : text ≠ []) (hPlain : slash ∉ text) :
    segments text = [text] := by
  unfold segments
  rw [List.splitOn_eq_singleton hPlain]
  simp [hSome]

theorem segments_flatMap (names : List (Name α)) :
    segments (names.flatMap fun n => slash :: n.text) = names.map Name.text := by
  induction names with
  | nil => exact segments_nil
  | cons n rest ih =>
    have hName : segments n.text = [n.text] := segments_single n.nonempty n.plain
    rw [List.flatMap_cons, List.cons_append, segments_slash, List.map_cons]
    cases rest with
    | nil => rw [List.flatMap_nil, List.append_nil, hName, List.map_nil]
    | cons m rest =>
      rw [List.flatMap_cons, List.cons_append, segments_slash] at ih
      rw [List.flatMap_cons, List.cons_append, segments_append, hName, ih]
      rfl

theorem segments_spell (names : List (Name α)) : segments (spell names) = names.map Name.text := by
  unfold spell
  split
  · rename_i hRoot
    rw [hRoot, segments_slash, segments_nil, List.map_nil]
  · exact segments_flatMap names

omit [DecidableEq α] in
theorem Name.text_injective : Function.Injective (Name.text : Name α → List α) := by
  rintro ⟨text, _⟩ ⟨text', _⟩ hText
  cases hText
  rfl

theorem spell_below {dir file : List (Name α)} {rest : List α}
    (h : spell file = spell dir ++ slash :: rest) :
    ∃ rel, file = dir ++ rel ∧ segments rest = rel.map Name.text := by
  have hSegments := congrArg segments h
  rw [segments_append, segments_spell, segments_spell] at hSegments
  obtain ⟨front, rel, rfl, hFront, hRel⟩ := List.map_eq_append_iff.mp hSegments
  obtain rfl : front = dir := List.map_injective_iff.mpr Name.text_injective hFront
  exact ⟨rel, rfl, hRel.symm⟩

theorem spell_injective {p q : List (Name α)} (h : spell p = spell q) : p = q := by
  have hSegments := congrArg segments h
  rw [segments_spell, segments_spell] at hSegments
  exact List.map_injective_iff.mpr Name.text_injective hSegments

theorem step_text (n : Name α) : Path.step n.text = some (.normal n) := by
  unfold Path.step
  rw [dif_pos ⟨n.nonempty, n.notHere, n.notUp, n.plain⟩]

theorem step_nil : Path.step ([] : List α) = none := by
  unfold Path.step
  rw [dif_neg (by simp), if_neg (by simp)]

theorem step_dot : Path.step [(dot : α)] = none := by
  unfold Path.step
  rw [dif_neg (by simp), if_neg (by simp)]

theorem filterMap_text (names : List (Name α)) :
    (names.map Name.text).filterMap Path.step = names.map Step.normal := by
  induction names with
  | nil => rfl
  | cons n rest ih =>
    rw [List.map_cons, List.filterMap_cons_some (step_text n), ih]
    rfl

theorem steps_eq (text : List α) : (Path.parse text).steps = (segments text).filterMap Path.step := by
  show (text.splitOn slash).filterMap Path.step = _
  unfold segments
  rw [List.filterMap_filter]
  refine List.filterMap_congr fun part _ => ?_
  by_cases hPart : part = []
  · subst hPart
    rw [step_nil]
    simp
  · simp [hPart]

end Paths
