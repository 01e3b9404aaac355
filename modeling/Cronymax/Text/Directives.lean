import Mathlib.Algebra.GroupWithZero.Nat
import Mathlib.Data.List.Basic

/-! Header values that are lists of directives: a directive is a name and, after a blank, a value, and
semicolons stand between the directives.  A list is read back from its text exactly if no directive holds
a semicolon. -/

namespace Text

/-- A directive of a header. -/
structure Directive where
  name : List Char
  value : List Char
deriving DecidableEq

namespace Directive

def text (d : Directive) : List Char := d.name ++ ' ' :: d.value

def read (part : List Char) : Directive :=
  let text := part.dropWhile (· = ' ')
  ⟨text.takeWhile (· ≠ ' '), (text.dropWhile (· ≠ ' ')).tail⟩

/-- A name is a word. -/
structure Named (d : Directive) : Prop where
  nonempty : d.name ≠ []
  word : ∀ c ∈ d.name, c ≠ ' '

theorem read_text {d : Directive} (h : d.Named) : read d.text = d := by
  obtain ⟨name, value⟩ := d
  obtain ⟨hNonempty, hWord⟩ := h
  obtain ⟨c, rest, rfl⟩ := List.exists_cons_of_ne_nil hNonempty
  have hFirst : (c :: rest ++ ' ' :: value).dropWhile (· = ' ') = c :: rest ++ ' ' :: value :=
    List.dropWhile_cons_of_neg (by simpa using hWord c List.mem_cons_self)
  have hName : ∀ a ∈ c :: rest, decide (a ≠ ' ') = true := fun a ha => decide_eq_true (hWord a ha)
  unfold read text
  simp only [hFirst]
  rw [List.takeWhile_append_of_pos hName, List.dropWhile_append_of_pos hName]
  simp

theorem read_blank (part : List Char) : read (' ' :: part) = read part := by
  unfold read
  rw [List.dropWhile_cons_of_pos (by simp)]

end Directive

/-- The directives of a header. -/
def directives (header : List Char) : List Directive := (header.splitOn ';').map Directive.read

def spaced : List Directive → List Char
  | [] => []
  | [d] => d.text
  | d :: ds => d.text ++ ';' :: ' ' :: spaced ds

theorem spaced_one (d : Directive) : spaced [d] = d.text := rfl

theorem spaced_cons (d next : Directive) (ds : List Directive) :
    spaced (d :: next :: ds) = d.text ++ ';' :: ' ' :: spaced (next :: ds) := rfl

theorem length_splitOn (c : Char) (text : List Char) :
    (text.splitOn c).length = text.count c + 1 := by
  induction text with
  | nil => rfl
  | cons a text ih =>
    rw [List.splitOn_cons_eq_if_modifyHead, List.count_cons]
    split
    · rename_i h
      rw [List.length_cons, ih]
    · rw [List.length_modifyHead, ih, Nat.add_zero]

theorem mem_of_mem_splitOn {α : Type*} [DecidableEq α] {a c : α} {text part : List α}
    (h : part ∈ text.splitOn a) (hc : c ∈ part) : c ∈ text ∧ c ≠ a := by
  induction text generalizing part with
  | nil =>
    rw [List.splitOn_nil] at h
    rw [List.mem_singleton.mp h] at hc
    cases hc
  | cons x text ih =>
    rw [List.splitOn_cons_eq_if_modifyHead] at h
    split at h
    · rcases List.mem_cons.mp h with rfl | h
      · cases hc
      · exact ⟨List.mem_cons_of_mem _ (ih h hc).1, (ih h hc).2⟩
    · rename_i hx
      obtain ⟨first, rest, hSplit⟩ := List.exists_cons_of_ne_nil (List.splitOn_ne_nil a text)
      rw [hSplit, List.modifyHead_cons] at h
      rcases List.mem_cons.mp h with rfl | h
      · rcases List.mem_cons.mp hc with rfl | hc
        · exact ⟨List.mem_cons_self, by simpa using hx⟩
        · have hFirst := ih (by rw [hSplit]; exact List.mem_cons_self) hc
          exact ⟨List.mem_cons_of_mem _ hFirst.1, hFirst.2⟩
      · have hRest := ih (by rw [hSplit]; exact List.mem_cons_of_mem _ h) hc
        exact ⟨List.mem_cons_of_mem _ hRest.1, hRest.2⟩

theorem length_directives (header : List Char) :
    (directives header).length = header.count ';' + 1 := by
  unfold directives
  rw [List.length_map, length_splitOn]

theorem directives_blank (rest : List Char) : directives (' ' :: rest) = directives rest := by
  unfold directives
  rw [List.splitOn_cons_eq_if_modifyHead, if_neg (by decide)]
  obtain ⟨part, parts, hParts⟩ := List.exists_cons_of_ne_nil (List.splitOn_ne_nil ';' rest)
  rw [hParts]
  exact congrArg (· :: parts.map Directive.read) (Directive.read_blank part)

/-- What may stand in a list. -/
structure Directive.Plain (d : Directive) : Prop extends d.Named where
  free : ';' ∉ d.text

theorem directives_spaced {ds : List Directive} (hSome : ds ≠ []) (h : ∀ d ∈ ds, d.Plain) :
    directives (spaced ds) = ds := by
  induction ds with
  | nil => exact absurd rfl hSome
  | cons d rest ih =>
    have hPlain := h d List.mem_cons_self
    cases rest with
    | nil =>
      rw [spaced_one, directives, List.splitOn_eq_singleton hPlain.free]
      exact congrArg (fun d => [d]) (Directive.read_text hPlain.toNamed)
    | cons next rest =>
      have ih := ih (List.cons_ne_nil _ _) fun e he => h e (List.mem_cons_of_mem d he)
      rw [spaced_cons, directives, List.splitOn_append_cons_self_of_not_mem hPlain.free, List.map_cons,
        Directive.read_text hPlain.toNamed]
      exact congrArg (d :: ·) ((directives_blank _).trans ih)

theorem count_spaced {ds : List Directive} (hSome : ds ≠ []) :
    (spaced ds).count ';' + 1 = (ds.map fun d => d.text.count ';').sum + ds.length := by
  induction ds with
  | nil => exact absurd rfl hSome
  | cons d rest ih =>
    cases rest with
    | nil => rfl
    | cons next rest =>
      have ih := ih (List.cons_ne_nil _ _)
      rw [spaced_cons, List.count_append, List.count_cons_self, List.count_cons_of_ne (by decide),
        List.map_cons, List.sum_cons, List.length_cons]
      omega

theorem free_of_length {ds : List Directive} (hSome : ds ≠ [])
    (hLength : (directives (spaced ds)).length = ds.length) : ∀ d ∈ ds, ';' ∉ d.text := by
  intro d hd
  rw [length_directives, count_spaced hSome] at hLength
  have hNone : (ds.map fun d => d.text.count ';').sum = 0 := by omega
  exact List.count_eq_zero.mp
    (List.sum_eq_zero_iff_forall_eq_nat.mp hNone _ (List.mem_map_of_mem hd))

end Text
