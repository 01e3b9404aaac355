import Mathlib.Algebra.Order.BigOperators.Group.Finset
import Mathlib.Algebra.Order.Group.Multiset
import Mathlib.Data.Fintype.BigOperators

/-! Writers that replace a file as a whole.  Each writer reads the file, edits its copy, writes the
result to a temporary file that all of them share, and renames that file.  The lineage of the file
names the writers whose edits it holds: it is what the same steps make of a list of names, and the
file is the fold of the edits over its lineage. -/

namespace Atomic

/-- One step of a call that reads a file, edits its copy and writes it back by way of a temporary file. -/
inductive FileStep where
  | read
  | write
  | rename
deriving DecidableEq

/-- The file, the temporary one and the copy of each call. -/
structure Files (ι D : Type*) where
  file : D
  tmp : Option D
  copy : ι → D

namespace Files

variable {ι D E : Type*}

def start (d : D) : Files ι D := ⟨d, none, fun _ => d⟩

theorem foldl_view {γ : Type*} (view : D → List γ) {edit : ι → D → D} {content : ι → List γ}
    (hEdit : ∀ i d, view (edit i d) = view d ++ content i) (names : List ι) (d : D) :
    view (names.foldl (fun d i => edit i d) d) = view d ++ names.flatMap content := by
  induction names generalizing d with
  | nil => simp
  | cons i names ih => rw [List.foldl_cons, ih, hEdit, List.flatMap_cons, List.append_assoc]

theorem coe_flatMap {γ : Type*} (names : List ι) (content : ι → List γ) :
    (↑(names.flatMap content) : Multiset γ) = (names.map fun i => (content i : Multiset γ)).sum := by
  induction names with
  | nil => rfl
  | cons i names ih => rw [List.flatMap_cons, ← Multiset.coe_add, ih, List.map_cons, List.sum_cons]

/-- Nobody is named twice, or before it has written. -/
def Named (steps : List (ι × FileStep)) (names : List ι) : Prop :=
  names.Nodup ∧ ∀ i ∈ names, (i, .write) ∈ steps

theorem Named.mono {steps steps' : List (ι × FileStep)} {names : List ι} (h : Named steps names) :
    Named (steps ++ steps') names :=
  ⟨h.1, fun i hi => List.mem_append_left _ (h.2 i hi)⟩

variable [DecidableEq ι]

/-- One step of one call. -/
def step (edit : ι → D → D) (f : Files ι D) : ι × FileStep → Files ι D
  | (i, .read) => { f with copy := Function.update f.copy i f.file }
  | (i, .write) => { f with tmp := some (edit i (f.copy i)) }
  | (_, .rename) => { f with file := f.tmp.getD f.file, tmp := none }

def run (edit : ι → D → D) (f : Files ι D) (steps : List (ι × FileStep)) : Files ι D :=
  steps.foldl (step edit) f

@[simp] theorem run_append (edit : ι → D → D) (f : Files ι D) (steps steps' : List (ι × FileStep)) :
    run edit f (steps ++ steps') = run edit (run edit f steps) steps' :=
  List.foldl_append

def named (i : ι) (names : List ι) : List ι := names ++ [i]

/-- The calls whose edits the file carries. -/
def lineage (steps : List (ι × FileStep)) : List ι := (run named (start []) steps).file

/-- What is kept is seen through a function. -/
def map (φ : D → E) (f : Files ι D) : Files ι E := ⟨φ f.file, f.tmp.map φ, φ ∘ f.copy⟩

theorem map_run (φ : D → E) {edit : ι → D → D} {edit' : ι → E → E}
    (hEdit : ∀ i d, φ (edit i d) = edit' i (φ d)) (f : Files ι D) (steps : List (ι × FileStep)) :
    (run edit f steps).map φ = run edit' (f.map φ) steps := by
  induction steps generalizing f with
  | nil => rfl
  | cons e steps ih =>
    refine (ih (step edit f e)).trans (congrArg (run edit' · steps) ?_)
    obtain ⟨i, s⟩ := e
    cases s with
    | read => simp [step, map, Function.comp_update]
    | write => simp [step, map, hEdit]
    | rename => cases hTmp : f.tmp <;> simp [step, map, hTmp]

theorem file_run (edit : ι → D → D) (d : D) (steps : List (ι × FileStep)) :
    (run edit (start d) steps).file = (lineage steps).foldl (fun d i => edit i d) d := by
  have hEdit (i : ι) (names : List ι) :
      (named i names).foldl (fun d i => edit i d) d =
        edit i (names.foldl (fun d i => edit i d) d) := by simp [named]
  exact (congrArg file (map_run (fun names => names.foldl (fun d i => edit i d) d) hEdit
    (start []) steps)).symm

theorem run_named {steps : List (ι × FileStep)} (hOnce : ∀ i, steps.count (i, .write) ≤ 1) :
    Named steps (run named (start []) steps).file ∧
      (∀ names ∈ (run named (start []) steps).tmp, Named steps names) ∧
      ∀ i, Named steps ((run named (start []) steps).copy i) := by
  induction steps using List.reverseRecOn with
  | nil => simp [run, start, Named]
  | append_singleton steps e ih =>
    have hBefore : ∀ i, steps.count (i, .write) ≤ 1 := fun i =>
      (List.Sublist.count_le _ (List.sublist_append_left _ _)).trans (hOnce i)
    obtain ⟨hFile, hTmp, hCopy⟩ := ih hBefore
    obtain ⟨i, s⟩ := e
    rw [run_append]
    generalize run named (start []) steps = f at hFile hTmp hCopy ⊢
    refine ⟨?file, ?tmp, ?copy⟩
    case file =>
      cases s with
      | read | write => exact hFile.mono
      | rename =>
        cases h : f.tmp with
        | none => simpa [run, step, h] using hFile.mono
        | some names => simpa [run, step, h] using (hTmp names h).mono
    case tmp =>
      cases s with
      | read => exact fun names h => (hTmp names h).mono
      | rename => exact fun names h => nomatch h
      | write =>
        intro names h
        obtain rfl := Option.some.inj h
        -- the writer has not written before, so its copy does not name it
        have hNew : (i, .write) ∉ steps := fun hMem => by
          have hCount := hOnce i
          rw [List.count_append, List.count_singleton_self] at hCount
          have := List.count_pos_iff.mpr hMem
          omega
        have hCopy := hCopy i
        refine ⟨List.Nodup.append hCopy.1 (List.nodup_singleton i) ?_, fun j hj => ?_⟩
        · exact List.disjoint_singleton.mpr fun hMem => hNew (hCopy.2 i hMem)
        · rcases List.mem_append.mp hj with hj | hj
          · exact List.mem_append_left _ (hCopy.2 j hj)
          · simp [List.mem_singleton.mp hj]
    case copy =>
      cases s with
      | write | rename => exact fun j => (hCopy j).mono
      | read =>
        intro j
        by_cases hj : j = i
        · subst hj
          simpa [run, step] using hFile.mono
        · simpa [run, step, Function.update_of_ne hj] using (hCopy j).mono

theorem lineage_nodup {steps : List (ι × FileStep)} (hOnce : ∀ i, steps.count (i, .write) ≤ 1) :
    (lineage steps).Nodup :=
  (run_named hOnce).1.1

theorem coe_flatMap_eq_sum_iff {γ : Type*} [Fintype ι] {names : List ι} (hNodup : names.Nodup)
    (content : ι → List γ) :
    (↑(names.flatMap content) : Multiset γ) = ∑ i, (content i : Multiset γ) ↔
      ∀ i, content i ≠ [] → i ∈ names := by
  rw [coe_flatMap, ← List.sum_toFinset _ hNodup, ← Finset.sum_add_sum_compl names.toFinset,
    left_eq_add, Finset.sum_eq_zero_iff]
  simp only [Finset.mem_compl, List.mem_toFinset, Multiset.coe_eq_zero]
  exact forall_congr' fun i => ⟨fun h hi => by_contra fun hn => hi (h hn),
    fun h hn => by_contra fun hi => hn (h hi)⟩

end Files

end Atomic
