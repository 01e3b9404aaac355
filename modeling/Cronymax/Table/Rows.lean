import Mathlib.Data.List.Nodup
import Mathlib.Order.Lattice
import Mathlib.Data.List.Basic

/-! A table with a primary key: rows in the order of their keys.  A row whose key is there already is not
inserted.  A part of the table, given by a test, changes as a table of its own does as long as no key is
both in the part and outside it. -/

namespace Rows

variable {α κ : Type*} [LinearOrder κ] (key : α → κ)

/-- Keys are found by comparing. -/
scoped instance decidableMem (k : κ) (ks : List κ) : Decidable (k ∈ ks) :=
  List.instDecidableMemOfLawfulBEq k ks

/-- The keys ascend. -/
def Ordered (rows : List α) : Prop := rows.Pairwise fun a b => key a < key b

/-- A row comes to its place, unless its key is there. -/
def insertNew (a : α) (rows : List α) : List α :=
  if key a ∈ rows.map key then rows
  else rows.filter (key · < key a) ++ a :: rows.filter (key a < key ·)

variable {key} {a : α} {rows : List α}

theorem insertNew_old (h : key a ∈ rows.map key) : insertNew key a rows = rows := if_pos h

theorem insertNew_new (h : key a ∉ rows.map key) :
    insertNew key a rows = rows.filter (key · < key a) ++ a :: rows.filter (key a < key ·) := if_neg h

theorem mem_insertNew {b : α} :
    b ∈ insertNew key a rows ↔ b ∈ rows ∨ b = a ∧ key a ∉ rows.map key := by
  by_cases h : key a ∈ rows.map key
  · simp [insertNew_old h, h]
  · rw [insertNew_new h, List.mem_append, List.mem_cons, List.mem_filter, List.mem_filter,
      decide_eq_true_eq, decide_eq_true_eq]
    constructor
    · rintro (⟨hMem, _⟩ | rfl | ⟨hMem, _⟩)
      · exact .inl hMem
      · exact .inr ⟨rfl, h⟩
      · exact .inl hMem
    · rintro (hMem | ⟨rfl, _⟩)
      · rcases lt_trichotomy (key b) (key a) with hLess | hSame | hMore
        · exact .inl ⟨hMem, hLess⟩
        · exact absurd (List.mem_map.mpr ⟨b, hMem, hSame⟩) h
        · exact .inr (.inr ⟨hMem, hMore⟩)
      · exact .inr (.inl rfl)

theorem key_mem_insertNew : key a ∈ (insertNew key a rows).map key := by
  by_cases h : key a ∈ rows.map key
  · rwa [insertNew_old h]
  · exact List.mem_map_of_mem (mem_insertNew.mpr (.inr ⟨rfl, h⟩))

theorem Ordered.insertNew (h : Ordered key rows) : Ordered key (insertNew key a rows) := by
  by_cases hOld : key a ∈ rows.map key
  · rwa [insertNew_old hOld]
  · rw [insertNew_new hOld]
    refine List.pairwise_append.mpr ⟨h.filter _, List.pairwise_cons.mpr ⟨fun b hb => ?_, h.filter _⟩,
      fun b hb c hc => ?_⟩
    · simpa using (List.mem_filter.mp hb).2
    · have hLess : key b < key a := by simpa using (List.mem_filter.mp hb).2
      rcases List.mem_cons.mp hc with rfl | hRest
      · exact hLess
      · exact hLess.trans (by simpa using (List.mem_filter.mp hRest).2)

theorem filter_split {k : κ} (h : Ordered key rows) (hNew : k ∉ rows.map key) :
    rows.filter (key · < k) ++ rows.filter (k < key ·) = rows := by
  induction rows with
  | nil => rfl
  | cons b rest ih =>
    obtain ⟨hFirst, hRest⟩ := List.pairwise_cons.mp h
    rw [List.map_cons, List.mem_cons, not_or] at hNew
    rcases lt_or_gt_of_ne (Ne.symm hNew.1) with hLess | hMore
    · rw [List.filter_cons_of_pos (by simpa using hLess),
        List.filter_cons_of_neg (by simpa using hLess.le), List.cons_append, ih hRest hNew.2]
    · have hNone : (b :: rest).filter (key · < k) = [] := by
        refine List.filter_eq_nil_iff.mpr fun c hc => ?_
        rcases List.mem_cons.mp hc with rfl | hc
        · simpa using hMore.le
        · simpa using (hMore.trans (hFirst c hc)).le
      have hAll : (b :: rest).filter (k < key ·) = b :: rest := by
        refine List.filter_eq_self.mpr fun c hc => ?_
        rcases List.mem_cons.mp hc with rfl | hc
        · exact decide_eq_true hMore
        · exact decide_eq_true (hMore.trans (hFirst c hc))
      rw [hNone, hAll, List.nil_append]

theorem Ordered.eq_of_key (h : Ordered key rows) {b : α} (ha : a ∈ rows) (hb : b ∈ rows)
    (hKey : key a = key b) : a = b :=
  List.inj_on_of_nodup_map ((List.pairwise_map.mpr h).imp ne_of_lt) ha hb hKey

variable {part : α → Bool}

theorem filter_insertNew (ha : part a = true) (hApart : ∀ b ∈ rows, key b = key a → part b = true) :
    (insertNew key a rows).filter part = insertNew key a (rows.filter part) := by
  by_cases h : key a ∈ rows.map key
  · obtain ⟨b, hb, hKey⟩ := List.mem_map.mp h
    have hPart : key a ∈ (rows.filter part).map key :=
      List.mem_map.mpr ⟨b, List.mem_filter.mpr ⟨hb, hApart b hb hKey⟩, hKey⟩
    rw [insertNew_old h, insertNew_old hPart]
  · have hPart : key a ∉ (rows.filter part).map key := fun hMem => by
      obtain ⟨b, hb, hKey⟩ := List.mem_map.mp hMem
      exact h (List.mem_map.mpr ⟨b, (List.mem_filter.mp hb).1, hKey⟩)
    rw [insertNew_new h, insertNew_new hPart, List.filter_append, List.filter_cons_of_pos ha]
    simp only [List.filter_filter, Bool.and_comm]

theorem filter_insertNew_other (hOrdered : Ordered key rows) (ha : part a = false) :
    (insertNew key a rows).filter part = rows.filter part := by
  by_cases h : key a ∈ rows.map key
  · rw [insertNew_old h]
  · rw [insertNew_new h, List.filter_append, List.filter_cons_of_neg (by simp [ha]),
      ← List.filter_append, filter_split hOrdered h]

end Rows

namespace Selection

variable {α β : Type*} {l : List α} {i a : Nat}

def clip (n a : Nat) : Nat := if n ≤ a then n - 1 else a

theorem clip_lt {n : Nat} (a : Nat) (hn : 0 < n) : clip n a < n := by
  unfold clip
  split <;> omega

theorem getElem?_eraseIdx_clip (hi : i < l.length) (ha : a < l.length) (hne : a ≠ i)
    (h : a < i ∨ a + 1 = l.length) : (l.eraseIdx i)[clip (l.length - 1) a]? = l[a]? := by
  rcases h with h | h
  · have hClip : clip (l.length - 1) a = a := if_neg (by omega)
    rw [hClip, List.getElem?_eraseIdx, if_pos h]
  · have hClip : clip (l.length - 1) a = a - 1 := by
      unfold clip
      rw [if_pos (by omega)]
      omega
    have hLast : a - 1 + 1 = a := by omega
    rw [hClip, List.getElem?_eraseIdx, if_neg (by omega), hLast]

theorem getElem?_eraseIdx_clip_iff (hNodup : l.Nodup) (hi : i < l.length) (ha : a < l.length)
    (hne : a ≠ i) : (l.eraseIdx i)[clip (l.length - 1) a]? = l[a]? ↔ a < i ∨ a + 1 = l.length := by
  refine ⟨fun h => ?_, getElem?_eraseIdx_clip hi ha hne⟩
  by_contra hNot
  have hNext : a + 1 < l.length := by omega
  have hClip : clip (l.length - 1) a = a := if_neg (by omega)
  rw [hClip, List.getElem?_eraseIdx, if_neg (by omega), List.getElem?_eq_getElem hNext,
    List.getElem?_eq_getElem ha] at h
  have hSame := (List.Nodup.getElem_inj_iff hNodup).mp (Option.some.inj h)
  omega

end Selection
