import Mathlib.Algebra.Order.Group.Nat
import Mathlib.Data.List.Basic
import Mathlib.Tactic.Ring

/-! Numerals of a fixed width.  Of two numbers that fit, the smaller one has the smaller row of digits. -/

namespace Numeral

variable {b w n m : Nat}

@[grind =] def row (b : Nat) : Nat → Nat → List Nat
  | 0, _ => []
  | w + 1, n => row b w (n / b) ++ [n % b]

@[simp] theorem length_row (b w n : Nat) : (row b w n).length = w := by
  induction w generalizing n with
  | zero => rfl
  | succ w ih => rw [row, List.length_append, ih, List.length_singleton]

theorem lt_of_mem_row (hb : 0 < b) {d : Nat} (h : d ∈ row b w n) : d < b := by
  induction w generalizing n with
  | zero => cases h
  | succ w ih =>
    rcases List.mem_append.mp h with hBefore | hLast
    · exact ih hBefore
    · rw [List.mem_singleton.mp hLast]
      exact Nat.mod_lt n hb

theorem row_succ (b w n : Nat) : row b (w + 1) n = n / b ^ w % b :: row b w n := by
  induction w generalizing n with
  | zero => simp [row]
  | succ w ih =>
    rw [row, ih, Nat.div_div_eq_div_mul, ← Nat.pow_succ', List.cons_append]
    rfl

def value (b : Nat) (ds : List Nat) : Nat := ds.foldl (fun v d => b * v + d) 0

theorem value_concat (ds : List Nat) (d : Nat) : value b (ds ++ [d]) = b * value b ds + d := by
  simp [value]

theorem value_row (h : n < b ^ w) : value b (row b w n) = n := by
  induction w generalizing n with
  | zero =>
    obtain rfl : n = 0 := by simpa using h
    rfl
  | succ w ih =>
    rw [row, value_concat, ih (Nat.div_lt_of_lt_mul (by rwa [← Nat.pow_succ'])), Nat.div_add_mod]

theorem row_append (hb : 0 < b) {v : Nat} (hm : m < b ^ v) :
    row b w n ++ row b v m = row b (w + v) (n * b ^ v + m) := by
  induction v generalizing m with
  | zero =>
    obtain rfl : m = 0 := by simpa using hm
    simp [row]
  | succ v ih =>
    have hNext : m / b < b ^ v := Nat.div_lt_of_lt_mul (by rwa [← Nat.pow_succ'])
    have hPow : n * b ^ (v + 1) = b * (n * b ^ v) := by ring
    rw [row, ← List.append_assoc, ih hNext, ← Nat.add_assoc, row, hPow, Nat.mul_add_div hb,
      Nat.mul_add_mod]

theorem append_lt_append {α : Type*} [LT α] {x y : List α} (h : x < y) (hLength : x.length = y.length)
    (u v : List α) : x ++ u < y ++ v := by
  induction h with
  | nil => cases hLength
  | cons _ ih => exact .cons (ih (Nat.succ.inj hLength))
  | rel h => exact .rel h

theorem map_lt_map {α β : Type*} [LT α] [LT β] {f : α → β} {x y : List α} (h : x < y)
    (hf : ∀ a ∈ x, ∀ c ∈ y, a < c → f a < f c) : x.map f < y.map f := by
  induction h with
  | nil => exact .nil
  | cons _ ih =>
    exact .cons (ih fun a ha c hc => hf a (List.mem_cons_of_mem _ ha) c (List.mem_cons_of_mem _ hc))
  | rel h => exact .rel (hf _ List.mem_cons_self _ List.mem_cons_self h)

theorem row_lt_row (h : n < m) (hm : m < b ^ w) : row b w n < row b w m := by
  induction w generalizing n m with
  | zero =>
    rw [Nat.pow_zero] at hm
    omega
  | succ w ih =>
    have hb : 0 < b := by
      rcases Nat.eq_zero_or_pos b with rfl | hb
      · simp at hm
      · exact hb
    have hNext : m / b < b ^ w := Nat.div_lt_of_lt_mul (by rwa [← Nat.pow_succ'])
    rcases (Nat.div_le_div_right h.le : n / b ≤ m / b).lt_or_eq with hLess | hSame
    · exact append_lt_append (ih hLess hNext) (by simp) _ _
    · rw [row, row, hSame]
      have hn := Nat.div_add_mod n b
      have hm := Nat.div_add_mod m b
      rw [hSame] at hn
      exact List.append_left_lt (.rel (by omega))

theorem leftpad_toDigits (hb : 1 < b) (hw : 0 < w) (hn : n < b ^ w) :
    (Nat.toDigits b n).leftpad w '0' = (row b w n).map Nat.digitChar := by
  induction w generalizing n with
  | zero => omega
  | succ w ih =>
    rcases Nat.eq_zero_or_pos w with rfl | hw
    · have hOne : n < b := by simpa using hn
      simp [Nat.toDigits_of_lt_base hOne, row, Nat.mod_eq_of_lt hOne, List.leftpad]
    · have hNext : n / b < b ^ w := Nat.div_lt_of_lt_mul (by rwa [← Nat.pow_succ'])
      rw [row, List.map_append, ← ih hw hNext]
      rcases lt_or_ge n b with hOne | hMore
      · rw [Nat.toDigits_of_lt_base hOne, Nat.div_eq_of_lt hOne, Nat.mod_eq_of_lt hOne]
        obtain ⟨v, rfl⟩ := Nat.exists_eq_add_of_lt hw
        simp [List.leftpad, List.replicate_succ']
      · rw [Nat.toDigits_of_base_le hb hMore]
        simp [List.leftpad]

end Numeral
