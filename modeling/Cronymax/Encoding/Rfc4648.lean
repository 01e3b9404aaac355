import Mathlib.Algebra.Order.Group.Nat
import Mathlib.Data.Nat.Bitwise
import Mathlib.Tactic.Ring
import Mathlib.Data.List.Nodup

/-! The base 64 encodings of RFC 4648: the bits of the bytes in groups of six, each written as the
character of an alphabet, with or without padding to a multiple of four characters. -/

namespace Bits

/-- The last `w` bits of a number. -/
@[grind =] def bits : Nat → Nat → List Bool
  | 0, _ => []
  | w + 1, n => n.testBit w :: bits w n

/-- Bits as a number, the highest first. -/
def valueFrom (n : Nat) : List Bool → Nat
  | [] => n
  | b :: bs => valueFrom (2 * n + b.toNat) bs

def value (bs : List Bool) : Nat := valueFrom 0 bs

def zeros (k : Nat) : List Bool := List.replicate k false

def places (w : Nat) : Nat → Nat → List Nat
  | 0, _ => []
  | g + 1, n => n / 2 ^ (w * g) % 2 ^ w :: places w g n

/-- Digits of so many bits as a number. -/
def joinFrom (w n : Nat) : List Nat → Nat
  | [] => n
  | d :: ds => joinFrom w (n * 2 ^ w + d) ds

/-- Groups of `w` bits, the last one filled up with zeros. -/
def filled (w : Nat) (bs : List Bool) : List Nat :=
  if bs = [] ∨ w = 0 then []
  else value (bs.take w ++ zeros (w - bs.length)) :: filled w (bs.drop w)
termination_by bs.length
decreasing_by
  rename_i h
  have hPos : 0 < bs.length := List.length_pos_iff.mpr fun hNil => h (.inl hNil)
  rw [List.length_drop]
  omega

/-- Groups of `w` bits, without an incomplete one at the end. -/
def whole (w : Nat) (bs : List Bool) : List Nat :=
  if bs.length < w ∨ w = 0 then [] else value (bs.take w) :: whole w (bs.drop w)
termination_by bs.length
decreasing_by
  rw [List.length_drop]
  omega

@[simp] theorem length_bits (w n : Nat) : (bits w n).length = w := by
  induction w with
  | zero => rfl
  | succ w ih => rw [bits, List.length_cons, ih]

@[simp] theorem length_zeros (k : Nat) : (zeros k).length = k := List.length_replicate

theorem bits_add (m k n : Nat) : bits (m + k) n = bits m (n / 2 ^ k) ++ bits k n := by
  induction m with
  | zero => rw [Nat.zero_add]; rfl
  | succ m ih =>
    rw [Nat.add_right_comm, bits, ih, bits, Nat.testBit_div_two_pow, List.cons_append]

theorem bits_shifted {k m : Nat} (hm : m ≤ k) (n : Nat) : bits m (n * 2 ^ k) = zeros m := by
  induction m with
  | zero => rfl
  | succ m ih =>
    have hZero : (n * 2 ^ k).testBit m = false := by
      rw [Nat.testBit_mul_two_pow, decide_eq_false (by omega), Bool.false_and]
    rw [bits, hZero, ih (by omega)]
    rfl

theorem bits_zeros (w k n : Nat) : bits w n ++ zeros k = bits (w + k) (n * 2 ^ k) := by
  rw [bits_add, Nat.mul_div_cancel _ (Nat.two_pow_pos k), bits_shifted (Nat.le_refl k)]

theorem bits_mod {m k : Nat} (hm : m ≤ k) (n : Nat) : bits m (n % 2 ^ k) = bits m n := by
  induction m with
  | zero => rfl
  | succ m ih =>
    rw [bits, bits, Nat.testBit_mod_two_pow, decide_eq_true (by omega), Bool.true_and, ih (by omega)]

theorem valueFrom_eq (n : Nat) (bs : List Bool) :
    valueFrom n bs = n * 2 ^ bs.length + value bs := by
  induction bs generalizing n with
  | nil => simp [valueFrom, value]
  | cons b bs ih =>
    have hFirst : value (b :: bs) = b.toNat * 2 ^ bs.length + value bs := by
      rw [value, valueFrom, Nat.mul_zero, Nat.zero_add, ih]
    rw [valueFrom, ih, hFirst, List.length_cons, Nat.pow_succ]
    ring

theorem value_cons (b : Bool) (bs : List Bool) :
    value (b :: bs) = b.toNat * 2 ^ bs.length + value bs := by
  rw [value, valueFrom, Nat.mul_zero, Nat.zero_add, valueFrom_eq]

theorem value_lt (bs : List Bool) : value bs < 2 ^ bs.length := by
  induction bs with
  | nil => exact Nat.one_pos
  | cons b bs ih =>
    have hBit := Nat.mul_le_mul_right (2 ^ bs.length) (Bool.toNat_le b)
    rw [value_cons, List.length_cons, Nat.pow_succ]
    omega

theorem value_bits (w n : Nat) : value (bits w n) = n % 2 ^ w := by
  induction w with
  | zero => rw [Nat.pow_zero, Nat.mod_one]; rfl
  | succ w ih =>
    rw [bits, value_cons, length_bits, ih, Nat.toNat_testBit, Nat.mod_pow_succ]
    ring

theorem bits_value (bs : List Bool) : bits bs.length (value bs) = bs := by
  induction bs with
  | nil => rfl
  | cons b bs ih =>
    have hLow : (b.toNat * 2 ^ bs.length + value bs) % 2 ^ bs.length = value bs := by
      rw [Nat.mul_add_mod_self_right, Nat.mod_eq_of_lt (value_lt bs)]
    have hTop : (b.toNat * 2 ^ bs.length + value bs).testBit bs.length = b := by
      rw [Nat.testBit_eq_decide_div_mod_eq, Nat.add_comm,
        Nat.add_mul_div_right _ _ (Nat.two_pow_pos _), Nat.div_eq_of_lt (value_lt bs), Nat.zero_add]
      cases b <;> rfl
    rw [List.length_cons, value_cons, bits, hTop, ← bits_mod (Nat.le_refl _), hLow, ih]

theorem filled_nil (w : Nat) : filled w [] = [] := by
  rw [filled, if_pos (.inl rfl)]

theorem filled_append {w : Nat} {group rest : List Bool} (hw : 0 < w) (h : group.length = w) :
    filled w (group ++ rest) = value group :: filled w rest := by
  have hSome : group ++ rest ≠ [] := fun hNil => by
    rw [(List.append_eq_nil_iff.mp hNil).1, List.length_nil] at h
    omega
  have hFull : w - (group ++ rest).length = 0 := by
    rw [List.length_append]
    omega
  rw [filled, if_neg (not_or.mpr ⟨hSome, Nat.ne_of_gt hw⟩), hFull, List.take_left' h,
    List.drop_left' h]
  exact congrArg (fun bs => value bs :: _) (List.append_nil group)

theorem filled_short {w : Nat} {bs : List Bool} (hSome : bs ≠ []) (h : bs.length ≤ w) :
    filled w bs = [value (bs ++ zeros (w - bs.length))] := by
  have hPos := List.length_pos_iff.mpr hSome
  rw [filled, if_neg (not_or.mpr ⟨hSome, by omega⟩), List.take_of_length_le h,
    List.drop_eq_nil_of_le h, filled_nil]

theorem whole_append {w : Nat} {group rest : List Bool} (hw : 0 < w) (h : group.length = w) :
    whole w (group ++ rest) = value group :: whole w rest := by
  have hLong : ¬((group ++ rest).length < w ∨ w = 0) := by
    rw [List.length_append]
    omega
  rw [whole, if_neg hLong, List.take_left' h, List.drop_left' h]

theorem whole_short {w : Nat} {bs : List Bool} (h : bs.length < w) : whole w bs = [] := by
  rw [whole, if_pos (.inl h)]

theorem filled_bits {w : Nat} (hw : 0 < w) (g n : Nat) (rest : List Bool) :
    filled w (bits (w * g) n ++ rest) = places w g n ++ filled w rest := by
  induction g with
  | zero => rfl
  | succ g ih =>
    rw [Nat.mul_succ, Nat.add_comm, bits_add, List.append_assoc,
      filled_append hw (length_bits w _), ih, value_bits]
    rfl

theorem flatMap_bits {w : Nat} {ds : List Nat} (h : ∀ d ∈ ds, d < 2 ^ w) (k n : Nat) :
    bits k n ++ ds.flatMap (bits w) = bits (k + w * ds.length) (joinFrom w n ds) := by
  induction ds generalizing k n with
  | nil => rw [List.flatMap_nil, List.append_nil]; rfl
  | cons d ds ih =>
    have hd := h d List.mem_cons_self
    have hTop : (n * 2 ^ w + d) / 2 ^ w = n := by
      rw [Nat.add_comm, Nat.add_mul_div_right _ _ (Nat.two_pow_pos w), Nat.div_eq_of_lt hd,
        Nat.zero_add]
    have hLow : bits w (n * 2 ^ w + d) = bits w d := by
      rw [← bits_mod (Nat.le_refl w), Nat.mul_add_mod_self_right, bits_mod (Nat.le_refl w)]
    have hStep : bits k n ++ bits w d = bits (k + w) (n * 2 ^ w + d) := by
      rw [bits_add, hTop, hLow]
    rw [List.flatMap_cons, ← List.append_assoc, hStep, ih fun e he => h e (List.mem_cons_of_mem _ he),
      List.length_cons, Nat.mul_succ, Nat.add_assoc, Nat.add_comm w]
    rfl

theorem split_row {w : Nat} {bs : List Bool} (h : w ≤ bs.length) :
    ∃ group rest, bs = group ++ rest ∧ group.length = w :=
  ⟨bs.take w, bs.drop w, (List.take_append_drop w bs).symm, List.length_take_of_le h⟩

/-- An induction over the groups of a row. -/
theorem groups_induction {P : List Bool → Prop} {w : Nat} (hw : 0 < w)
    (hShort : ∀ bs, bs.length < w → P bs)
    (hGroup : ∀ group rest, group.length = w → P rest → P (group ++ rest)) (bs : List Bool) : P bs := by
  induction hn : bs.length using Nat.strong_induction_on generalizing bs with
  | _ n ih =>
    by_cases h : bs.length < w
    · exact hShort bs h
    · obtain ⟨group, rest, rfl, hLength⟩ := split_row (Nat.not_lt.mp h)
      rw [List.length_append] at hn
      exact hGroup group rest hLength (ih rest.length (by omega) rest rfl)

theorem length_filled {w : Nat} (hw : 0 < w) (bs : List Bool) :
    (filled w bs).length = (bs.length + (w - 1)) / w := by
  induction bs using groups_induction hw with
  | hShort bs h =>
    by_cases hSome : bs = []
    · subst hSome
      have hLast : w - 1 < w := by omega
      simp only [filled_nil, List.length_nil, Nat.zero_add, Nat.div_eq_of_lt hLast]
    · have hPos := List.length_pos_iff.mpr hSome
      rw [filled_short hSome (Nat.le_of_lt h), List.length_singleton]
      exact (Nat.div_eq_of_lt_le (by omega) (by omega)).symm
  | hGroup group rest h ih =>
    rw [filled_append hw h, List.length_cons, ih, List.length_append, h, Nat.add_assoc,
      Nat.add_div_left _ hw]

theorem lt_of_mem_filled {w n : Nat} (hw : 0 < w) {bs : List Bool} (hn : n ∈ filled w bs) :
    n < 2 ^ w := by
  induction bs using groups_induction hw with
  | hShort bs h =>
    by_cases hSome : bs = []
    · rw [hSome, filled_nil] at hn
      cases hn
    · rw [filled_short hSome (Nat.le_of_lt h)] at hn
      have hValue := value_lt (bs ++ zeros (w - bs.length))
      rw [List.length_append, length_zeros, Nat.add_sub_of_le (Nat.le_of_lt h)] at hValue
      rwa [List.mem_singleton.mp hn]
  | hGroup group rest h ih =>
    rw [filled_append hw h] at hn
    rcases List.mem_cons.mp hn with rfl | hn
    · exact h ▸ value_lt group
    · exact ih hn

theorem filled_zeros {w k : Nat} (hk : k < w) {bs : List Bool} (h : w ∣ bs.length + k) :
    filled w bs = filled w (bs ++ zeros k) := by
  have hw : 0 < w := by omega
  induction bs using groups_induction hw with
  | hShort bs hLength =>
    by_cases hSome : bs = []
    · subst hSome
      rw [List.length_nil, Nat.zero_add] at h
      rw [Nat.eq_zero_of_dvd_of_lt h hk]
      rfl
    · have hPos := List.length_pos_iff.mpr hSome
      have hFill : w - bs.length = k := by
        have hOnce := Nat.eq_of_dvd_of_lt_two_mul (by omega) h (by omega)
        omega
      have hFull : (bs ++ zeros k).length = w := by
        rw [List.length_append, length_zeros]
        omega
      rw [filled_short hSome (Nat.le_of_lt hLength), hFill, ← List.append_nil (bs ++ zeros k),
        filled_append hw hFull, filled_nil, List.append_nil]
  | hGroup group rest hGroup ih =>
    rw [List.length_append, hGroup, Nat.add_assoc] at h
    rw [List.append_assoc, filled_append hw hGroup, filled_append hw hGroup,
      ih ((Nat.dvd_add_right (Nat.dvd_refl w)).mp h)]

theorem flatMap_filled {w : Nat} (hw : 0 < w) (bs : List Bool) :
    ∃ k < w, (filled w bs).flatMap (bits w) = bs ++ zeros k := by
  induction bs using groups_induction hw with
  | hShort bs h =>
    by_cases hSome : bs = []
    · refine ⟨0, hw, ?_⟩
      rw [hSome, filled_nil]
      rfl
    · have hPos := List.length_pos_iff.mpr hSome
      have hFull : (bs ++ zeros (w - bs.length)).length = w := by
        rw [List.length_append, length_zeros]
        omega
      refine ⟨w - bs.length, by omega, ?_⟩
      have hOnly := bits_value (bs ++ zeros (w - bs.length))
      rw [hFull] at hOnly
      rw [filled_short hSome (Nat.le_of_lt h), List.flatMap_singleton, hOnly]
  | hGroup group rest h ih =>
    obtain ⟨k, hk, hRest⟩ := ih
    refine ⟨k, hk, ?_⟩
    have hFirst : bits w (value group) = group := h ▸ bits_value group
    rw [filled_append hw h, List.flatMap_cons, hRest, hFirst, List.append_assoc]

theorem whole_flatMap {w : Nat} (hw : 0 < w) {ns : List Nat} (h : ∀ n ∈ ns, n < 2 ^ w)
    {rest : List Bool} (hRest : rest.length < w) : whole w (ns.flatMap (bits w) ++ rest) = ns := by
  induction ns with
  | nil => exact whole_short hRest
  | cons n ns ih =>
    have hFirst : n % 2 ^ w = n := Nat.mod_eq_of_lt (h n List.mem_cons_self)
    rw [List.flatMap_cons, List.append_assoc, whole_append hw (length_bits w n), value_bits, hFirst,
      ih fun m hm => h m (List.mem_cons_of_mem _ hm)]

end Bits

namespace Rfc4648

open Bits (bits value filled whole zeros)

/-- Sixty-four characters, each once. -/
structure Alphabet where
  chars : List Char
  length : chars.length = 64
  nodup : chars.Nodup
  unpadded : '=' ∉ chars

namespace Alphabet

def standard : Alphabet where
  chars := "ABCDEFGHIJKLMNOPQRSTUVWXYZabcdefghijklmnopqrstuvwxyz0123456789+/".toList
  length := by rw [String.toList_ofList]; decide
  nodup := by rw [String.toList_ofList]; exact List.Nodup.of_map Char.toNat (by decide +kernel)
  unpadded := by rw [String.toList_ofList]; decide

def urlSafe : Alphabet where
  chars := "ABCDEFGHIJKLMNOPQRSTUVWXYZabcdefghijklmnopqrstuvwxyz0123456789-_".toList
  length := by rw [String.toList_ofList]; decide
  nodup := by rw [String.toList_ofList]; exact List.Nodup.of_map Char.toNat (by decide +kernel)
  unpadded := by rw [String.toList_ofList]; decide

variable (A : Alphabet)

def char (d : Nat) : Char := A.chars.getD d '='

def digit (c : Char) : Option Nat := A.chars.findIdx? (· = c)

/-- Bytes in groups of six bits, the last one filled up with zeros. -/
@[grind =] def digits (bytes : List UInt8) : List Nat := filled 6 (bytes.flatMap fun b => bits 8 b.toNat)

/-- The encoding without padding. -/
def encode (bytes : List UInt8) : List Char := (digits bytes).map A.char

def padding (n : Nat) : List Char := List.replicate ((4 - n % 4) % 4) '='

/-- The encoding with padding. -/
def encodePadded (bytes : List UInt8) : List Char :=
  A.encode bytes ++ padding (A.encode bytes).length

/-- The bytes that a text without padding encodes. -/
def decode (text : List Char) : Option (List UInt8) :=
  if text.length % 4 = 1 then none
  else (text.mapM A.digit).map fun ds => (whole 8 (ds.flatMap (bits 6))).map UInt8.ofNat

/-- The bytes that a text with padding encodes. -/
def decodePadded (text : List Char) : Option (List UInt8) :=
  let body := text.takeWhile (· ≠ '=')
  if text = body ++ padding body.length then A.decode body else none

theorem row_join (bytes : List UInt8) : (bytes.flatMap fun b => bits 8 b.toNat) =
    bits (8 * bytes.length) (Bits.joinFrom 8 0 (bytes.map UInt8.toNat)) := by
  have hBytes : ∀ n ∈ bytes.map UInt8.toNat, n < 2 ^ 8 := by
    intro n hn
    obtain ⟨b, -, rfl⟩ := List.mem_map.mp hn
    exact b.toNat_lt
  have hJoin := Bits.flatMap_bits hBytes 0 0
  rw [List.flatMap_map, List.length_map, Nat.zero_add] at hJoin
  exact hJoin

theorem digits_nil : digits [] = [] := Bits.filled_nil 6

theorem digits_group (a b c : UInt8) (rest : List UInt8) : digits (a :: b :: c :: rest) =
    Bits.places 6 4 ((a.toNat * 2 ^ 8 + b.toNat) * 2 ^ 8 + c.toNat) ++ digits rest := by
  have hRow := row_join [a, b, c]
  have hNumber : Bits.joinFrom 8 0 ([a, b, c].map UInt8.toNat) =
      (a.toNat * 2 ^ 8 + b.toNat) * 2 ^ 8 + c.toNat := by
    simp only [List.map_cons, List.map_nil, Bits.joinFrom, Nat.zero_mul, Nat.zero_add]
  rw [hNumber] at hRow
  rw [digits, show a :: b :: c :: rest = [a, b, c] ++ rest from rfl, List.flatMap_append, hRow]
  exact Bits.filled_bits (by decide) 4 _ _

theorem digits_rest {bytes : List UInt8} {g k : Nat} (hk : k < 6)
    (hg : 8 * bytes.length + k = 6 * g) :
    digits bytes = Bits.places 6 g (Bits.joinFrom 8 0 (bytes.map UInt8.toNat) * 2 ^ k) := by
  have hFull : 6 ∣ (bytes.flatMap fun b => bits 8 b.toNat).length + k := by
    rw [row_join, Bits.length_bits]
    exact ⟨g, hg⟩
  have hDigits := Bits.filled_bits (by decide : 0 < 6) g
    (Bits.joinFrom 8 0 (bytes.map UInt8.toNat) * 2 ^ k) []
  rw [digits, Bits.filled_zeros hk hFull, row_join, Bits.bits_zeros, hg]
  rwa [List.append_nil, Bits.filled_nil, List.append_nil] at hDigits

variable {A}

theorem char_mem {d : Nat} (h : d < 64) : A.char d ∈ A.chars := by
  rw [char, List.getD_eq_getElem _ _ (by rw [A.length]; exact h)]
  exact List.getElem_mem _

theorem digit_char {d : Nat} (h : d < 64) : A.digit (A.char d) = some d := by
  have hd : d < A.chars.length := A.length ▸ h
  rw [digit, char, List.getD_eq_getElem _ _ hd, List.findIdx?_eq_some_iff_getElem]
  refine ⟨hd, decide_eq_true rfl, fun j hj hSame => ?_⟩
  have hIndex := (List.Nodup.getElem_inj_iff A.nodup).mp (of_decide_eq_true hSame)
  omega

theorem digit_lt {d : Nat} {bytes : List UInt8} (h : d ∈ digits bytes) : d < 64 :=
  Bits.lt_of_mem_filled (by decide) h

theorem length_row (bytes : List UInt8) :
    (bytes.flatMap fun b => bits 8 b.toNat).length = 8 * bytes.length := by
  induction bytes with
  | nil => rfl
  | cons b bytes ih =>
    rw [List.flatMap_cons, List.length_append, Bits.length_bits, ih, List.length_cons]
    omega

theorem length_encode (bytes : List UInt8) : (A.encode bytes).length = (4 * bytes.length + 2) / 3 := by
  rw [encode, List.length_map, digits, Bits.length_filled (by decide), length_row]
  omega

theorem length_encodePadded (bytes : List UInt8) :
    (A.encodePadded bytes).length = 4 * ((bytes.length + 2) / 3) := by
  rw [encodePadded, List.length_append, padding, List.length_replicate, length_encode]
  omega

theorem encode_chars {bytes : List UInt8} {c : Char} (h : c ∈ A.encode bytes) : c ∈ A.chars := by
  obtain ⟨d, hd, rfl⟩ := List.mem_map.mp h
  exact char_mem (digit_lt hd)

theorem mapM_digit {ds : List Nat} (h : ∀ d ∈ ds, d < 64) : (ds.map A.char).mapM A.digit = some ds := by
  induction ds with
  | nil => rfl
  | cons d ds ih =>
    rw [List.map_cons, List.mapM_cons, digit_char (h d List.mem_cons_self),
      ih fun e he => h e (List.mem_cons_of_mem _ he)]
    rfl

theorem decode_encode (bytes : List UInt8) : A.decode (A.encode bytes) = some bytes := by
  obtain ⟨k, hk, hRow⟩ := Bits.flatMap_filled (by decide : 0 < 6) (bytes.flatMap fun b => bits 8 b.toNat)
  have hBytes : (bytes.flatMap fun b => bits 8 b.toNat) = (bytes.map UInt8.toNat).flatMap (bits 8) := by
    rw [List.flatMap_map]
  have hLong : (A.encode bytes).length % 4 ≠ 1 := by
    rw [length_encode]
    omega
  have hWhole : whole 8 ((digits bytes).flatMap (bits 6)) = bytes.map UInt8.toNat := by
    rw [digits, hRow, hBytes]
    refine Bits.whole_flatMap (by decide) (fun n hn => ?_) ?_
    · obtain ⟨b, -, rfl⟩ := List.mem_map.mp hn
      exact b.toNat_lt
    · rw [Bits.length_zeros]
      omega
  rw [decode, if_neg hLong, encode, mapM_digit fun d hd => digit_lt hd, Option.map_some, hWhole,
    List.map_map]
  refine congrArg some ((List.map_congr_left fun b _ => ?_).trans (List.map_id bytes))
  exact UInt8.ofNat_toNat

theorem decodePadded_encodePadded (bytes : List UInt8) :
    A.decodePadded (A.encodePadded bytes) = some bytes := by
  have hBody : (A.encodePadded bytes).takeWhile (· ≠ '=') = A.encode bytes := by
    have hFree : ∀ c ∈ A.encode bytes, decide (c ≠ '=') = true := fun c hc =>
      decide_eq_true fun hPad => A.unpadded (hPad ▸ encode_chars hc)
    have hPadding (n : Nat) : (padding n).takeWhile (· ≠ '=') = [] := by
      rw [padding, List.takeWhile_replicate]
      exact if_neg (by simp)
    rw [encodePadded, List.takeWhile_append_of_pos hFree, hPadding, List.append_nil]
  unfold decodePadded
  rw [hBody]
  exact (if_pos rfl).trans (decode_encode bytes)

end Alphabet

end Rfc4648
