import Mathlib.Algebra.Order.Floor.Div
import Cronymax.Encoding.Rfc4648
import Cronymax.Utf8.Lossy

/-! The two encoders that the source writes by hand: `base64_encode` for images and `b64url_encode` for the
challenges of PKCE.  An index out of range, where the code panics, is `none`. -/

namespace Cronymax.Encoding

open Rfc4648 (Alphabet)
open Rfc4648.Alphabet (digits)

section Encoder

variable {α : Type} (alphabet : List α) (top : UInt32 → UInt32)

/-- Six bits of a group. -/
def digitOf (n shift : UInt32) : UInt32 := (n >>> shift) &&& 0x3f

/-- Three bytes at `i` as one number. -/
def groupAt (data : List UInt8) (i : Nat) : Option UInt32 := do
  let a ← data[i]?
  let b ← data[i + 1]?
  let c ← data[i + 2]?
  some (a.toUInt32 <<< 16 ||| b.toUInt32 <<< 8 ||| c.toUInt32)

/-- The loop over groups of three bytes. -/
def encodeGroups (data : List UInt8) (i : Nat) (out : List α) : Option (Nat × List α) :=
  if i + 3 ≤ data.length then do
    let n ← groupAt data i
    let c₀ ← alphabet[(top n).toNat]?
    let c₁ ← alphabet[(digitOf n 12).toNat]?
    let c₂ ← alphabet[(digitOf n 6).toNat]?
    let c₃ ← alphabet[(n &&& 0x3f).toNat]?
    encodeGroups data (i + 3) (out ++ [c₀, c₁, c₂, c₃])
  else some (i, out)
termination_by data.length - i

/-- The one or two bytes that are left. -/
def encodeRest (padding : Nat → List α) (data : List UInt8) (i : Nat) (out : List α) :
    Option (List α) := do
  if data.length - i = 1 then
    let a ← data[i]?
    let n := a.toUInt32 <<< 16
    let c₀ ← alphabet[(top n).toNat]?
    let c₁ ← alphabet[(digitOf n 12).toNat]?
    some (out ++ [c₀, c₁] ++ padding 1)
  else if data.length - i = 2 then
    let a ← data[i]?
    let b ← data[i + 1]?
    let n := a.toUInt32 <<< 16 ||| b.toUInt32 <<< 8
    let c₀ ← alphabet[(top n).toNat]?
    let c₁ ← alphabet[(digitOf n 12).toNat]?
    let c₂ ← alphabet[(digitOf n 6).toNat]?
    some (out ++ [c₀, c₁, c₂] ++ padding 2)
  else some out

/-- The two encoders of the source, apart from their padding. -/
def encodeWith (padding : Nat → List α) (data : List UInt8) : Option (List α) := do
  let (i, out) ← encodeGroups alphabet top data 0 []
  encodeRest alphabet top padding data i out

end Encoder

def ascii (text : String) : List UInt8 := text.toList.map fun c => UInt8.ofNat c.val.toNat

/-- `base64_encode`. -/
def base64Encode (data : List UInt8) : Option (List Char) :=
  let padding (rest : Nat) := if rest = 1 then ascii "==" else ascii "="
  (encodeWith (ascii "ABCDEFGHIJKLMNOPQRSTUVWXYZabcdefghijklmnopqrstuvwxyz0123456789+/")
    (fun n => n >>> 18) padding data).map fun out => (Utf8.text? out).getD []

/-- `b64url_encode`. -/
def b64urlEncode (bytes : List UInt8) : Option (List Char) :=
  encodeWith "ABCDEFGHIJKLMNOPQRSTUVWXYZabcdefghijklmnopqrstuvwxyz0123456789-_".toList
    (fun n => digitOf n 18) (fun _ => []) bytes

theorem toNat_digitOf (n : UInt32) {shift : UInt32} (h : shift.toNat < 32) :
    (digitOf n shift).toNat = n.toNat / 2 ^ shift.toNat % 2 ^ 6 := by
  rw [digitOf, UInt32.toNat_and, UInt32.toNat_shiftRight, Nat.mod_eq_of_lt h,
    Nat.shiftRight_eq_div_pow]
  exact Nat.and_two_pow_sub_one_eq_mod _ 6

theorem toNat_last (n : UInt32) : (n &&& 0x3f).toNat = n.toNat % 2 ^ 6 := by
  rw [UInt32.toNat_and]
  exact Nat.and_two_pow_sub_one_eq_mod _ 6

theorem toNat_single (a : UInt8) : (a.toUInt32 <<< 16).toNat = a.toNat * 2 ^ 16 := by
  have ha := a.toNat_lt
  rw [UInt32.toNat_shiftLeft, UInt8.toNat_toUInt32, Nat.shiftLeft_eq]
  show a.toNat * 2 ^ 16 % 2 ^ 32 = _
  omega

theorem toNat_middle (b : UInt8) : (b.toUInt32 <<< 8).toNat = b.toNat * 2 ^ 8 := by
  have hb := b.toNat_lt
  rw [UInt32.toNat_shiftLeft, UInt8.toNat_toUInt32, Nat.shiftLeft_eq]
  show b.toNat * 2 ^ 8 % 2 ^ 32 = _
  omega

theorem or_eq_add {m n k : Nat} (h : n < 2 ^ k) : m * 2 ^ k ||| n = m * 2 ^ k + n := by
  rw [Nat.mul_comm, Nat.two_pow_add_eq_or_of_lt h]

theorem toNat_pair (a b : UInt8) : (a.toUInt32 <<< 16 ||| b.toUInt32 <<< 8).toNat =
    (a.toNat * 2 ^ 8 + b.toNat) * 2 ^ 8 := by
  have hb := b.toNat_lt
  rw [UInt32.toNat_or, toNat_single, toNat_middle, or_eq_add (by omega)]
  omega

theorem toNat_group (a b c : UInt8) :
    (a.toUInt32 <<< 16 ||| b.toUInt32 <<< 8 ||| c.toUInt32).toNat =
      (a.toNat * 2 ^ 8 + b.toNat) * 2 ^ 8 + c.toNat := by
  rw [UInt32.toNat_or, toNat_pair, UInt8.toNat_toUInt32, or_eq_add c.toNat_lt]

theorem digits_single (a : UInt8) : digits [a] =
    [a.toNat * 2 ^ 16 / 2 ^ 18 % 2 ^ 6, a.toNat * 2 ^ 16 / 2 ^ 12 % 2 ^ 6] := by
  have ha := a.toNat_lt
  rw [Rfc4648.Alphabet.digits_rest (g := 2) (k := 4) (by decide) rfl]
  simp only [List.map_cons, List.map_nil, Bits.joinFrom, Bits.places, List.cons.injEq, and_true]
  omega

theorem digits_pair (a b : UInt8) : digits [a, b] =
    [(a.toNat * 2 ^ 8 + b.toNat) * 2 ^ 8 / 2 ^ 18 % 2 ^ 6,
      (a.toNat * 2 ^ 8 + b.toNat) * 2 ^ 8 / 2 ^ 12 % 2 ^ 6,
      (a.toNat * 2 ^ 8 + b.toNat) * 2 ^ 8 / 2 ^ 6 % 2 ^ 6] := by
  have ha := a.toNat_lt
  have hb := b.toNat_lt
  rw [Rfc4648.Alphabet.digits_rest (g := 3) (k := 2) (by decide) rfl]
  simp only [List.map_cons, List.map_nil, Bits.joinFrom, Bits.places, List.cons.injEq, and_true]
  omega

section Encoder

variable {α : Type} {alphabet : List α} {top : UInt32 → UInt32} {char : Nat → α}
  (hAlphabet : ∀ d < 64, alphabet[d]? = some (char d))
  (hTop : ∀ n : UInt32, n.toNat < 2 ^ 24 → (top n).toNat = n.toNat / 2 ^ 18 % 2 ^ 6)

include hAlphabet

theorem lookup_digitOf (n : UInt32) {shift : UInt32} (h : shift.toNat < 32) :
    alphabet[(digitOf n shift).toNat]? = some (char (n.toNat / 2 ^ shift.toNat % 2 ^ 6)) := by
  rw [toNat_digitOf n h]
  exact hAlphabet _ (Nat.mod_lt _ (by decide))

theorem lookup_last (n : UInt32) :
    alphabet[(n &&& 0x3f).toNat]? = some (char (n.toNat % 2 ^ 6)) := by
  rw [toNat_last]
  exact hAlphabet _ (Nat.mod_lt _ (by decide))

include hTop

theorem lookup_top {n : UInt32} (h : n.toNat < 2 ^ 24) :
    alphabet[(top n).toNat]? = some (char (n.toNat / 2 ^ 18 % 2 ^ 6)) := by
  rw [hTop n h]
  exact hAlphabet _ (Nat.mod_lt _ (by decide))

theorem encodeGroups_step {data : List UInt8} {i : Nat} (h : i + 3 ≤ data.length) (out : List α) :
    ∃ chars, encodeGroups alphabet top data i out = encodeGroups alphabet top data (i + 3) (out ++ chars) ∧
      (digits (data.drop i)).map char = chars ++ (digits (data.drop (i + 3))).map char := by
  have hSplit : data.drop i = data[i] :: data[i + 1] :: data[i + 2] :: data.drop (i + 3) := by
    rw [List.drop_eq_getElem_cons (by omega), List.drop_eq_getElem_cons (by omega),
      List.drop_eq_getElem_cons (by omega)]
  let word := data[i].toUInt32 <<< 16 ||| data[i + 1].toUInt32 <<< 8 ||| data[i + 2].toUInt32
  have hWord : word.toNat = (data[i].toNat * 2 ^ 8 + data[i + 1].toNat) * 2 ^ 8 + data[i + 2].toNat :=
    toNat_group data[i] data[i + 1] data[i + 2]
  have hRead : groupAt data i = some word := by
    rw [groupAt, List.getElem?_eq_getElem (by omega), List.getElem?_eq_getElem (by omega),
      List.getElem?_eq_getElem (by omega)]
    rfl
  have hSmall : word.toNat < 2 ^ 24 := by
    have hFirst := data[i].toNat_lt
    have hSecond := data[i + 1].toNat_lt
    have hThird := data[i + 2].toNat_lt
    omega
  refine ⟨(Bits.places 6 4 word.toNat).map char, ?_, ?_⟩
  · have hLast : word.toNat / 2 ^ (6 * 0) % 2 ^ 6 = word.toNat % 2 ^ 6 := by
      rw [Nat.mul_zero, Nat.pow_zero, Nat.div_one]
    rw [encodeGroups, if_pos h, hRead]
    simp only [Option.bind_eq_bind, Option.bind_some, lookup_top hAlphabet hTop hSmall,
      lookup_digitOf hAlphabet word (show (12 : UInt32).toNat < 32 by decide),
      lookup_digitOf hAlphabet word (show (6 : UInt32).toNat < 32 by decide),
      lookup_last hAlphabet word, Bits.places, hLast]
    rfl
  · rw [hSplit, Rfc4648.Alphabet.digits_group, List.map_append, hWord]

theorem encodeGroups_spec (data : List UInt8) (i : Nat) (out : List α) :
    ∃ i' chars, encodeGroups alphabet top data i out = some (i', out ++ chars) ∧
      data.length - i' = (data.length - i) % 3 ∧
      (digits (data.drop i)).map char = chars ++ (digits (data.drop i')).map char := by
  induction hn : data.length - i using Nat.strong_induction_on generalizing i out with
  | _ n ih =>
    by_cases hGroup : i + 3 ≤ data.length
    · obtain ⟨chars, hStep, hDigits⟩ := encodeGroups_step hAlphabet hTop hGroup out
      obtain ⟨i', chars', hLoop, hLeft, hDigits'⟩ :=
        ih (data.length - (i + 3)) (by omega) (i + 3) (out ++ chars) rfl
      refine ⟨i', chars ++ chars', ?_, by omega, ?_⟩
      · rw [hStep, hLoop, List.append_assoc]
      · rw [hDigits, hDigits', List.append_assoc]
    · refine ⟨i, [], ?_, by omega, rfl⟩
      rw [encodeGroups, if_neg hGroup, List.append_nil]

theorem encodeRest_spec (padding : Nat → List α) {data : List UInt8} {i : Nat}
    (h : data.length - i < 3) (out : List α) :
    encodeRest alphabet top padding data i out = some (out ++ (digits (data.drop i)).map char ++
      if data.length - i = 0 then [] else padding (data.length - i)) := by
  unfold encodeRest
  obtain hNone | hOne | hTwo : data.length - i = 0 ∨ data.length - i = 1 ∨ data.length - i = 2 := by
    omega
  · rw [if_neg (by omega), if_neg (by omega), if_pos hNone, List.drop_eq_nil_of_le (by omega),
      Rfc4648.Alphabet.digits_nil]
    simp
  · have hSplit : data.drop i = [data[i]] := by
      rw [List.drop_eq_getElem_cons (by omega), List.drop_eq_nil_of_le (by omega)]
    have hWord := toNat_single data[i]
    have hByte := data[i].toNat_lt
    have hFirst := lookup_top hAlphabet hTop (n := data[i].toUInt32 <<< 16) (by omega)
    rw [if_pos hOne, hOne, List.getElem?_eq_getElem (by omega), hSplit, digits_single, ← hWord]
    simp only [Option.bind_eq_bind, Option.bind_some, hFirst,
      lookup_digitOf hAlphabet _ (show (12 : UInt32).toNat < 32 by decide)]
    rfl
  · have hSplit : data.drop i = [data[i], data[i + 1]] := by
      rw [List.drop_eq_getElem_cons (by omega), List.drop_eq_getElem_cons (by omega),
        List.drop_eq_nil_of_le (by omega)]
    have hWord := toNat_pair data[i] data[i + 1]
    have hByte := data[i].toNat_lt
    have hByte' := data[i + 1].toNat_lt
    have hFirst := lookup_top hAlphabet hTop
      (n := data[i].toUInt32 <<< 16 ||| data[i + 1].toUInt32 <<< 8) (by omega)
    rw [if_neg (by omega), if_pos hTwo, hTwo, List.getElem?_eq_getElem (by omega),
      List.getElem?_eq_getElem (by omega), hSplit, digits_pair, ← hWord]
    simp only [Option.bind_eq_bind, Option.bind_some, hFirst,
      lookup_digitOf hAlphabet _ (show (12 : UInt32).toNat < 32 by decide),
      lookup_digitOf hAlphabet _ (show (6 : UInt32).toNat < 32 by decide)]
    rfl

theorem encodeWith_spec (padding : Nat → List α) (data : List UInt8) :
    encodeWith alphabet top padding data = some ((digits data).map char ++
      if data.length % 3 = 0 then [] else padding (data.length % 3)) := by
  obtain ⟨i, chars, hLoop, hLeft, hDigits⟩ := encodeGroups_spec hAlphabet hTop data 0 []
  have hRest := encodeRest_spec hAlphabet hTop padding (show data.length - i < 3 by omega) chars
  rw [List.nil_append] at hLoop
  rw [List.drop_zero] at hDigits
  rw [encodeWith, hLoop, hDigits]
  rw [hLeft, Nat.sub_zero] at hRest
  exact hRest

end Encoder

/-- The padded text with the standard alphabet. -/
structure IsBase64 (bytes : List UInt8) (text : List Char) : Prop where
  encoded : text = Alphabet.standard.encodePadded bytes
  decoded : Alphabet.standard.decodePadded text = some bytes
  length : text.length = 4 * (bytes.length ⌈/⌉ 3)
  chars : ∀ c ∈ text, c ∈ Alphabet.standard.chars ∨ c = '='

/-- The text without padding with the alphabet that is safe in URLs. -/
structure IsBase64Url (bytes : List UInt8) (text : List Char) : Prop where
  encoded : text = Alphabet.urlSafe.encode bytes
  decoded : Alphabet.urlSafe.decode text = some bytes
  length : text.length = (4 * bytes.length) ⌈/⌉ 3
  chars : ∀ c ∈ text, c ∈ Alphabet.urlSafe.chars

theorem isBase64_encodePadded (bytes : List UInt8) :
    IsBase64 bytes (Alphabet.standard.encodePadded bytes) where
  encoded := rfl
  decoded := Alphabet.decodePadded_encodePadded bytes
  length := by
    rw [Alphabet.length_encodePadded, Nat.ceilDiv_eq_add_pred_div]
    rfl
  chars c hc := (List.mem_append.mp hc).imp Alphabet.encode_chars List.eq_of_mem_replicate

theorem isBase64Url_encode (bytes : List UInt8) : IsBase64Url bytes (Alphabet.urlSafe.encode bytes) where
  encoded := rfl
  decoded := Alphabet.decode_encode bytes
  length := by
    rw [Alphabet.length_encode, Nat.ceilDiv_eq_add_pred_div]
    rfl
  chars _ hc := Alphabet.encode_chars hc

theorem getElem?_chars (A : Alphabet) : ∀ d < 64, A.chars[d]? = some (A.char d) := by
  intro d hd
  have hLength : d < A.chars.length := A.length ▸ hd
  rw [Alphabet.char, List.getD_eq_getElem _ _ hLength, List.getElem?_eq_getElem hLength]

theorem b64urlEncode_eq (bytes : List UInt8) :
    b64urlEncode bytes = some (Alphabet.urlSafe.encode bytes) := by
  have hTop (n : UInt32) (_ : n.toNat < 2 ^ 24) :
      (digitOf n 18).toNat = n.toNat / 2 ^ 18 % 2 ^ 6 := toNat_digitOf n (by decide)
  have hSpec := encodeWith_spec (getElem?_chars Alphabet.urlSafe) hTop (fun _ => []) bytes
  rw [ite_self, List.append_nil] at hSpec
  exact hSpec

theorem standard_ascii : ∀ c ∈ Alphabet.standard.chars, c.val.toNat < 0x80 := by
  have hAll : (Alphabet.standard.chars.all fun c => c.val.toNat < 0x80) = true := by
    dsimp only [Alphabet.standard]
    rw [String.toList_ofList]
    decide
  exact fun c hc => of_decide_eq_true (List.all_eq_true.mp hAll c hc)

/-- The bytes that are written are ASCII, so that they are a string. -/
theorem encode_encodePadded (data : List UInt8) : Utf8.encode (Alphabet.standard.encodePadded data) =
    (Alphabet.standard.encodePadded data).map fun c => UInt8.ofNat c.val.toNat := by
  refine Utf8.encode_ascii fun c hc => ?_
  rcases (isBase64_encodePadded data).chars c hc with hc | rfl
  · exact standard_ascii c hc
  · decide

theorem padding_eq (data : List UInt8) :
    (Alphabet.padding (Alphabet.standard.encode data).length).map (fun c => UInt8.ofNat c.val.toNat) =
      if data.length % 3 = 0 then []
      else if data.length % 3 = 1 then ascii "==" else ascii "=" := by
  have hLength : (4 - (Alphabet.standard.encode data).length % 4) % 4 =
      if data.length % 3 = 0 then 0 else if data.length % 3 = 1 then 2 else 1 := by
    rw [Alphabet.length_encode]
    split_ifs <;> omega
  rw [Alphabet.padding, hLength]
  split_ifs <;> rfl

theorem base64Encode_eq (data : List UInt8) :
    base64Encode data = some (Alphabet.standard.encodePadded data) := by
  have hTop (n : UInt32) (h : n.toNat < 2 ^ 24) : (n >>> 18).toNat = n.toNat / 2 ^ 18 % 2 ^ 6 := by
    rw [UInt32.toNat_shiftRight, Nat.shiftRight_eq_div_pow]
    show n.toNat / 2 ^ 18 = _
    omega
  have hAlphabet : ∀ d < 64,
      (Alphabet.standard.chars.map fun c => UInt8.ofNat c.val.toNat)[d]? =
        some (UInt8.ofNat (Alphabet.standard.char d).val.toNat) := by
    intro d hd
    rw [List.getElem?_map, getElem?_chars _ d hd, Option.map_some]
  have hSpec := encodeWith_spec hAlphabet hTop
    (fun rest => if rest = 1 then ascii "==" else ascii "=") data
  have hOut : (digits data).map (fun d => UInt8.ofNat (Alphabet.standard.char d).val.toNat) ++
      (if data.length % 3 = 0 then []
        else if data.length % 3 = 1 then ascii "==" else ascii "=") =
      Utf8.encode (Alphabet.standard.encodePadded data) := by
    rw [encode_encodePadded, Alphabet.encodePadded, List.map_append, padding_eq, Alphabet.encode,
      List.map_map]
    rfl
  rw [hOut] at hSpec
  unfold base64Encode
  refine (congrArg (Option.map _) hSpec).trans ?_
  rw [Option.map_some, Utf8.text?_encode, Option.getD_some]

/-- Both encoders return the encoding of the standard, for all bytes, and no index is out of range. -/
theorem encoders_rfc4648 (bytes : List UInt8) :
    (∃ text, base64Encode bytes = some text ∧ IsBase64 bytes text) ∧
      ∃ text, b64urlEncode bytes = some text ∧ IsBase64Url bytes text :=
  ⟨⟨_, base64Encode_eq bytes, isBase64_encodePadded bytes⟩,
    ⟨_, b64urlEncode_eq bytes, isBase64Url_encode bytes⟩⟩

end Cronymax.Encoding
