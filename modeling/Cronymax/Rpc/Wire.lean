import Cronymax.Rpc.Codec

/-! A part of the MessagePack format, byte for byte: small integers, `nil`, short ASCII strings, and
short arrays.  Its reader and its writer are an instance of `MessagePack`. -/

namespace Cronymax.Rpc.Wire

open Framing

/-- Why bytes are not read. -/
inductive Unread where
  | tooDeep
  | marker

/-- The error of `rmpv` for it. -/
def toReadError : Unread → ReadError
  | .tooDeep => .depthLimitExceeded
  | .marker => .invalidDataRead .other

/-- A string, or bytes that are no text. -/
def text (bytes : List UInt8) : Value :=
  if bytes.all (· < 0x80) then .string (String.ofList (bytes.map fun b => Char.ofNat b.toNat))
  else .invalidString bytes

def smallInteger (n : UInt8) : Value := .integer ⟨n.toNat, by have := n.toNat_lt; omega⟩

/-- The reader of values up to a depth. -/
def readAt : Nat → Read UInt8 Unread Value
  | 0 => Read.reject .tooDeep
  | depth + 1 => Read.next.andThen fun marker =>
    if marker < 0x80 then Read.value (smallInteger marker)
    else if marker < 0x90 then Read.reject .marker
    else if marker < 0xa0 then
      ((readAt depth).times (marker.toNat - 0x90)).andThen fun items => Read.value (.array items)
    else if marker < 0xc0 then
      (Read.next.times (marker.toNat - 0xa0)).andThen fun bytes => Read.value (text bytes)
    else if marker = 0xc0 then Read.value .nil
    else Read.reject .marker

/-- `MAX_DEPTH` of `rmpv`. -/
def maxDepth : Nat := 1024

/-- `read_value`. -/
def readValue (bytes : List UInt8) : Except ReadError (Value × Nat) :=
  match readAt maxDepth bytes with
  | .ok (some found) => .ok found
  | .ok none =>
    if bytes.isEmpty then .error (.invalidMarkerRead .unexpectedEof)
    else .error (.invalidDataRead .unexpectedEof)
  | .error e => .error (toReadError e)

/-- The writer of values up to a depth. -/
def writeAt : Nat → Value → Except String (List UInt8)
  | 0, _ => .error "depth limit exceeded"
  | _ + 1, .nil => .ok [0xc0]
  | _ + 1, .integer n =>
    if 0 ≤ n.value ∧ n.value < 0x80 then .ok [UInt8.ofNat n.value.toNat]
    else .error "integer out of range"
  | _ + 1, .string s =>
    if s.length < 0x20 ∧ s.toList.all (·.toNat < 0x80) then
      .ok (UInt8.ofNat (0xa0 + s.length) :: s.toList.map fun c => UInt8.ofNat c.toNat)
    else .error "string out of range"
  | depth + 1, .array items =>
    if items.length < 0x10 then
      (items.mapM (writeAt depth)).map fun parts =>
        UInt8.ofNat (0x90 + items.length) :: parts.flatten
    else .error "array out of range"
  | _ + 1, _ => .error "no such marker"

theorem readAt_sequential (depth : Nat) : (readAt depth).Sequential := by
  induction depth with
  | zero => exact Read.reject_sequential _
  | succ depth ih =>
    refine Read.next_sequential.andThen fun marker => ?_
    split_ifs
    · exact Read.value_sequential _
    · exact Read.reject_sequential _
    · exact (ih.times _).andThen fun items => Read.value_sequential _
    · exact (Read.next_sequential.times _).andThen fun bytes => Read.value_sequential _
    · exact Read.value_sequential _
    · exact Read.reject_sequential _

theorem readAt_pos {depth : Nat} {bytes : List UInt8} {v : Value} {n : Nat}
    (h : readAt depth bytes = .ok (some (v, n))) : 0 < n := by
  cases depth with
  | zero => cases h
  | succ depth => exact Read.next_andThen_pos h

theorem unlessEof_readValue :
    unlessEof readValue = (readAt maxDepth).translate .ok toReadError := by
  funext bytes
  unfold unlessEof readValue Read.translate
  cases readAt maxDepth bytes with
  | error e => cases e <;> rfl
  | ok found =>
    cases found with
    | some found => rfl
    | none => by_cases h : bytes.isEmpty = true <;> simp [h, isUnexpectedEof]

/-- MessagePack as far as a sample needs it. -/
def messagePack : MessagePack where
  toVec := writeAt maxDepth
  readValue := readValue
  display
    | .invalidMarkerRead _ => "I/O error while reading marker byte"
    | .invalidDataRead _ => "I/O error while reading non-marker bytes"
    | .depthLimitExceeded => "depth limit exceeded"
  waits := rfl
  sequential := by
    rw [unlessEof_readValue]
    exact (readAt_sequential _).translate _ _
  progress h := by
    unfold readValue at h
    split at h
    · rename_i found hFound
      cases h
      exact readAt_pos hFound
    · split at h <;> cases h
    · cases h

theorem faithful_of_parts {v : Value} {bytes : List UInt8} (hWrite : writeAt maxDepth v = .ok bytes)
    (hRead : readValue bytes = .ok (v, bytes.length))
    (hParts : ∀ k < bytes.length, ∃ e, readValue (bytes.take k) = .error e ∧ isUnexpectedEof e) :
    messagePack.Faithful v := by
  refine ⟨bytes, hWrite, hRead, fun p hPart hProper => ?_⟩
  rw [List.prefix_iff_eq_take.mp hPart]
  have hShorter : p.length ≠ bytes.length := fun hLength => hProper (hPart.eq_of_length hLength)
  exact hParts p.length (Nat.lt_of_le_of_ne hPart.length_le hShorter)

end Cronymax.Rpc.Wire
