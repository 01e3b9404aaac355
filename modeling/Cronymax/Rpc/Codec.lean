import Mathlib.Algebra.Group.Int.Defs
import Mathlib.Algebra.Group.Nat.Defs
import Cronymax.Framing.Decoder

/-! Frames of MessagePack-RPC: `Frame::encode`, `Frame::decode_one`, and what they use.  The two
functions that write and read one MessagePack value, `rmp_serde::to_vec` and
`rmpv::decode::read_value`, are the parameter `MessagePack`. -/

namespace Cronymax.Rpc

/-- `Error`. -/
inductive Error where
  | rpc (message : String)
  | rpcCancelled
deriving DecidableEq

def Error.display : Error → String
  | .rpc message => "rpc: " ++ message
  | .rpcCancelled => "rpc cancelled"

/-- An integer is a `u64` or an `i64`. -/
structure Integer where
  value : Int
  bounds : -2 ^ 63 ≤ value ∧ value < 2 ^ 64

/-- `rmpv::Value`. -/
inductive Value where
  | nil
  | boolean (b : Bool)
  | integer (n : Integer)
  | f32 (bits : UInt32)
  | f64 (bits : UInt64)
  | string (s : String)
  | invalidString (bytes : List UInt8)
  | binary (bytes : List UInt8)
  | array (items : List Value)
  | map (entries : List (Value × Value))
  | ext (kind : Int8) (bytes : List UInt8)

namespace Value

def ofUInt32 (n : UInt32) : Value :=
  .integer ⟨n.toNat, by have := n.toNat_lt; omega⟩

def asArray : Value → Option (List Value)
  | .array items => some items
  | _ => none

def asI64 : Value → Option Int
  | .integer n => if n.value < 2 ^ 63 then some n.value else none
  | _ => none

def asU64 : Value → Option Nat
  | .integer n => if 0 ≤ n.value then some n.value.toNat else none
  | _ => none

def asStr : Value → Option String
  | .string s => some s
  | _ => none

def isNil : Value → Bool
  | .nil => true
  | _ => false

/-- `u32::try_from`. -/
def u32? (n : Nat) : Option UInt32 := if n < 2 ^ 32 then some (UInt32.ofNat n) else none

end Value

/-- A decoded frame. -/
inductive Frame where
  | request (msgid : UInt32) (method : String) (params : Value)
  | response (msgid : UInt32) (error result : Value)
  | notify (method : String) (params : Value)

inductive ErrorKind where
  | unexpectedEof
  | other
deriving DecidableEq

/-- `rmpv::decode::Error`. -/
inductive ReadError where
  | invalidMarkerRead (kind : ErrorKind)
  | invalidDataRead (kind : ErrorKind)
  | depthLimitExceeded
deriving DecidableEq

/-- `is_unexpected_eof`. -/
def isUnexpectedEof : ReadError → Bool
  | .invalidMarkerRead kind => kind == .unexpectedEof
  | .invalidDataRead kind => kind == .unexpectedEof
  | .depthLimitExceeded => false

/-- A value of which the end is missing is no error. -/
def unlessEof (readValue : List UInt8 → Except ReadError (Value × Nat)) :
    Framing.Read UInt8 ReadError Value := fun buf =>
  match readValue buf with
  | .ok found => .ok (some found)
  | .error e => if isUnexpectedEof e then .ok none else .error e

/-- `rmp_serde` and `rmpv`. -/
structure MessagePack where
  toVec : Value → Except String (List UInt8)
  readValue : List UInt8 → Except ReadError (Value × Nat)
  display : ReadError → String
  waits : unlessEof readValue [] = .ok none
  sequential : (unlessEof readValue).Sequential
  progress : ∀ {b : List UInt8} {v : Value} {n : Nat}, readValue b = .ok (v, n) → 0 < n

/-- The value is read back from what is written, and no part of that is read as one. -/
def MessagePack.Faithful (M : MessagePack) (v : Value) : Prop :=
  ∃ bytes, M.toVec v = .ok bytes ∧ M.readValue bytes = .ok (v, bytes.length) ∧
    ∀ p, p <+: bytes → p ≠ bytes → ∃ e, M.readValue p = .error e ∧ isUnexpectedEof e

def asU32 (v : Value) (what : String) : Except Error UInt32 :=
  match v.asU64 with
  | none => .error (.rpc (what ++ " is not an unsigned integer"))
  | some n =>
    match Value.u32? n with
    | some n => .ok n
    | none => .error (.rpc (what ++ " = " ++ toString n ++ " overflows u32"))

def asString (v : Value) (what : String) : Except Error String :=
  match v.asStr with
  | some s => .ok s
  | none => .error (.rpc (what ++ " is not a string"))

def arityError (kind : String) (expected got : Nat) : Error :=
  .rpc (kind ++ " frame must have " ++ toString expected ++ " elements, got " ++ toString got)

namespace Frame

/-- The array of a frame. -/
def envelope : Frame → Value
  | .request msgid method params =>
    .array [.ofUInt32 0, .ofUInt32 msgid, .string method, params]
  | .response msgid error result => .array [.ofUInt32 1, .ofUInt32 msgid, error, result]
  | .notify method params => .array [.ofUInt32 2, .string method, params]

/-- `encode`. -/
def encode (M : MessagePack) (f : Frame) : Except Error (List UInt8) :=
  match M.toVec f.envelope with
  | .ok bytes => .ok bytes
  | .error e => .error (.rpc ("encode: " ++ e))

/-- `from_value`. -/
def fromValue (v : Value) : Except Error Frame := do
  let some arr := v.asArray | .error (.rpc "frame is not an array")
  let some first := arr.head? | .error (.rpc "frame array is empty")
  let some ty := first.asI64 | .error (.rpc "frame type is not an integer")
  if ty = 0 then
    let [_, msgid, method, params] := arr | .error (arityError "request" 4 arr.length)
    return .request (← asU32 msgid "request msgid") (← asString method "request method") params
  else if ty = 1 then
    let [_, msgid, error, result] := arr | .error (arityError "response" 4 arr.length)
    return .response (← asU32 msgid "response msgid") error result
  else if ty = 2 then
    let [_, method, params] := arr | .error (arityError "notify" 3 arr.length)
    return .notify (← asString method "notify method") params
  else .error (.rpc ("unknown frame type " ++ toString ty))

/-- `decode_one`. -/
def decodeOne (M : MessagePack) (buf : List UInt8) : Except Error (Option (Frame × Nat)) :=
  match M.readValue buf with
  | .ok (value, consumed) => (fromValue value).map fun frame => some (frame, consumed)
  | .error e =>
    if isUnexpectedEof e then .ok none else .error (.rpc ("decode value: " ++ M.display e))

/-- `cancel_notify`. -/
def cancelNotify (msgid : UInt32) : Frame := .notify "$/cancel" (.array [.ofUInt32 msgid])

/-- `parse_cancel`. -/
def parseCancel : Frame → Option UInt32
  | .notify method params =>
    if method = "$/cancel" then do
      let items ← params.asArray
      let first ← items.head?
      let n ← first.asU64
      Value.u32? n
    else none
  | _ => none

@[simp] theorem asU32_ofUInt32 (n : UInt32) (what : String) : asU32 (.ofUInt32 n) what = .ok n := by
  have hBound := n.toNat_lt
  simp [asU32, Value.asU64, Value.ofUInt32, Value.u32?, hBound]

@[simp] theorem asString_string (s what : String) : asString (.string s) what = .ok s := rfl

@[simp] theorem asI64_ofUInt32 (n : UInt32) : (Value.ofUInt32 n).asI64 = some (n.toNat : Int) := by
  have hBound := n.toNat_lt
  have hSmall : (n.toNat : Int) < 2 ^ 63 := by omega
  simp only [Value.ofUInt32, Value.asI64, if_pos hSmall]

theorem fromValue_envelope (f : Frame) : fromValue f.envelope = .ok f := by
  cases f <;>
    simp [fromValue, envelope, Value.asArray, bind, Except.bind, pure, Except.pure]

variable (M : MessagePack) {M}

theorem decodeOne_eq : decodeOne M = (unlessEof M.readValue).translate fromValue fun e =>
    .rpc ("decode value: " ++ M.display e) := by
  funext buf
  unfold decodeOne Framing.Read.translate unlessEof
  cases M.readValue buf with
  | ok found => rfl
  | error e =>
    dsimp only
    by_cases h : isUnexpectedEof e = true <;> simp [h]

/-- `decodeOne` as a decoder of the stream. -/
def decoder (M : MessagePack) : Framing.Decoder UInt8 Error Frame where
  read := decodeOne M
  waits := by rw [decodeOne_eq, Framing.Read.translate, M.waits]
  sequential := by
    rw [decodeOne_eq]
    exact M.sequential.translate _ _
  progress h := by
    rw [decodeOne_eq] at h
    obtain ⟨v, hRead, -⟩ := Framing.Read.translate_found h
    unfold unlessEof at hRead
    split at hRead
    · rename_i found hFound
      cases hRead
      exact M.progress hFound
    · split at hRead <;> cases hRead

theorem accepts_encode {f : Frame} (h : M.Faithful f.envelope) {bytes : List UInt8}
    (hEncode : f.encode M = .ok bytes) : (decoder M).read.Accepts bytes f := by
  obtain ⟨bytes', hWrite, hRead, hPart⟩ := h
  have hBytes : bytes' = bytes := by
    rw [encode, hWrite] at hEncode
    exact Except.ok.inj hEncode
  subst hBytes
  have hValue : (unlessEof M.readValue).Accepts bytes' f.envelope := by
    constructor
    · rw [unlessEof, hRead]
    · intro p hp hProper
      obtain ⟨e, hError, hEof⟩ := hPart p hp hProper
      rw [unlessEof, hError]
      exact if_pos hEof
  show Framing.Read.Accepts (decodeOne M) bytes' f
  rw [decodeOne_eq]
  exact hValue.translate (fromValue_envelope f)

end Frame

end Cronymax.Rpc
