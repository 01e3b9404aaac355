import Cronymax.Ordered.Entries
import Cronymax.Rpc.Wire
import Mathlib.Data.String.Basic

/-! The values of the connection and JSON: `rmpv_to_json` and `json_to_rmpv`.  An object of JSON is an
ordered map.  What comes from JSON comes back as it was; what comes from the connection comes back with
the entries of its maps in the order of their keys. -/

namespace Cronymax.Rpc

def isFinite (bits : UInt64) : Bool := bits.toNat / 2 ^ 52 % 2 ^ 11 ≠ 2047

/-- `f32 as f64`, which is exact. -/
def widen (bits : UInt32) : UInt64 :=
  let sign := bits.toNat / 2 ^ 31
  let exponent := bits.toNat / 2 ^ 23 % 2 ^ 8
  let mantissa := bits.toNat % 2 ^ 23
  let (exponent, mantissa) :=
    if exponent = 255 then (2047, mantissa * 2 ^ 29)
    else if exponent = 0 then
      if mantissa = 0 then (0, 0)
      -- A number below the normal ones of `f32` is a normal one of `f64`.
      else (mantissa.log2 + 874, (mantissa - 2 ^ mantissa.log2) * 2 ^ (52 - mantissa.log2))
    else (exponent + 896, mantissa * 2 ^ 29)
  UInt64.ofNat (sign * 2 ^ 63 + exponent * 2 ^ 52 + mantissa)

/-- One and a half, and the smallest number above zero. -/
example : widen 0x3fc00000 = 0x3ff8000000000000 ∧ widen 1 = 0x36a0000000000000 := by decide

/-- `serde_json::Number`. -/
inductive Number where
  | posInt (n : Nat) (bound : n < 2 ^ 64)
  | negInt (n : Int) (bounds : -2 ^ 63 ≤ n ∧ n < 0)
  | float (bits : UInt64) (finite : isFinite bits)

namespace Number

/-- `From<i64>`. -/
def fromI64 (n : Int) (h : -2 ^ 63 ≤ n ∧ n < 2 ^ 63) : Number :=
  if hNeg : n < 0 then .negInt n ⟨h.1, hNeg⟩ else .posInt n.toNat (by omega)

/-- `from_f64`: none of a value that is not finite. -/
def fromF64 (bits : UInt64) : Option Number :=
  if h : isFinite bits then some (.float bits h) else none

def asI64 : Number → Option { n : Int // -2 ^ 63 ≤ n ∧ n < 2 ^ 63 }
  | .posInt n _ => if h : n < 2 ^ 63 then some ⟨n, by omega⟩ else none
  | .negInt n h => some ⟨n, by omega⟩
  | .float _ _ => none

def asU64 : Number → Option { n : Nat // n < 2 ^ 64 }
  | .posInt n h => some ⟨n, h⟩
  | .negInt _ _ | .float _ _ => none

def asF64 : Number → Option UInt64
  | .float bits _ => some bits
  | .posInt _ _ | .negInt _ _ => none

end Number

/-- `serde_json::Value`. -/
inductive Json where
  | null
  | bool (b : Bool)
  | number (n : Number)
  | string (s : String)
  | array (items : List Json)
  | object (members : List (String × Json))

mutual

/-- The members of its objects are in order, each once. -/
def Json.IsValue : Json → Prop
  | .null | .bool _ | .number _ | .string _ => True
  | .array items => areValues items
  | .object members => Ordered.Ascending members ∧ membersAreValues members

def areValues : List Json → Prop
  | [] => True
  | j :: items => j.IsValue ∧ areValues items

def membersAreValues : List (String × Json) → Prop
  | [] => True
  | (_, j) :: members => j.IsValue ∧ membersAreValues members

end

def number? (n : Option Number) : Json := (n.map .number).getD .null

def fromByte (b : UInt8) : Json := .number (.posInt b.toNat (by have := b.toNat_lt; omega))

/-- `Number::from` of an integer.  What is no `i64` is a `u64`, so that no float is made of it. -/
def fromInteger (n : Integer) : Number :=
  if h : n.value < 2 ^ 63 then .fromI64 n.value ⟨n.bounds.1, h⟩
  else .posInt n.value.toNat (by have := n.bounds; omega)

def fromI8 (n : Int8) : Number := .fromI64 n.toInt (by have := n.le_toInt; have := n.toInt_lt; omega)

section ToJson

-- How the library prints a value.
variable (debug : Value → String)

def keyText (k : Value) : String := k.asStr.getD (debug k)

mutual

/-- `rmpv_to_json`. -/
def rmpvToJson : Value → Json
  | .nil => .null
  | .boolean b => .bool b
  | .integer n => .number (fromInteger n)
  | .f32 bits => number? (Number.fromF64 (widen bits))
  | .f64 bits => number? (Number.fromF64 bits)
  | .string s => .string s
  | .invalidString _ => .string ""
  | .binary bytes => .array (bytes.map fromByte)
  | .array items => .array (rmpvsToJson items)
  | .map entries => .object (Ordered.ofList (entriesToJson entries))
  | .ext kind bytes =>
    .object [("__ext_data", .array (bytes.map fromByte)), ("__ext_tag", .number (fromI8 kind))]

def rmpvsToJson : List Value → List Json
  | [] => []
  | v :: items => rmpvToJson v :: rmpvsToJson items

def entriesToJson : List (Value × Value) → List (String × Json)
  | [] => []
  | (k, v) :: entries => (keyText debug k, rmpvToJson v) :: entriesToJson entries

end

end ToJson

/-- The number as an integer where it is one. -/
def numberToRmpv (n : Number) : Value :=
  match n.asI64 with
  | some i => .integer ⟨i.1, by have := i.2; omega⟩
  | none =>
    match n.asU64 with
    | some u => .integer ⟨u.1, by have := u.2; omega⟩
    | none =>
      match n.asF64 with
      | some bits => if isFinite bits then .f64 bits else .nil
      | none => .nil

mutual

/-- `json_to_rmpv`. -/
def jsonToRmpv : Json → Value
  | .null => .nil
  | .bool b => .boolean b
  | .number n => numberToRmpv n
  | .string s => .string s
  | .array items => .array (jsonsToRmpv items)
  | .object members => .map (membersToRmpv members)

def jsonsToRmpv : List Json → List Value
  | [] => []
  | j :: items => jsonToRmpv j :: jsonsToRmpv items

def membersToRmpv : List (String × Json) → List (Value × Value)
  | [] => []
  | (k, j) :: members => (.string k, jsonToRmpv j) :: membersToRmpv members

end

section Back

variable (debug : Value → String)

theorem fromInteger_neg {n : Integer} (h : n.value < 0) :
    fromInteger n = .negInt n.value ⟨n.bounds.1, h⟩ := by
  have hSigned : n.value < 2 ^ 63 := by omega
  rw [fromInteger, dif_pos hSigned, Number.fromI64, dif_pos h]

theorem fromInteger_nonneg {n : Integer} (h : 0 ≤ n.value) :
    fromInteger n = .posInt n.value.toNat (by have := n.bounds; omega) := by
  have hNot : ¬n.value < 0 := by omega
  by_cases hSigned : n.value < 2 ^ 63
  · rw [fromInteger, dif_pos hSigned, Number.fromI64, dif_neg hNot]
  · rw [fromInteger, dif_neg hSigned]

theorem numberToRmpv_posInt (n : Nat) (bound : n < 2 ^ 64) :
    numberToRmpv (.posInt n bound) = .integer ⟨n, by omega⟩ := by
  by_cases h : n < 2 ^ 63
  · have hSome : (Number.posInt n bound).asI64 = some ⟨n, by omega⟩ := dif_pos h
    rw [numberToRmpv, hSome]
  · have hNone : (Number.posInt n bound).asI64 = none := dif_neg h
    rw [numberToRmpv, hNone]
    rfl

theorem numberToRmpv_float (bits : UInt64) (finite : isFinite bits) :
    numberToRmpv (.float bits finite) = .f64 bits :=
  if_pos finite

theorem number_round_trip (n : Number) : rmpvToJson debug (numberToRmpv n) = .number n := by
  cases n with
  | posInt n bound =>
    rw [numberToRmpv_posInt, rmpvToJson, fromInteger_nonneg (Int.natCast_nonneg n)]
    rfl
  | negInt n bounds => exact congrArg Json.number (fromInteger_neg bounds.2)
  | float bits finite =>
    rw [numberToRmpv_float, rmpvToJson, Number.fromF64, dif_pos finite]
    rfl

mutual

theorem json_round_trip (j : Json) (h : j.IsValue) : rmpvToJson debug (jsonToRmpv j) = j := by
  cases j with
  | null | bool | string => rfl
  | number n => exact number_round_trip debug n
  | array items => rw [jsonToRmpv, rmpvToJson, jsons_round_trip items h]
  | object members =>
    rw [jsonToRmpv, rmpvToJson, members_round_trip members h.2, Ordered.ofList_ascending h.1]

theorem jsons_round_trip (items : List Json) (h : areValues items) :
    rmpvsToJson debug (jsonsToRmpv items) = items := by
  cases items with
  | nil => rfl
  | cons j items => rw [jsonsToRmpv, rmpvsToJson, json_round_trip j h.1, jsons_round_trip items h.2]

theorem members_round_trip (members : List (String × Json)) (h : membersAreValues members) :
    entriesToJson debug (membersToRmpv members) = members := by
  cases members with
  | nil => rfl
  | cons m members =>
    obtain ⟨k, j⟩ := m
    rw [membersToRmpv, entriesToJson, json_round_trip j h.1, members_round_trip members h.2]
    rfl

end

theorem membersAreValues_iff {members : List (String × Json)} :
    membersAreValues members ↔ ∀ m ∈ members, m.2.IsValue := by
  induction members with
  | nil => simp [membersAreValues]
  | cons m members ih => simp [membersAreValues, ih]

theorem areValues_bytes (bytes : List UInt8) : areValues (bytes.map fromByte) := by
  induction bytes with
  | nil => trivial
  | cons b bytes ih => exact ⟨trivial, ih⟩

theorem number?_isValue (n : Option Number) : (number? n).IsValue := by
  cases n <;> trivial

mutual

theorem rmpvToJson_isValue (v : Value) : (rmpvToJson debug v).IsValue := by
  cases v with
  | nil | boolean | integer | string | invalidString => trivial
  | f32 | f64 => exact number?_isValue _
  | binary bytes => exact areValues_bytes bytes
  | array items => exact rmpvsToJson_areValues items
  | map entries =>
    exact ⟨Ordered.ascending_ofList _, membersAreValues_iff.mpr fun m hm =>
      membersAreValues_iff.mp (entriesToJson_areValues entries) m (Ordered.mem_ofList hm)⟩
  | ext kind bytes =>
    refine ⟨?_, areValues_bytes bytes, trivial, trivial⟩
    have hKeys : "__ext_data" < "__ext_tag" := by decide
    simpa [Ordered.Ascending] using hKeys

theorem rmpvsToJson_areValues (items : List Value) : areValues (rmpvsToJson debug items) := by
  cases items with
  | nil => trivial
  | cons v items => exact ⟨rmpvToJson_isValue v, rmpvsToJson_areValues items⟩

theorem entriesToJson_areValues (entries : List (Value × Value)) :
    membersAreValues (entriesToJson debug entries) := by
  cases entries with
  | nil => trivial
  | cons e entries =>
    obtain ⟨k, v⟩ := e
    exact ⟨rmpvToJson_isValue v, entriesToJson_areValues entries⟩

end

def keys (entries : List (Value × Value)) : List String := entries.map fun e => e.1.asStr.getD ""

mutual

/-- The value is one that JSON has. -/
def Value.Plain : Value → Prop
  | .nil | .boolean _ | .integer _ | .string _ => True
  | .f64 bits => isFinite bits
  | .f32 _ | .invalidString _ | .binary _ | .ext _ _ => False
  | .array items => plainItems items
  | .map entries => plainEntries entries ∧ (keys entries).Nodup

def plainItems : List Value → Prop
  | [] => True
  | v :: items => v.Plain ∧ plainItems items

def plainEntries : List (Value × Value) → Prop
  | [] => True
  | (k, v) :: entries => (∃ s, k = .string s) ∧ v.Plain ∧ plainEntries entries

end

mutual

/-- The value with its maps in the order of the keys. -/
def Value.sortKeys : Value → Value
  | .array items => .array (sortItems items)
  | .map entries =>
    .map ((sortValues entries).mergeSort fun e e' => e.1.asStr.getD "" ≤ e'.1.asStr.getD "")
  | v => v

def sortItems : List Value → List Value
  | [] => []
  | v :: items => v.sortKeys :: sortItems items

def sortValues : List (Value × Value) → List (Value × Value)
  | [] => []
  | (k, v) :: entries => (k, v.sortKeys) :: sortValues entries

end

mutual

/-- The maps are in the order of their keys. -/
def Value.KeysAscend : Value → Prop
  | .array items => itemsAscend items
  | .map entries => (keys entries).Pairwise (· < ·) ∧ valuesAscend entries
  | _ => True

def itemsAscend : List Value → Prop
  | [] => True
  | v :: items => v.KeysAscend ∧ itemsAscend items

def valuesAscend : List (Value × Value) → Prop
  | [] => True
  | (_, v) :: entries => v.KeysAscend ∧ valuesAscend entries

end

theorem membersToRmpv_eq (members : List (String × Json)) :
    membersToRmpv members = members.map fun m => (.string m.1, jsonToRmpv m.2) := by
  induction members with
  | nil => rfl
  | cons m members ih => rw [membersToRmpv, ih, List.map_cons]

theorem keys_entriesToJson {entries : List (Value × Value)} (h : plainEntries entries) :
    (entriesToJson debug entries).map (·.1) = keys entries := by
  induction entries with
  | nil => rfl
  | cons e entries ih =>
    obtain ⟨k, v⟩ := e
    obtain ⟨⟨s, rfl⟩, -, hRest⟩ := h
    simp only [entriesToJson, List.map_cons, ih hRest]
    rfl

theorem integer_round_trip (n : Integer) : numberToRmpv (fromInteger n) = .integer n := by
  obtain ⟨n, bounds⟩ := n
  rcases lt_or_ge n 0 with hNeg | hNonneg
  · rw [fromInteger_neg hNeg]
    rfl
  · have hBack : (n.toNat : Int) = n := by omega
    rw [fromInteger_nonneg hNonneg, numberToRmpv_posInt]
    simp only [hBack]

mutual

theorem rmpv_round_trip (w : Value) (h : w.Plain) :
    jsonToRmpv (rmpvToJson debug w) = w.sortKeys := by
  cases w with
  | nil | boolean | string => rfl
  | integer n => exact integer_round_trip n
  | f64 bits =>
    have hFinite : isFinite bits := h
    rw [rmpvToJson, Number.fromF64, dif_pos hFinite]
    exact numberToRmpv_float bits hFinite
  | f32 | invalidString | binary | ext => exact h.elim
  | array items =>
    rw [rmpvToJson, jsonToRmpv, rmpvs_round_trip items h, Value.sortKeys]
  | map entries =>
    obtain ⟨hPlain, hDistinct⟩ := h
    rw [← keys_entriesToJson debug hPlain] at hDistinct
    rw [rmpvToJson, jsonToRmpv, Value.sortKeys, ← entries_round_trip entries hPlain,
      Ordered.ofList_eq_sort hDistinct, membersToRmpv_eq, membersToRmpv_eq, Ordered.sort,
      List.map_mergeSort]
    exact fun _ _ _ _ => rfl

theorem rmpvs_round_trip (items : List Value) (h : plainItems items) :
    jsonsToRmpv (rmpvsToJson debug items) = sortItems items := by
  cases items with
  | nil => rfl
  | cons v items =>
    rw [rmpvsToJson, jsonsToRmpv, rmpv_round_trip v h.1, rmpvs_round_trip items h.2, sortItems]

theorem entries_round_trip (entries : List (Value × Value)) (h : plainEntries entries) :
    membersToRmpv (entriesToJson debug entries) = sortValues entries := by
  cases entries with
  | nil => rfl
  | cons e entries =>
    obtain ⟨k, v⟩ := e
    obtain ⟨⟨s, rfl⟩, hPlain, hRest⟩ := h
    rw [entriesToJson, membersToRmpv, rmpv_round_trip v hPlain, entries_round_trip entries hRest,
      sortValues]
    rfl

end

mutual

theorem sortKeys_ascending (w : Value) (h : w.KeysAscend) : w.sortKeys = w := by
  cases w with
  | array items => rw [Value.sortKeys, sortItems_ascending items h]
  | map entries =>
    have hSorted : entries.Pairwise fun e e' => decide (e.1.asStr.getD "" ≤ e'.1.asStr.getD "") :=
      (List.pairwise_map.mp h.1).imp fun hLt => decide_eq_true hLt.le
    rw [Value.sortKeys, sortValues_ascending entries h.2, List.mergeSort_of_pairwise hSorted]
  | _ => rfl

theorem sortItems_ascending (items : List Value) (h : itemsAscend items) : sortItems items = items := by
  cases items with
  | nil => rfl
  | cons v items => rw [sortItems, sortKeys_ascending v h.1, sortItems_ascending items h.2]

theorem sortValues_ascending (entries : List (Value × Value)) (h : valuesAscend entries) :
    sortValues entries = entries := by
  cases entries with
  | nil => rfl
  | cons e entries =>
    obtain ⟨k, v⟩ := e
    rw [sortValues, sortKeys_ascending v h.1, sortValues_ascending entries h.2]

end

theorem keys_membersToRmpv (members : List (String × Json)) :
    keys (membersToRmpv members) = members.map (·.1) := by
  rw [membersToRmpv_eq, keys, List.map_map]
  rfl

theorem numberToRmpv_ascends (n : Number) : (numberToRmpv n).KeysAscend := by
  cases n with
  | posInt n bound => rw [numberToRmpv_posInt]; trivial
  | negInt n bounds => trivial
  | float bits finite => rw [numberToRmpv_float]; trivial

mutual

theorem jsonToRmpv_ascends (j : Json) (h : j.IsValue) : (jsonToRmpv j).KeysAscend := by
  cases j with
  | null | bool | string => trivial
  | number n => exact numberToRmpv_ascends n
  | array items => exact jsonsToRmpv_ascend items h
  | object members =>
    refine ⟨?_, membersToRmpv_ascend members h.2⟩
    rw [keys_membersToRmpv]
    exact List.pairwise_map.mpr h.1

theorem jsonsToRmpv_ascend (items : List Json) (h : areValues items) :
    itemsAscend (jsonsToRmpv items) := by
  cases items with
  | nil => trivial
  | cons j items => exact ⟨jsonToRmpv_ascends j h.1, jsonsToRmpv_ascend items h.2⟩

theorem membersToRmpv_ascend (members : List (String × Json)) (h : membersAreValues members) :
    valuesAscend (membersToRmpv members) := by
  cases members with
  | nil => trivial
  | cons m members =>
    obtain ⟨k, j⟩ := m
    exact ⟨jsonToRmpv_ascends j h.1, membersToRmpv_ascend members h.2⟩

end

theorem rmpv_same_iff {w : Value} (h : w.Plain) :
    jsonToRmpv (rmpvToJson debug w) = w ↔ w.KeysAscend := by
  constructor
  · intro hSame
    rw [← hSame]
    exact jsonToRmpv_ascends _ (rmpvToJson_isValue debug w)
  · intro hAscend
    rw [rmpv_round_trip debug w h, sortKeys_ascending w hAscend]

end Back

/-- The values of a frame. -/
def Frame.payloads : Frame → List Value
  | .request _ _ params => [params]
  | .response _ error result => [error, result]
  | .notify _ params => [params]

theorem decodeOne_encode {M : MessagePack} {f : Frame} (h : M.Faithful f.envelope) :
    ∃ bytes, f.encode M = .ok bytes ∧ Frame.decodeOne M bytes = .ok (some (f, bytes.length)) := by
  obtain ⟨bytes, hWrite, hRead, -⟩ := h
  refine ⟨bytes, by rw [Frame.encode, hWrite], ?_⟩
  rw [Frame.decodeOne, hRead]
  simp [Frame.fromValue_envelope, Except.map]

/-- JSON values come back from the connection, also through the codec.  Values of the connection come
back from JSON with the entries of their maps in ascending order. -/
theorem conversions_round_trip (debug : Value → String) :
    (∀ j : Json, j.IsValue → rmpvToJson debug (jsonToRmpv j) = j) ∧
    (∀ (M : MessagePack) (f : Frame), M.Faithful f.envelope →
      ∃ bytes f', f.encode M = .ok bytes ∧
        Frame.decodeOne M bytes = .ok (some (f', bytes.length)) ∧
        ∀ (i : Nat) (j : Json), j.IsValue → f.payloads[i]? = some (jsonToRmpv j) →
          f'.payloads[i]?.map (rmpvToJson debug) = some j) ∧
    (∀ w : Value, w.Plain → jsonToRmpv (rmpvToJson debug w) = w.sortKeys ∧
      (jsonToRmpv (rmpvToJson debug w) = w ↔ w.KeysAscend)) := by
  refine ⟨json_round_trip debug, fun M f hFaithful => ?_,
    fun w h => ⟨rmpv_round_trip debug w h, rmpv_same_iff debug h⟩⟩
  obtain ⟨bytes, hEncode, hDecode⟩ := decodeOne_encode hFaithful
  refine ⟨bytes, f, hEncode, hDecode, fun i j h hAt => ?_⟩
  rw [hAt, Option.map_some, json_round_trip debug j h]

def numbers : Json :=
  .object [("max", .number (.posInt (2 ^ 64 - 1) (by decide))),
    ("min", .number (.negInt (-2 ^ 63) (by decide))), ("one", .number (.float 0x3ff0000000000000 rfl))]

def noted : Json := .array [.null, .number (.posInt 5 (by decide))]

def note : Frame := .notify "p" (jsonToRmpv noted)

theorem note_faithful : Wire.messagePack.Faithful note.envelope := by
  have hWrite : Wire.writeAt Wire.maxDepth note.envelope =
      .ok [0x93, 0x02, 0xa1, 0x70, 0x92, 0xc0, 0x05] := by decide +kernel
  refine Wire.faithful_of_parts hWrite rfl fun k hk => ?_
  simp only [List.length_cons, List.length_nil] at hk
  obtain rfl | rfl | rfl | rfl | rfl | rfl | rfl :
    k = 0 ∨ k = 1 ∨ k = 2 ∨ k = 3 ∨ k = 4 ∨ k = 5 ∨ k = 6 := by omega
  · exact ⟨.invalidMarkerRead .unexpectedEof, rfl, rfl⟩
  all_goals exact ⟨.invalidDataRead .unexpectedEof, rfl, rfl⟩

def unordered : Value := .map [(.string "b", .nil), (.string "a", .nil)]

theorem unordered_plain : unordered.Plain :=
  ⟨⟨⟨_, rfl⟩, trivial, ⟨_, rfl⟩, trivial, trivial⟩, by decide⟩

/-- Numbers of each kind, a notification, and a map whose keys are out of order. -/
theorem samples_round_trip : rmpvToJson (fun _ => "") (jsonToRmpv numbers) = numbers ∧
    (∃ bytes f', note.encode Wire.messagePack = .ok bytes ∧
      Frame.decodeOne Wire.messagePack bytes = .ok (some (f', bytes.length)) ∧
      f'.payloads[0]?.map (rmpvToJson fun _ => "") = some noted) ∧
    jsonToRmpv (rmpvToJson (fun _ => "") unordered) = unordered.sortKeys := by
  obtain ⟨hJson, hCodec, hRmpv⟩ := conversions_round_trip fun _ => ""
  obtain ⟨bytes, f', hEncode, hDecode, hBack⟩ := hCodec Wire.messagePack note note_faithful
  have hNoted : noted.IsValue := ⟨trivial, trivial, trivial⟩
  exact ⟨hJson numbers ⟨by decide, trivial, trivial, trivial, trivial⟩,
    ⟨bytes, f', hEncode, hDecode, hBack 0 noted hNoted rfl⟩, (hRmpv unordered unordered_plain).1⟩

/-- The entries come back in the other order. -/
theorem unordered_reordered : ¬∀ w : Value, w.Plain →
    jsonToRmpv (rmpvToJson (fun _ => "") w) = w := by
  intro h
  have hSame := h unordered unordered_plain
  have hKeys := congrArg (fun v => match v with | .map entries => keys entries | _ => []) hSame
  revert hKeys
  decide

end Cronymax.Rpc
