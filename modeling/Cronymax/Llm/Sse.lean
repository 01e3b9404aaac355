import Cronymax.Agent.Messages
import Cronymax.Framing.Lines
import Cronymax.Utf8.Smudge
import Mathlib.Data.List.DropRight

/-! The pump of a provider: it turns the bytes of a response into text, cuts lines from a rolling
buffer, and decodes the payloads of the data lines into events.  The two providers differ in how they
decode a payload and in what ends their streams. -/

namespace Cronymax.Llm

open Agent (LlmEvent)
open Framing (cutAt lineDecoder)
open Utf8 (lossy encode)

/-- `char::is_whitespace`. -/
def isWhitespace (c : Char) : Bool :=
  (9 ≤ c.toNat ∧ c.toNat ≤ 13) ∨ (0x2000 ≤ c.toNat ∧ c.toNat ≤ 0x200A) ∨
    c.toNat ∈ [0x20, 0x85, 0xA0, 0x1680, 0x2028, 0x2029, 0x202F, 0x205F, 0x3000]

def isLineFeed (c : Char) : Bool := c = '\n'

def isLineEnd (c : Char) : Bool := c = '\r' ∨ c = '\n'

/-- The payload of a line. -/
def dataPayload (line : List Char) : Option (List Char) :=
  let line := line.rdropWhile isLineEnd
  if line = [] ∨ line.head? = some ':' then none
  else
    match line.dropPrefix? "data: ".toList with
    | some payload => some (payload.dropWhile isWhitespace)
    | none => (line.dropPrefix? "data:".toList).map (·.dropWhile isWhitespace)

/-- What a provider makes of payloads. -/
structure Reader (σ : Type) where
  start : σ
  marker : Option (List Char)
  decode : σ → String → σ × List LlmEvent × Bool

/-- The variables of `pump`. -/
structure Pump (σ : Type) where
  buf : List Char
  state : σ
  sent : List LlmEvent
  decoded : List (List Char)
  /-- `pump` has returned. -/
  ended : Bool

namespace Pump

variable {σ : Type} (r : Reader σ)

def start : Pump σ := ⟨[], r.start, [], [], false⟩

variable (x : Pump σ)

/-- What the pump makes of a line; nothing after its end. -/
def line (l : List Char) : Pump σ :=
  if x.ended then x
  else
    match dataPayload l with
    | none => x
    | some payload =>
      if r.marker = some payload then { x with ended := true }
      else
        let (state, events, ended) := r.decode x.state (String.ofList payload)
        { x with state, sent := x.sent ++ events, decoded := x.decoded ++ [payload], ended }

/-- What the pump makes of a chunk: each is decoded for itself. -/
def chunk : Except String (List UInt8) → Pump σ
  | .error e =>
    if x.ended then x
    else { x with sent := x.sent ++ [.error ("stream io: " ++ e)], ended := true }
  | .ok bytes =>
    if x.ended then x
    else
      let cut := cutAt isLineFeed (x.buf ++ lossy bytes)
      { cut.1.foldl (line r) x with buf := cut.2 }

end Pump

/-- `pump`. -/
def pump {σ : Type} (r : Reader σ) (chunks : List (Except String (List UInt8))) : Pump σ :=
  chunks.foldl (Pump.chunk r) (.start r)

end Cronymax.Llm
