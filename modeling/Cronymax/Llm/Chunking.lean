import Cronymax.Llm.Anthropic

/-! The decoding of OpenAI-compatible streams.  The events of a payload depend on nothing but the
payload. -/

namespace Cronymax.Llm

open Agent (LlmEvent FinishReason)

structure WireFunctionDelta where
  name : Option String
  arguments : Option String

structure WireToolCallDelta where
  index : Nat
  id : Option String
  function : Option WireFunctionDelta

structure WireDelta where
  content : Option String
  reasoningContent : Option String
  toolCalls : Option (List WireToolCallDelta)

structure WireChoice where
  delta : Option WireDelta
  finishReason : Option String

structure WireUsage where
  promptTokens : Nat
  completionTokens : Nat

/-- `WireChunk`. -/
structure WireChunk where
  choices : List WireChoice
  usage : Option WireUsage

/-- `FinishReason::from_str`. -/
def finishReasonOf : String → FinishReason
  | "stop" => .stop
  | "tool_calls" => .toolCalls
  | "length" => .length
  | other => .other other

def eventOfText (event : String → LlmEvent) : Option String → List LlmEvent
  | some text => if text = "" then [] else [event text]
  | none => []

def WireToolCallDelta.event (c : WireToolCallDelta) : LlmEvent :=
  .toolCallDelta c.index c.id (c.function.bind (·.name)) (c.function.bind (·.arguments))

def WireDelta.events (d : WireDelta) : List LlmEvent :=
  eventOfText .thinkingDelta d.reasoningContent ++ eventOfText .delta d.content ++
    (d.toolCalls.getD []).map (·.event)

/-- The events of a choice. -/
def WireChoice.events (c : WireChoice) : List LlmEvent :=
  (c.delta.map (·.events)).getD [] ++
    (c.finishReason.map fun reason => .done (finishReasonOf reason)).toList

/-- `parse_chunk`.  Only the first choice counts. -/
def WireChunk.events (chunk : WireChunk) : List LlmEvent :=
  (chunk.usage.map fun usage => .usage usage.promptTokens usage.completionTokens).toList ++
    (chunk.choices.head?.map (·.events)).getD []

/-- `fromStr` is `serde_json::from_str`; a malformed chunk is skipped. -/
def openAiReader (fromStr : String → Option WireChunk) : Reader Unit where
  start := ()
  marker := some "[DONE]".toList
  decode := fun _ payload => ((), ((fromStr payload).map (·.events)).getD [], false)

end Cronymax.Llm

/-! What the pump makes of a response does not depend on the network, as long as no chunk ends inside a
character of a data line and every data line comes with its line end.  `decodeText` says what a stream
means as a whole, and `Clear` is the condition. -/

namespace Cronymax.Llm

open Agent (LlmEvent)
open Framing (cutAt cutAt_append cutAt_forall₂)
open Utf8

variable {σ : Type} {r : Reader σ}

namespace Reader

/-- The payloads and events of complete lines. -/
@[grind =] def decodeLines (r : Reader σ) : σ → List (List Char) → List (List Char) × List LlmEvent
  | _, [] => ([], [])
  | s, l :: ls =>
    match dataPayload l with
    | none => r.decodeLines s ls
    | some payload =>
      if r.marker = some payload then ([], [])
      else
        let (s', events, ended) := r.decode s (String.ofList payload)
        let rest := if ended then ([], []) else r.decodeLines s' ls
        (payload :: rest.1, events ++ rest.2)

/-- What a text decodes to, apart from how it is split. -/
def decodeText (r : Reader σ) (text : List Char) : List (List Char) × List LlmEvent :=
  let cut := cutAt isLineFeed text
  r.decodeLines r.start (cut.1 ++ [cut.2])

end Reader

/-- The text of all `Delta` events. -/
def deltaText (events : List LlmEvent) : String :=
  String.join (events.filterMap fun
    | .delta content => some content
    | _ => none)

/-- The response is decoded as it was sent: with the events of the unsplit stream, every data line
once, and the text of the reply whole. -/
structure Faithful (r : Reader σ) (chunks : List (List UInt8)) (text : List Char) : Prop where
  unsplit : (pump r (chunks.map .ok)).sent = (pump r [.ok (encode text)]).sent
  once : (pump r (chunks.map .ok)).decoded = (r.decodeText text).1
  reply : deltaText (pump r (chunks.map .ok)).sent = deltaText (r.decodeText text).2

/-- No line that matters is cut within a character. -/
@[grind =] def Reader.ClearFrom (r : Reader σ) (chunks : List (List UInt8)) (rest : List Char) :
    σ → List (List (Nat × Char)) → Prop
  | _, [] => ∀ payload, dataPayload rest = some payload → r.marker = some payload
  | s, l :: ls =>
    match dataPayload (l.map Prod.snd) with
    | none => r.ClearFrom chunks rest s ls
    | some payload =>
      (∀ c ∈ l, ¬Torn chunks c) ∧
        (r.marker = some payload ∨ (r.decode s (String.ofList payload)).2.2 = true ∨
          r.ClearFrom chunks rest (r.decode s (String.ofList payload)).1 ls)

/-- The chunks cut no character of a payload. -/
def Clear (r : Reader σ) (chunks : List (List UInt8)) (text : List Char) : Prop :=
  let cut := cutAt (fun c => isLineFeed c.2) (located 0 text)
  r.ClearFrom chunks (cut.2.map Prod.snd) r.start cut.1

namespace Pump

variable {x : Pump σ}

theorem line_of_ended (h : x.ended = true) (l : List Char) : x.line r l = x := if_pos h

theorem lines_of_ended (h : x.ended = true) (ls : List (List Char)) : ls.foldl (line r) x = x := by
  induction ls with
  | nil => rfl
  | cons l ls ih => rw [List.foldl_cons, line_of_ended h, ih]

theorem chunks_of_ended (h : x.ended = true) (cs : List (Except String (List UInt8))) :
    cs.foldl (chunk r) x = x := by
  induction cs with
  | nil => rfl
  | cons c cs ih =>
    have hStay : x.chunk r c = x := by cases c <;> exact if_pos h
    rw [List.foldl_cons, hStay, ih]

theorem line_buf (b : List Char) (l : List Char) :
    ({ x with buf := b } : Pump σ).line r l = { x.line r l with buf := b } := by
  unfold line
  split
  · rfl
  · split
    · rfl
    · split <;> rfl

theorem lines_buf (b : List Char) (ls : List (List Char)) :
    ls.foldl (line r) { x with buf := b } = { ls.foldl (line r) x with buf := b } := by
  induction ls generalizing x with
  | nil => rfl
  | cons l ls ih => rw [List.foldl_cons, line_buf, ih, List.foldl_cons]

theorem cutAt_rest {α : Type} (p : α → Bool) (text : List α) : (cutAt p (cutAt p text).2).1 = [] := by
  have h := congrArg Prod.fst (cutAt_append (p := p) text [])
  rw [List.append_nil, List.append_nil] at h
  exact List.append_right_eq_self.mp h.symm

theorem chunks_eq (chunks : List (List UInt8)) (hBuf : (cutAt isLineFeed x.buf).1 = []) :
    ∃ b, (chunks.map Except.ok).foldl (chunk r) x =
      { (cutAt isLineFeed (x.buf ++ chunks.flatMap lossy)).1.foldl (line r) x with buf := b } := by
  induction chunks generalizing x with
  | nil =>
    refine ⟨x.buf, ?_⟩
    rw [List.flatMap_nil, List.append_nil, hBuf]
    rfl
  | cons c chunks ih =>
    by_cases hEnded : x.ended = true
    · refine ⟨x.buf, ?_⟩
      rw [chunks_of_ended hEnded, lines_of_ended hEnded]
    · have hChunk : x.chunk r (.ok c) =
          { (cutAt isLineFeed (x.buf ++ lossy c)).1.foldl (line r) x with
            buf := (cutAt isLineFeed (x.buf ++ lossy c)).2 } := if_neg hEnded
      obtain ⟨b, hb⟩ := ih (x := { (cutAt isLineFeed (x.buf ++ lossy c)).1.foldl (line r) x with
        buf := (cutAt isLineFeed (x.buf ++ lossy c)).2 }) (cutAt_rest _ _)
      refine ⟨b, ?_⟩
      rw [List.map_cons, List.foldl_cons, hChunk, hb, lines_buf, List.flatMap_cons,
        ← List.append_assoc, cutAt_append (x.buf ++ lossy c), List.foldl_append]

theorem lines_decoded (ls : List (List Char)) (h : x.ended = false) :
    (ls.foldl (line r) x).decoded = x.decoded ++ (r.decodeLines x.state ls).1 ∧
      (ls.foldl (line r) x).sent = x.sent ++ (r.decodeLines x.state ls).2 := by
  induction ls generalizing x with
  | nil => simp [Reader.decodeLines]
  | cons l ls ih =>
    have hStep : x.line r l =
        match dataPayload l with
        | none => x
        | some payload =>
          if r.marker = some payload then { x with ended := true }
          else
            { x with
              state := (r.decode x.state (String.ofList payload)).1
              sent := x.sent ++ (r.decode x.state (String.ofList payload)).2.1
              decoded := x.decoded ++ [payload]
              ended := (r.decode x.state (String.ofList payload)).2.2 } := by
      exact if_neg (by simp [h])
    rw [List.foldl_cons, hStep, Reader.decodeLines]
    cases hData : dataPayload l with
    | none => exact ih h
    | some payload =>
      by_cases hMarker : r.marker = some payload
      · simp only [if_pos hMarker]
        rw [lines_of_ended rfl]
        simp
      · simp only [if_neg hMarker]
        cases hEnded : (r.decode x.state (String.ofList payload)).2.2 with
        | true =>
          rw [lines_of_ended rfl]
          simp
        | false =>
          obtain ⟨hDecoded, hSent⟩ := ih (x := { x with
              state := (r.decode x.state (String.ofList payload)).1
              sent := x.sent ++ (r.decode x.state (String.ofList payload)).2.1
              decoded := x.decoded ++ [payload]
              ended := false }) rfl
          exact ⟨by rw [hDecoded]; simp, by rw [hSent]; simp⟩

end Pump

theorem pump_eq (chunks : List (List UInt8)) :
    (pump r (chunks.map .ok)).decoded =
        (r.decodeLines r.start (cutAt isLineFeed (chunks.flatMap lossy)).1).1 ∧
      (pump r (chunks.map .ok)).sent =
        (r.decodeLines r.start (cutAt isLineFeed (chunks.flatMap lossy)).1).2 := by
  obtain ⟨b, hPump⟩ := Pump.chunks_eq (r := r) (x := .start r) chunks rfl
  have hLines := Pump.lines_decoded (r := r) (x := .start r)
    (cutAt isLineFeed (chunks.flatMap lossy)).1 rfl
  rw [pump, hPump]
  exact hLines

def dataPrefix : List Char := "data:".toList

theorem dataPayload_data {l t : List Char} (h : l.rdropWhile isLineEnd = dataPrefix ++ t) :
    dataPayload l = some (t.dropWhile isWhitespace) := by
  simp only [dataPayload, h]
  rw [if_neg (by simp [dataPrefix])]
  cases hSpace : (dataPrefix ++ t).dropPrefix? "data: ".toList with
  | some t' =>
    obtain ⟨q, hSplit, hq⟩ := List.dropPrefix?_eq_some_iff.mp hSpace
    obtain rfl : q = "data: ".toList := by simpa using hq
    have hSame : dataPrefix ++ t = dataPrefix ++ ' ' :: t' := hSplit
    obtain rfl : t = ' ' :: t' := List.append_cancel_left hSame
    rfl
  | none =>
    rw [show (dataPrefix ++ t).dropPrefix? "data:".toList = some t from
      List.dropPrefix?_append_of_beq t (by simp [dataPrefix])]
    rfl

theorem dataPayload_other {l : List Char} (h : ¬dataPrefix <+: l.rdropWhile isLineEnd) :
    dataPayload l = none := by
  simp only [dataPayload]
  split
  · rfl
  · have hNone : ∀ q, dataPrefix <+: q → (l.rdropWhile isLineEnd).dropPrefix? q = none := by
      intro q hq
      cases hDrop : (l.rdropWhile isLineEnd).dropPrefix? q with
      | none => rfl
      | some t =>
        obtain ⟨q', hSplit, hq'⟩ := List.dropPrefix?_eq_some_iff.mp hDrop
        obtain rfl : q' = q := by simpa using hq'
        exact absurd (hq.trans ⟨t, hSplit.symm⟩) h
    rw [hNone "data: ".toList ⟨[' '], rfl⟩, hNone "data:".toList List.prefix_rfl]
    rfl

theorem trimmed_smudged {t t' : List Char} (h : Smudged t t') :
    Smudged (t.rdropWhile isLineEnd) (t'.rdropWhile isLineEnd) ∧
      (t' = t ∨ (t.rdropWhile isLineEnd).length < (t'.rdropWhile isLineEnd).length) := by
  have hKept : isLineEnd replacement = false := by decide
  have hAscii : ∀ c, isLineEnd c = true → c.val.toNat < 0x80 := by
    intro c hc
    simp only [isLineEnd, decide_eq_true_eq] at hc
    rcases hc with rfl | rfl <;> decide
  constructor
  · exact (h.reverse.dropWhile hKept hAscii).reverse
  · rcases h.reverse.dropWhile_longer hKept with hEq | hLonger
    · exact .inl (List.reverse_inj.mp hEq)
    · exact .inr (by simpa [List.rdropWhile] using hLonger)

theorem dataPayload_smudged {t t' : List Char} (h : Smudged t t') (hLost : t' ≠ t) :
    (dataPayload t = none ∧ dataPayload t' = none) ∨
      ∃ payload payload', dataPayload t = some payload ∧ dataPayload t' = some payload' ∧
        payload' ≠ payload := by
  obtain ⟨hTrimmed, hLonger⟩ := trimmed_smudged h
  have hLonger := hLonger.resolve_left hLost
  have hAscii : ∀ c ∈ dataPrefix, c.val.toNat < 0x80 := by simp [dataPrefix]
  by_cases hData : dataPrefix <+: t.rdropWhile isLineEnd
  · have hData' := (hTrimmed.prefix_iff hAscii).mp hData
    obtain ⟨u, hu⟩ := hData
    obtain ⟨u', hu'⟩ := hData'
    refine .inr ⟨_, _, dataPayload_data hu.symm, dataPayload_data hu'.symm, fun hEq => ?_⟩
    rw [← hu, ← hu'] at hTrimmed hLonger
    have hRest := hTrimmed.drop_prefix hAscii
    rcases hRest.dropWhile_longer (p := isWhitespace) (by decide) with rfl | hLt
    · exact Nat.lt_irrefl _ hLonger
    · rw [hEq] at hLt
      exact Nat.lt_irrefl _ hLt
  · have hData' := fun h' => hData ((hTrimmed.prefix_iff hAscii).mpr h')
    exact .inl ⟨dataPayload_other hData, dataPayload_other hData'⟩

section Lines

variable {chunks : List (List UInt8)} {lines : List (List (Nat × Char))}
  {arrived : List (List (List Char))} {rest : List Char}

theorem decodeLines_other {s : σ} {l : List Char} (h : dataPayload l = none) (ls : List (List Char)) :
    r.decodeLines s (l :: ls) = r.decodeLines s ls := by
  rw [Reader.decodeLines, h]

theorem decodeLines_marker {s : σ} {l payload : List Char} (h : dataPayload l = some payload)
    (hMarker : r.marker = some payload) (ls : List (List Char)) :
    r.decodeLines s (l :: ls) = ([], []) := by
  simp only [Reader.decodeLines, h, if_pos hMarker]

theorem decodeLines_data {s : σ} {l payload : List Char} (h : dataPayload l = some payload)
    (hMarker : r.marker ≠ some payload) (ls : List (List Char)) :
    r.decodeLines s (l :: ls) =
      let next := r.decode s (String.ofList payload)
      let rest := if next.2.2 then ([], []) else r.decodeLines next.1 ls
      (payload :: rest.1, next.2.1 ++ rest.2) := by
  simp only [Reader.decodeLines, h, if_neg hMarker]

theorem decodeLines_of_clear (h : List.Forall₂ (List.Forall₂ (Arrives chunks)) lines arrived) {s : σ}
    (hClear : r.ClearFrom chunks rest s lines) :
    r.decodeLines s (arrived.map List.flatten) = r.decodeLines s (lines.map (·.map Prod.snd)) := by
  induction h generalizing s with
  | nil => rfl
  | @cons l a lines arrived hLine hLines ih =>
    simp only [List.map_cons]
    rw [Reader.ClearFrom] at hClear
    cases hData : dataPayload (l.map Prod.snd) with
    | none =>
      rw [hData] at hClear
      have hArrived : dataPayload a.flatten = none := by
        by_cases hWhole : a.flatten = l.map Prod.snd
        · rw [hWhole, hData]
        · rcases dataPayload_smudged (smudged_of_arrives hLine) hWhole with h | ⟨_, _, h, -⟩
          · exact h.2
          · rw [hData] at h
            cases h
      rw [decodeLines_other hArrived, decodeLines_other hData]
      exact ih hClear
    | some payload =>
      rw [hData] at hClear
      rw [(arrived_eq_iff hLine).mpr hClear.1]
      by_cases hMarker : r.marker = some payload
      · rw [decodeLines_marker hData hMarker, decodeLines_marker hData hMarker]
      · rw [decodeLines_data hData hMarker, decodeLines_data hData hMarker]
        rcases hClear.2 with h | hEnded | hRest
        · exact absurd h hMarker
        · simp only [hEnded, if_true]
        · simp only [ih hRest]

theorem decodeLines_rest {s : σ} (hClear : r.ClearFrom chunks rest s lines) :
    r.decodeLines s (lines.map (·.map Prod.snd)) =
      r.decodeLines s (lines.map (·.map Prod.snd) ++ [rest]) := by
  induction lines generalizing s with
  | nil =>
    simp only [List.map_nil, List.nil_append]
    cases hData : dataPayload rest with
    | none => rw [decodeLines_other hData]
    | some payload => rw [decodeLines_marker hData (hClear payload hData)]; rfl
  | cons l lines ih =>
    simp only [List.map_cons, List.cons_append]
    rw [Reader.ClearFrom] at hClear
    cases hData : dataPayload (l.map Prod.snd) with
    | none =>
      rw [hData] at hClear
      rw [decodeLines_other hData, decodeLines_other hData]
      exact ih hClear
    | some payload =>
      rw [hData] at hClear
      by_cases hMarker : r.marker = some payload
      · rw [decodeLines_marker hData hMarker, decodeLines_marker hData hMarker]
      · rw [decodeLines_data hData hMarker, decodeLines_data hData hMarker]
        rcases hClear.2 with h | hEnded | hRest
        · exact absurd h hMarker
        · simp only [hEnded, if_true]
        · simp only [ih hRest]

theorem clear_of_decodeLines (h : List.Forall₂ (List.Forall₂ (Arrives chunks)) lines arrived) {s : σ}
    (hSame : (r.decodeLines s (arrived.map List.flatten)).1 =
      (r.decodeLines s (lines.map (·.map Prod.snd) ++ [rest])).1) :
    r.ClearFrom chunks rest s lines := by
  induction h generalizing s with
  | nil =>
    intro payload hData
    by_contra hMarker
    simp only [List.map_nil, List.nil_append] at hSame
    rw [decodeLines_data hData hMarker] at hSame
    cases hSame
  | @cons l a lines arrived hLine hLines ih =>
    simp only [List.map_cons, List.cons_append] at hSame
    rw [Reader.ClearFrom]
    by_cases hWhole : a.flatten = l.map Prod.snd
    · rw [hWhole] at hSame
      cases hData : dataPayload (l.map Prod.snd) with
      | none =>
        rw [decodeLines_other hData, decodeLines_other hData] at hSame
        exact ih hSame
      | some payload =>
        refine ⟨(arrived_eq_iff hLine).mp hWhole, ?_⟩
        by_cases hMarker : r.marker = some payload
        · exact .inl hMarker
        · rw [decodeLines_data hData hMarker, decodeLines_data hData hMarker] at hSame
          cases hEnded : (r.decode s (String.ofList payload)).2.2 with
          | true => exact .inr (.inl rfl)
          | false =>
            simp only [hEnded, Bool.false_eq_true, if_false, List.cons_inj_right] at hSame
            exact .inr (.inr (ih hSame))
    · rcases dataPayload_smudged (smudged_of_arrives hLine) hWhole with
        ⟨hData, hArrived⟩ | ⟨payload, payload', hData, hArrived, hNe⟩
      · rw [decodeLines_other hArrived, decodeLines_other hData] at hSame
        rw [hData]
        exact ih hSame
      · exfalso
        by_cases hMarker : r.marker = some payload
        · have hMarker' : r.marker ≠ some payload' := fun h =>
            hNe (Option.some.inj (h.symm.trans hMarker))
          rw [decodeLines_data hArrived hMarker', decodeLines_marker hData hMarker] at hSame
          cases hSame
        · rw [decodeLines_data hData hMarker] at hSame
          by_cases hMarker' : r.marker = some payload'
          · rw [decodeLines_marker hArrived hMarker'] at hSame
            cases hSame
          · rw [decodeLines_data hArrived hMarker'] at hSame
            exact hNe (List.cons.inj hSame).1

end Lines

theorem lines_arrive {chunks : List (List UInt8)} {text : List Char}
    (hText : chunks.flatten = encode text) :
    ∃ arrived, List.Forall₂ (List.Forall₂ (Arrives chunks))
        (cutAt (fun c => isLineFeed c.2) (located 0 text)).1 arrived ∧
      (cutAt isLineFeed (chunks.flatMap lossy)).1 = arrived.map List.flatten := by
  have hEnd : ∀ (c : Nat × Char) (a : List Char), Arrives chunks c a → isLineFeed c.2 = true →
      ∃ d, a = [d] ∧ isLineFeed d = true := by
    intro c a hArrive hFeed
    have hWhole : ¬Torn chunks c := fun hTorn => by
      have hWide := (hArrive.torn hTorn).1
      simp only [isLineFeed, decide_eq_true_eq] at hFeed
      rw [hFeed] at hWide
      exact absurd hWide (by decide)
    exact ⟨c.2, hArrive.whole hWhole, hFeed⟩
  have hInside : ∀ (c : Nat × Char) (a : List Char), Arrives chunks c a → isLineFeed c.2 = false →
      ∀ d ∈ a, isLineFeed d = false := by
    intro c a hArrive hOther d hd
    by_cases hTorn : Torn chunks c
    · obtain ⟨-, k, rfl⟩ := hArrive.torn hTorn
      obtain rfl := List.eq_of_mem_replicate hd
      decide
    · rw [hArrive.whole hTorn] at hd
      obtain rfl := List.mem_singleton.mp hd
      exact hOther
  obtain ⟨arrived, hArrives, hLossy⟩ := arrivals hText
  obtain ⟨lines, rest, hCut, hLines, -⟩ := cutAt_forall₂ hArrives hEnd hInside
  exact ⟨lines, hLines, by rw [hLossy, hCut]⟩

theorem lines_of_text (text : List Char) :
    cutAt isLineFeed text =
      ((cutAt (fun c => isLineFeed c.2) (located 0 text)).1.map (·.map Prod.snd),
        (cutAt (fun c => isLineFeed c.2) (located 0 text)).2.map Prod.snd) := by
  rw [← Framing.cutAt_map, located_text]

theorem faithful_iff (r : Reader σ) {chunks : List (List UInt8)} {text : List Char}
    (hText : chunks.flatten = encode text) : Faithful r chunks text ↔ Clear r chunks text := by
  obtain ⟨arrived, hArrived, hLines⟩ := lines_arrive hText
  obtain ⟨hDecoded, hSent⟩ := pump_eq (r := r) chunks
  rw [hLines] at hDecoded hSent
  have hWhole : r.decodeText text = r.decodeLines r.start
      ((cutAt (fun c => isLineFeed c.2) (located 0 text)).1.map (·.map Prod.snd) ++
        [(cutAt (fun c => isLineFeed c.2) (located 0 text)).2.map Prod.snd]) := by
    rw [Reader.decodeText, lines_of_text]
  constructor
  · intro h
    refine clear_of_decodeLines hArrived ?_
    rw [← hDecoded, ← hWhole]
    exact h.once
  · intro h
    have hSame := (decodeLines_of_clear hArrived h).trans (decodeLines_rest h)
    rw [← hWhole] at hSame
    have hUnsplit : (pump r [.ok (encode text)]).sent = (r.decodeText text).2 := by
      have hOne := (pump_eq (r := r) [encode text]).2
      rw [List.flatMap_singleton, lossy_encode, lines_of_text, decodeLines_rest h, ← hWhole] at hOne
      exact hOne
    exact
      { unsplit := by rw [hSent, hSame, hUnsplit]
        once := by rw [hDecoded, hSame]
        reply := by rw [hSent, hSame] }

/-- The streams of both providers. -/
theorem streams_faithful_iff (parseChunk : String → Option WireChunk)
    (parseEvent : String → Option Authority.Value) {chunks : List (List UInt8)} {text : List Char}
    (hText : chunks.flatten = encode text) :
    (Faithful (openAiReader parseChunk) chunks text ↔ Clear (openAiReader parseChunk) chunks text) ∧
      (Faithful (anthropicReader parseEvent) chunks text ↔
        Clear (anthropicReader parseEvent) chunks text) :=
  ⟨faithful_iff _ hText, faithful_iff _ hText⟩

theorem not_torn_of_ascii {chunks : List (List UInt8)} {c : Nat × Char} (h : c.2.val.toNat < 0x80) :
    ¬Torn chunks c := by
  rintro ⟨k, -, hAbove, hBelow⟩
  have hOne : (String.utf8EncodeChar c.2).length = 1 := by
    rw [String.utf8EncodeChar, if_pos (show c.2.val.toNat ≤ 0x7f by omega)]
    rfl
  omega

theorem clearFrom_of_ascii {chunks : List (List UInt8)} {rest : List Char}
    {lines : List (List (Nat × Char))} (hAscii : ∀ l ∈ lines, ∀ c ∈ l, c.2.val.toNat < 0x80)
    (hRest : dataPayload rest = none) (s : σ) : r.ClearFrom chunks rest s lines := by
  induction lines generalizing s with
  | nil =>
    intro payload hData
    rw [hRest] at hData
    cases hData
  | cons l lines ih =>
    have hLines := fun s => ih (fun l' hl' => hAscii l' (List.mem_cons_of_mem _ hl')) s
    rw [Reader.ClearFrom]
    cases dataPayload (l.map Prod.snd) with
    | none => exact hLines s
    | some payload =>
      exact ⟨fun c hc => not_torn_of_ascii (hAscii l List.mem_cons_self c hc), .inr (.inr (hLines _))⟩

section Examples

def contentChunk (content : String) : WireChunk :=
  ⟨[⟨some ⟨some content, none, none⟩, none⟩], none⟩

def payloadOf (content : String) : String :=
  "\x7b\"choices\":[\x7b\"delta\":\x7b\"content\":\"" ++ content ++ "\"\x7d\x7d]\x7d"

/-- `serde_json::from_str` on the payloads of the examples. -/
def parseDemo (payload : String) : Option WireChunk :=
  if payload = payloadOf "Hi" then some (contentChunk "Hi")
  else if payload = payloadOf "é" then some (contentChunk "é")
  else if payload = payloadOf "\uFFFD\uFFFD" then some (contentChunk "\uFFFD\uFFFD")
  else none

def greetingText : List Char := ("data: " ++ payloadOf "Hi" ++ "\n\n").toList

def accentText : List Char := ("data: " ++ payloadOf "é" ++ "\n\n").toList

def inTwo (n : Nat) (text : List Char) : List (List UInt8) := [(encode text).take n, (encode text).drop n]

theorem inTwo_flatten (n : Nat) (text : List Char) : (inTwo n text).flatten = encode text := by
  simp [inTwo]

/-- An event that comes in two pieces. -/
theorem greeting_faithful : Faithful (openAiReader parseDemo) (inTwo 10 greetingText) greetingText := by
  refine (streams_faithful_iff parseDemo (fun _ => none) (inTwo_flatten 10 greetingText)).1.mpr ?_
  exact clearFrom_of_ascii (by decide +kernel) (by decide +kernel) ()

/-- The two bytes of `é` come in different chunks; and a line without its line end is dropped. -/
theorem accent_lost :
    (inTwo 40 accentText).flatten = encode accentText ∧
      deltaText (pump (openAiReader parseDemo) [.ok (encode accentText)]).sent = "é" ∧
      deltaText (pump (openAiReader parseDemo) ((inTwo 40 accentText).map .ok)).sent = "\uFFFD\uFFFD" ∧
      (pump (openAiReader parseDemo) [.ok (encode accentText.dropLast.dropLast)]).sent = [] := by
  refine ⟨inTwo_flatten 42 accentText, ?_, ?_, ?_⟩ <;> decide +kernel

end Examples

end Cronymax.Llm
