import Mathlib.Data.List.Forall2
import Mathlib.Data.List.Infix
import Mathlib.Data.List.ReduceOption

/-! The lossy decoding of UTF-8: `decode` takes one byte after the other, and what is not UTF-8 becomes
U+FFFD, one for each longest part of a character.  When the pieces of a stream are decoded on their own,
a character that a piece ends in the middle of is lost: `arrivals` says what becomes of each character
of the stream. -/

namespace Utf8

def replacement : Char := '\uFFFD'

/-- A character whose first bytes have come. -/
structure Partial where
  value : Nat
  missing : Nat
  low : Nat
  high : Nat

abbrev Outcome := Option Partial × List Char

/-- A byte that begins a character. -/
@[grind =] def lead (b : Nat) : Outcome :=
  if b < 0x80 then (none, [Char.ofNat b])
  else if b < 0xC2 then (none, [replacement])
  else if b < 0xE0 then (some ⟨b % 32, 1, 0x80, 0xBF⟩, [])
  else if b = 0xE0 then (some ⟨0, 2, 0xA0, 0xBF⟩, [])
  else if b = 0xED then (some ⟨0xD, 2, 0x80, 0x9F⟩, [])
  else if b < 0xF0 then (some ⟨b % 16, 2, 0x80, 0xBF⟩, [])
  else if b = 0xF0 then (some ⟨0, 3, 0x90, 0xBF⟩, [])
  else if b < 0xF4 then (some ⟨b % 8, 3, 0x80, 0xBF⟩, [])
  else if b = 0xF4 then (some ⟨4, 3, 0x80, 0x8F⟩, [])
  else (none, [replacement])

/-- One byte more. -/
@[grind =] def feed : Option Partial → UInt8 → Outcome
  | none, b => lead b.toNat
  | some p, b =>
    if p.low ≤ b.toNat ∧ b.toNat ≤ p.high then
      let value := p.value * 64 + b.toNat % 64
      if p.missing = 1 then (none, [Char.ofNat value])
      else (some ⟨value, p.missing - 1, 0x80, 0xBF⟩, [])
    else
      let next := lead b.toNat
      (next.1, replacement :: next.2)

/-- The bytes end here. -/
def finish : Option Partial → List Char
  | none => []
  | some _ => [replacement]

/-- The characters of the bytes, and what is begun. -/
@[grind =] def decode : Option Partial → List UInt8 → Outcome
  | s, [] => (s, [])
  | s, b :: bytes =>
    let rest := decode (feed s b).1 bytes
    (rest.1, (feed s b).2 ++ rest.2)

/-- `String::from_utf8_lossy`. -/
def lossy (bytes : List UInt8) : List Char := (decode none bytes).2 ++ finish (decode none bytes).1

def encode (text : List Char) : List UInt8 := text.flatMap String.utf8EncodeChar

@[simp] theorem encode_nil : encode [] = [] := rfl

@[simp] theorem encode_cons (c : Char) (text : List Char) :
    encode (c :: text) = String.utf8EncodeChar c ++ encode text := List.flatMap_cons

@[simp] theorem encode_append (text text' : List Char) :
    encode (text ++ text') = encode text ++ encode text' := List.flatMap_append

theorem decode_append (s : Option Partial) (bytes bytes' : List UInt8) :
    decode s (bytes ++ bytes') =
      ((decode (decode s bytes).1 bytes').1,
        (decode s bytes).2 ++ (decode (decode s bytes).1 bytes').2) := by
  induction bytes generalizing s with
  | nil => rfl
  | cons b bytes ih => simp only [List.cons_append, decode, ih, List.append_assoc]

/-- A byte that is not the first one of its character. -/
def Continues (b : UInt8) : Prop := 0x80 ≤ b.toNat ∧ b.toNat ≤ 0xBF

theorem feed_none_continues {b : UInt8} (h : Continues b) : feed none b = (none, [replacement]) := by
  obtain ⟨hLow, hHigh⟩ := h
  rw [feed, lead, if_neg (by omega), if_pos (by omega)]

theorem valid_toNat (c : Char) :
    c.val.toNat < 0xD800 ∨ 0xDFFF < c.val.toNat ∧ c.val.toNat < 0x110000 := c.valid

theorem ofNat_toNat (c : Char) : Char.ofNat c.val.toNat = c := Char.ofNat_toNat c

/-- What the bytes of a character are to the decoder: all of them give the character, a part of them is
waiting for more, and all but the first are no beginning of one. -/
structure Spells (c : Char) (bytes : List UInt8) : Prop where
  whole : decode none bytes = (none, [c])
  waiting : ∀ p, p <+: bytes → p ≠ [] → p ≠ bytes → ∃ q, decode none p = (some q, [])
  continues : ∀ b ∈ bytes.tail, Continues b
  long : 1 < bytes.length → 0x80 ≤ c.val.toNat

/-- The bytes complete the character. -/
inductive Completes (c : Char) : Partial → List UInt8 → Prop where
  | last {p : Partial} {b : UInt8} (hLow : p.low ≤ b.toNat) (hHigh : b.toNat ≤ p.high)
      (hMissing : p.missing = 1) (hValue : p.value * 64 + b.toNat % 64 = c.val.toNat) :
      Completes c p [b]
  | step {p : Partial} {b : UInt8} {bytes : List UInt8} (hLow : p.low ≤ b.toNat)
      (hHigh : b.toNat ≤ p.high) (hMissing : p.missing ≠ 1)
      (rest : Completes c ⟨p.value * 64 + b.toNat % 64, p.missing - 1, 0x80, 0xBF⟩ bytes) :
      Completes c p (b :: bytes)

namespace Completes

variable {c : Char} {p : Partial} {bytes : List UInt8}

theorem decode_eq (h : Completes c p bytes) : decode (some p) bytes = (none, [c]) := by
  induction h with
  | last hLow hHigh hMissing hValue =>
    simp only [decode, feed, if_pos (And.intro hLow hHigh), if_pos hMissing, hValue, ofNat_toNat]
    rfl
  | step hLow hHigh hMissing rest ih =>
    simp only [decode, feed, if_pos (And.intro hLow hHigh), if_neg hMissing, ih]
    rfl

theorem waiting (h : Completes c p bytes) {part : List UInt8} (hPart : part <+: bytes)
    (hProper : part ≠ bytes) : ∃ q, decode (some p) part = (some q, []) := by
  induction h generalizing part with
  | @last p b hLow hHigh hMissing hValue =>
    rcases List.prefix_cons_iff.mp hPart with rfl | ⟨t, rfl, ht⟩
    · exact ⟨p, rfl⟩
    · exact absurd (by rw [List.prefix_nil.mp ht]) hProper
  | @step p b bytes hLow hHigh hMissing rest ih =>
    rcases List.prefix_cons_iff.mp hPart with rfl | ⟨t, rfl, ht⟩
    · exact ⟨p, rfl⟩
    · obtain ⟨q, hq⟩ := ih ht fun hEq => hProper (by rw [hEq])
      refine ⟨q, ?_⟩
      simp only [decode, feed, if_pos (And.intro hLow hHigh), if_neg hMissing, hq]
      rfl

theorem continues (h : Completes c p bytes) (hLow : 0x80 ≤ p.low) (hHigh : p.high ≤ 0xBF) :
    ∀ b ∈ bytes, Continues b := by
  induction h with
  | last hb hb' hMissing hValue =>
    intro b hMem
    obtain rfl := List.mem_singleton.mp hMem
    exact ⟨hLow.trans hb, hb'.trans hHigh⟩
  | step hb hb' hMissing rest ih =>
    intro b hMem
    rcases List.mem_cons.mp hMem with rfl | hRest
    · exact ⟨hLow.trans hb, hb'.trans hHigh⟩
    · exact ih (Nat.le_refl _) (Nat.le_refl _) b hRest

theorem spells {b : UInt8} (h : Completes c p bytes) (hLead : lead b.toNat = (some p, []))
    (hLow : 0x80 ≤ p.low) (hHigh : p.high ≤ 0xBF) (hc : 0x80 ≤ c.val.toNat) :
    Spells c (b :: bytes) where
  whole := by
    simp only [decode, feed, hLead, h.decode_eq]
    rfl
  waiting part hPart hSome hProper := by
    rcases List.prefix_cons_iff.mp hPart with rfl | ⟨t, rfl, ht⟩
    · exact absurd rfl hSome
    · obtain ⟨q, hq⟩ := h.waiting ht fun hEq => hProper (by rw [hEq])
      refine ⟨q, ?_⟩
      simp only [decode, feed, hLead, hq]
      rfl
  continues := h.continues hLow hHigh
  long _ := hc

end Completes

theorem spells_one {c : Char} (h : c.val.toNat ≤ 0x7f) : Spells c [UInt8.ofNat c.val.toNat] where
  whole := by
    have hByte : (UInt8.ofNat c.val.toNat).toNat = c.val.toNat := by
      rw [UInt8.toNat_ofNat']; omega
    simp only [decode, feed, lead, hByte, if_pos (show c.val.toNat < 0x80 by omega), ofNat_toNat]
    rfl
  waiting p hPart hSome hProper := by
    rcases List.prefix_cons_iff.mp hPart with rfl | ⟨t, rfl, ht⟩
    · exact absurd rfl hSome
    · exact absurd (by rw [List.prefix_nil.mp ht]) hProper
  continues b hb := by cases hb
  long hLong := by simp at hLong

theorem toNat_byte {n : Nat} (h : n < 256) : (UInt8.ofNat n).toNat = n := by
  rw [UInt8.toNat_ofNat']
  exact Nat.mod_eq_of_lt h

theorem toNat_continuation (v : Nat) :
    (UInt8.ofNat (v % 64 + 0x80)).toNat = v % 64 + 0x80 := toNat_byte (by omega)

theorem spells_two {c : Char} (hLow : 0x7f < c.val.toNat) (hHigh : c.val.toNat ≤ 0x7ff) :
    Spells c [UInt8.ofNat (c.val.toNat / 64 % 32 + 0xc0), UInt8.ofNat (c.val.toNat % 64 + 0x80)] := by
  generalize hv : c.val.toNat = v at *
  have hFirst : (UInt8.ofNat (v / 64 % 32 + 0xc0)).toNat = v / 64 % 32 + 0xc0 := toNat_byte (by omega)
  have hLast : (UInt8.ofNat (v % 64 + 0x80)).toNat = v % 64 + 0x80 := toNat_continuation v
  refine Completes.spells (p := ⟨v / 64, 1, 0x80, 0xBF⟩) (.last ?_ ?_ rfl ?_) ?_ (by simp) (by simp) ?_
  · rw [hLast]; simp
  · rw [hLast]; simp only; omega
  · rw [hLast, hv]; simp only; omega
  · rw [hFirst, lead, if_neg (by omega), if_neg (by omega), if_pos (by omega),
      show (v / 64 % 32 + 0xc0) % 32 = v / 64 by omega]
  · omega

theorem lead_three {k : Nat} (h : k < 16) :
    lead (k + 0xe0) =
      (some ⟨k, 2, if k = 0 then 0xA0 else 0x80, if k = 13 then 0x9F else 0xBF⟩, []) := by
  rw [lead, if_neg (by omega), if_neg (by omega), if_neg (by omega)]
  by_cases hZero : k = 0
  · subst hZero
    rfl
  · by_cases hD : k = 13
    · subst hD
      rfl
    · rw [if_neg (by omega), if_neg (by omega), if_pos (by omega), if_neg hZero, if_neg hD,
        show (k + 0xe0) % 16 = k by omega]

theorem lead_four {k : Nat} (h : k < 5) :
    lead (k + 0xf0) =
      (some ⟨k, 3, if k = 0 then 0x90 else 0x80, if k = 4 then 0x8F else 0xBF⟩, []) := by
  rw [lead, if_neg (by omega), if_neg (by omega), if_neg (by omega), if_neg (by omega),
    if_neg (by omega), if_neg (by omega)]
  by_cases hZero : k = 0
  · subst hZero
    rfl
  · by_cases hFour : k = 4
    · subst hFour
      rfl
    · rw [if_neg (by omega), if_pos (by omega), if_neg hZero, if_neg hFour,
        show (k + 0xf0) % 8 = k by omega]

theorem spells_three {c : Char} (hLow : 0x7ff < c.val.toNat) (hHigh : c.val.toNat ≤ 0xffff) :
    Spells c [UInt8.ofNat (c.val.toNat / 4096 % 16 + 0xe0),
      UInt8.ofNat (c.val.toNat / 64 % 64 + 0x80), UInt8.ofNat (c.val.toNat % 64 + 0x80)] := by
  have hValid := valid_toNat c
  generalize hv : c.val.toNat = v at *
  have hFirst : (UInt8.ofNat (v / 4096 % 16 + 0xe0)).toNat = v / 4096 + 0xe0 := by
    rw [toNat_byte (by omega)]; omega
  have hSecond : (UInt8.ofNat (v / 64 % 64 + 0x80)).toNat = v / 64 % 64 + 0x80 :=
    toNat_continuation (v / 64)
  have hLast : (UInt8.ofNat (v % 64 + 0x80)).toNat = v % 64 + 0x80 := toNat_continuation v
  refine Completes.spells (.step ?_ ?_ ?_ (.last ?_ ?_ ?_ ?_)) (hFirst ▸ lead_three (by omega))
    ?_ ?_ (by omega)
  · rw [hSecond]; simp only; split <;> omega
  · rw [hSecond]; simp only; split <;> omega
  · simp
  · rw [hLast]; simp
  · rw [hLast]; simp only; omega
  · simp
  · rw [hLast, hSecond, hv]; simp only; omega
  · simp only; split <;> omega
  · simp only; split <;> omega

theorem spells_four {c : Char} (hLow : 0xffff < c.val.toNat) :
    Spells c [UInt8.ofNat (c.val.toNat / 262144 % 8 + 0xf0),
      UInt8.ofNat (c.val.toNat / 4096 % 64 + 0x80), UInt8.ofNat (c.val.toNat / 64 % 64 + 0x80),
      UInt8.ofNat (c.val.toNat % 64 + 0x80)] := by
  have hValid := valid_toNat c
  generalize hv : c.val.toNat = v at *
  have hFirst : (UInt8.ofNat (v / 262144 % 8 + 0xf0)).toNat = v / 262144 + 0xf0 := by
    rw [toNat_byte (by omega)]; omega
  have hSecond : (UInt8.ofNat (v / 4096 % 64 + 0x80)).toNat = v / 4096 % 64 + 0x80 :=
    toNat_continuation (v / 4096)
  have hThird : (UInt8.ofNat (v / 64 % 64 + 0x80)).toNat = v / 64 % 64 + 0x80 :=
    toNat_continuation (v / 64)
  have hLast : (UInt8.ofNat (v % 64 + 0x80)).toNat = v % 64 + 0x80 := toNat_continuation v
  refine Completes.spells (.step ?_ ?_ ?_ (.step ?_ ?_ ?_ (.last ?_ ?_ ?_ ?_)))
    (hFirst ▸ lead_four (by omega)) ?_ ?_ (by omega)
  · rw [hSecond]; simp only; split <;> omega
  · rw [hSecond]; simp only; split <;> omega
  · simp
  · rw [hThird]; simp
  · rw [hThird]; simp only; omega
  · simp
  · rw [hLast]; simp
  · rw [hLast]; simp only; omega
  · simp
  · rw [hLast, hThird, hSecond, hv]; simp only; omega
  · simp only; split <;> omega
  · simp only; split <;> omega

theorem utf8EncodeChar_spells (c : Char) : Spells c (String.utf8EncodeChar c) := by
  rw [String.utf8EncodeChar]
  split
  · rename_i h
    exact spells_one h
  · rename_i h
    split
    · rename_i h'
      exact spells_two (by omega) h'
    · rename_i h'
      split
      · rename_i h''
        exact spells_three (by omega) h''
      · rename_i h''
        exact spells_four (by omega)

theorem encode_char_ne_nil (c : Char) : String.utf8EncodeChar c ≠ [] := String.utf8EncodeChar_ne_nil

theorem decode_encode (text : List Char) : decode none (encode text) = (none, text) := by
  induction text with
  | nil => rfl
  | cons c text ih => rw [encode_cons, decode_append, (utf8EncodeChar_spells c).whole, ih]; rfl

@[simp] theorem lossy_encode (text : List Char) : lossy (encode text) = text := by
  rw [lossy, decode_encode]
  exact List.append_nil text

/-- The pieces with the cuts between them. -/
def tokens (pieces : List (List UInt8)) : List (Option UInt8) :=
  pieces.flatMap fun piece => piece.map some ++ [none]

/-- Decoding that begins anew at each cut. -/
@[grind =] def run : Option Partial → List (Option UInt8) → Outcome
  | s, [] => (s, [])
  | s, none :: ts => ((run none ts).1, finish s ++ (run none ts).2)
  | s, some b :: ts =>
    let rest := run (feed s b).1 ts
    (rest.1, (feed s b).2 ++ rest.2)

theorem run_append (s : Option Partial) (ts ts' : List (Option UInt8)) :
    run s (ts ++ ts') = ((run (run s ts).1 ts').1, (run s ts).2 ++ (run (run s ts).1 ts').2) := by
  induction ts generalizing s with
  | nil => rfl
  | cons t ts ih =>
    cases t with
    | none => simp only [List.cons_append, run, ih, List.append_assoc]
    | some b => simp only [List.cons_append, run, ih, List.append_assoc]

theorem run_bytes (s : Option Partial) (bytes : List UInt8) :
    run s (bytes.map some) = decode s bytes := by
  induction bytes generalizing s with
  | nil => rfl
  | cons b bytes ih => simp only [List.map_cons, run, decode, ih]

theorem run_tokens (pieces : List (List UInt8)) :
    run none (tokens pieces) = (none, pieces.flatMap lossy) := by
  induction pieces with
  | nil => rfl
  | cons piece pieces ih =>
    have hFirst : run none (piece.map some ++ [none]) = (none, lossy piece) := by
      rw [run_append, run_bytes, run, run, List.append_nil]
      rfl
    rw [tokens, List.flatMap_cons, run_append, hFirst, ← tokens, ih, List.flatMap_cons]

theorem reduceOption_tokens (pieces : List (List UInt8)) :
    (tokens pieces).reduceOption = pieces.flatten := by
  induction pieces with
  | nil => rfl
  | cons piece pieces ih =>
    have hFirst : (piece.map some ++ [none]).reduceOption = piece := by
      simp [List.reduceOption]
    rw [tokens, List.flatMap_cons, List.reduceOption_append, hFirst, ← tokens, ih, List.flatten_cons]

theorem run_ends {ts : List (Option UInt8)} (h : ts.reduceOption = []) :
    run none ts = (none, []) := by
  induction ts with
  | nil => rfl
  | cons t ts ih =>
    cases t with
    | none => rw [run, ih h]; rfl
    | some b => simp at h

theorem run_continues {ts : List (Option UInt8)} (h : ∀ b ∈ ts.reduceOption, Continues b) :
    run none ts = (none, List.replicate ts.reduceOption.length replacement) := by
  induction ts with
  | nil => rfl
  | cons t ts ih =>
    cases t with
    | none => rw [run, ih h]; rfl
    | some b =>
      rw [List.reduceOption_cons_of_some] at h ⊢
      rw [run, feed_none_continues (h b List.mem_cons_self),
        ih fun b' hb' => h b' (List.mem_cons_of_mem _ hb')]
      rfl

/-- A character is cut within its bytes. -/
def Broken (ts : List (Option UInt8)) : Prop :=
  ∃ x y, ts = x ++ none :: y ∧ x.reduceOption ≠ [] ∧ y.reduceOption ≠ []

theorem tokens_span (ts : List (Option UInt8)) :
    ∃ (p : List UInt8) (rest : List (Option UInt8)), ts = p.map some ++ rest ∧
      (rest = [] ∨ ∃ y, rest = none :: y) := by
  induction ts with
  | nil => exact ⟨[], [], rfl, .inl rfl⟩
  | cons t ts ih =>
    cases t with
    | none => exact ⟨[], none :: ts, rfl, .inr ⟨ts, rfl⟩⟩
    | some b =>
      obtain ⟨p, rest, hSpan, hRest⟩ := ih
      exact ⟨b :: p, rest, by rw [hSpan]; rfl, hRest⟩

theorem tokens_shape (ts : List (Option UInt8)) :
    ∃ (k : Nat) (p : List UInt8) (rest : List (Option UInt8)),
      ts = List.replicate k none ++ p.map some ++ rest ∧ (rest = [] ∨ ∃ y, rest = none :: y) ∧
        (p = [] → ts.reduceOption = []) := by
  induction ts with
  | nil => exact ⟨0, [], [], rfl, .inl rfl, fun _ => rfl⟩
  | cons t ts ih =>
    cases t with
    | none =>
      obtain ⟨k, p, rest, hShape, hRest, hEmpty⟩ := ih
      exact ⟨k + 1, p, rest, by rw [List.replicate_succ, hShape]; rfl, hRest, hEmpty⟩
    | some b =>
      obtain ⟨p, rest, hSpan, hRest⟩ := tokens_span ts
      exact ⟨0, b :: p, rest, by rw [hSpan]; rfl, hRest, fun h => by cases h⟩

theorem reduceOption_map_some (p : List UInt8) : (p.map some).reduceOption = p := by
  simp [List.reduceOption]

section Character

variable {c : Char} {bytes : List UInt8} {ts : List (Option UInt8)}

theorem run_shape {k : Nat} {p : List UInt8} {rest : List (Option UInt8)} :
    run none (List.replicate k none ++ p.map some ++ rest) =
      ((run (decode none p).1 rest).1, (decode none p).2 ++ (run (decode none p).1 rest).2) := by
  rw [List.append_assoc, run_append, run_ends List.reduceOption_replicate_none, run_append, run_bytes]
  rfl

theorem run_whole (h : Spells c bytes) (hBytes : ts.reduceOption = bytes) (hSome : bytes ≠ [])
    (hWhole : ¬Broken ts) : run none ts = (none, [c]) := by
  obtain ⟨k, p, rest, rfl, hRest, hEmpty⟩ := tokens_shape ts
  have hp : p ≠ [] := fun hp => hSome (hBytes ▸ hEmpty hp)
  rw [List.reduceOption_append, List.reduceOption_append, List.reduceOption_replicate_none,
    reduceOption_map_some, List.nil_append] at hBytes
  have hEnd : rest.reduceOption = [] := by
    obtain rfl | ⟨y, rfl⟩ := hRest
    · rfl
    · by_contra hy
      refine hWhole ⟨List.replicate k none ++ p.map some, y, rfl, ?_, hy⟩
      rw [List.reduceOption_append, List.reduceOption_replicate_none, reduceOption_map_some]
      exact hp
  rw [hEnd, List.append_nil] at hBytes
  subst hBytes
  rw [run_shape, h.whole, run_ends hEnd]
  rfl

theorem run_part (h : Spells c bytes) {x : List (Option UInt8)} (hPart : x.reduceOption <+: bytes)
    (hSome : x.reduceOption ≠ []) (hProper : x.reduceOption ≠ bytes) :
    ∃ k, (run none x).2 ++ finish (run none x).1 = List.replicate (k + 1) replacement := by
  obtain ⟨k, p, rest, rfl, hRest, hEmpty⟩ := tokens_shape x
  have hp : p ≠ [] := fun hp => hSome (hEmpty hp)
  rw [List.reduceOption_append, List.reduceOption_append, List.reduceOption_replicate_none,
    reduceOption_map_some, List.nil_append] at hPart hProper
  have hpPart : p <+: bytes := (List.prefix_append p _).trans hPart
  have hpProper : p ≠ bytes := by
    rintro rfl
    exact hProper (by rw [List.IsPrefix.eq_of_length_le hPart (by simp)])
  obtain ⟨q, hq⟩ := h.waiting p hpPart hp hpProper
  rw [run_shape, hq]
  obtain rfl | ⟨y, rfl⟩ := hRest
  · exact ⟨0, rfl⟩
  · have hy : ∀ b ∈ y.reduceOption, Continues b := by
      intro b hb
      refine h.continues b ?_
      cases p with
      | nil => exact absurd rfl hp
      | cons a p =>
        obtain ⟨tail, rfl⟩ := hPart
        simp only [List.cons_append, List.tail_cons, List.append_assoc, List.mem_append]
        exact .inr (.inl hb)
    refine ⟨y.reduceOption.length, ?_⟩
    rw [run, run_continues hy, List.replicate_succ]
    simp [finish]

theorem run_broken (h : Spells c bytes) (hBytes : ts.reduceOption = bytes) (hBroken : Broken ts) :
    ∃ k, run none ts = (none, List.replicate (k + 2) replacement) := by
  obtain ⟨x, y, rfl, hx, hy⟩ := hBroken
  rw [List.reduceOption_append, List.reduceOption_cons_of_none] at hBytes
  have hPart : x.reduceOption <+: bytes := ⟨_, hBytes⟩
  have hProper : x.reduceOption ≠ bytes := by
    intro hEq
    rw [← hEq] at hBytes
    exact hy (List.append_right_eq_self.mp hBytes)
  obtain ⟨k, hk⟩ := run_part h hPart hx hProper
  have hRest : ∀ b ∈ y.reduceOption, Continues b := by
    intro b hb
    refine h.continues b ?_
    rw [← hBytes]
    cases hFirst : x.reduceOption with
    | nil => exact absurd hFirst hx
    | cons a p => exact List.mem_append_right _ hb
  obtain ⟨m, hm⟩ : ∃ m, y.reduceOption.length = m + 1 :=
    Nat.exists_eq_succ_of_ne_zero fun hZero => hy (List.eq_nil_of_length_eq_zero hZero)
  refine ⟨k + m, ?_⟩
  rw [run_append, run, run_continues hRest, hm, ← List.append_assoc, hk, List.replicate_append_replicate]
  congr 2
  omega

end Character

/-- A piece ends after so many bytes of the stream. -/
def EndsAt (pieces : List (List UInt8)) (n : Nat) : Prop :=
  ∃ before piece rest, pieces = before ++ piece :: rest ∧ (before ++ [piece]).flatten.length = n

theorem endsAt_iff {pieces : List (List UInt8)} {n : Nat} :
    EndsAt pieces n ↔ ∃ x y, tokens pieces = x ++ none :: y ∧ x.reduceOption.length = n := by
  constructor
  · rintro ⟨before, piece, rest, rfl, hn⟩
    refine ⟨tokens before ++ piece.map some, tokens rest, ?_, ?_⟩
    · simp [tokens]
    · rw [List.reduceOption_append, reduceOption_tokens, reduceOption_map_some, ← hn]
      simp
  · intro h
    induction pieces generalizing n with
    | nil =>
      obtain ⟨x, y, hSplit, -⟩ := h
      simp [tokens] at hSplit
    | cons piece pieces ih =>
      obtain ⟨x, y, hSplit, hn⟩ := h
      rw [tokens, List.flatMap_cons, ← tokens, List.append_assoc] at hSplit
      rcases List.append_eq_append_iff.mp hSplit with ⟨a, rfl, ha⟩ | ⟨a, hPiece, ha⟩
      · cases a with
        | nil =>
          refine ⟨[], piece, pieces, rfl, ?_⟩
          rw [List.append_nil, reduceOption_map_some] at hn
          simpa using hn
        | cons t a =>
          rw [List.singleton_append, List.cons_append] at ha
          obtain ⟨rfl, hRest⟩ := List.cons.inj ha
          obtain ⟨before, piece', rest, rfl, hLength⟩ := ih ⟨a, y, hRest, rfl⟩
          refine ⟨piece :: before, piece', rest, rfl, ?_⟩
          rw [List.reduceOption_append, reduceOption_map_some, List.reduceOption_cons_of_none,
            List.length_append] at hn
          rw [List.cons_append, List.flatten_cons, List.length_append, hLength]
          exact hn
      · cases a with
        | nil =>
          refine ⟨[], piece, pieces, rfl, ?_⟩
          rw [List.append_nil] at hPiece
          rw [← hPiece, reduceOption_map_some] at hn
          simpa using hn
        | cons t a =>
          rw [List.singleton_append, List.cons_append] at ha
          obtain ⟨rfl, -⟩ := List.cons.inj ha
          have hNone : none ∈ piece.map some := hPiece ▸ List.mem_append_right _ List.mem_cons_self
          simp at hNone

/-- Characters with the offsets at which they begin. -/
def located : Nat → List Char → List (Nat × Char)
  | _, [] => []
  | n, c :: text => (n, c) :: located (n + (String.utf8EncodeChar c).length) text

theorem located_text (n : Nat) (text : List Char) : (located n text).map Prod.snd = text := by
  induction text generalizing n with
  | nil => rfl
  | cons c text ih => rw [located, List.map_cons, ih]

/-- A piece ends between the bytes of the character. -/
def Torn (pieces : List (List UInt8)) (p : Nat × Char) : Prop :=
  ∃ k, EndsAt pieces k ∧ p.1 < k ∧ k < p.1 + (String.utf8EncodeChar p.2).length

/-- What becomes of a character of the stream. -/
structure Arrives (pieces : List (List UInt8)) (p : Nat × Char) (arrived : List Char) : Prop where
  whole : ¬Torn pieces p → arrived = [p.2]
  torn : Torn pieces p → 0x80 ≤ p.2.val.toNat ∧ ∃ k, arrived = List.replicate (k + 2) replacement

section Stream

variable {pieces : List (List UInt8)} {before x y : List (Option UInt8)} {n : Nat} {c : Char}

theorem bytes_le_of_prefix {a b : List (Option UInt8)} (h : a <+: b) :
    a.reduceOption.length ≤ b.reduceOption.length := by
  obtain ⟨t, rfl⟩ := h
  rw [List.reduceOption_append, List.length_append]
  omega

theorem broken_iff (hTokens : tokens pieces = before ++ (x ++ y))
    (hBefore : before.reduceOption.length = n) (hx : x.reduceOption = String.utf8EncodeChar c) :
    Broken x ↔ Torn pieces (n, c) := by
  constructor
  · rintro ⟨u, v, rfl, hu, hv⟩
    rw [List.reduceOption_append, List.reduceOption_cons_of_none] at hx
    have huPos := List.length_pos_of_ne_nil hu
    have hvPos := List.length_pos_of_ne_nil hv
    refine ⟨n + u.reduceOption.length, endsAt_iff.mpr ⟨before ++ u, v ++ y, ?_, ?_⟩, ?_, ?_⟩
    · rw [hTokens]
      simp
    · rw [List.reduceOption_append, List.length_append, hBefore]
    · simp only; omega
    · simp only [← hx, List.length_append]; omega
  · rintro ⟨k, hEnds, hAbove, hBelow⟩
    obtain ⟨u, v, hSplit, hu⟩ := endsAt_iff.mp hEnds
    simp only [← hx] at hAbove hBelow
    have hFirst : before <+: tokens pieces := ⟨x ++ y, hTokens.symm⟩
    have hUntil : before ++ x <+: tokens pieces := ⟨y, by rw [hTokens, List.append_assoc]⟩
    have hEnd : u ++ [none] <+: tokens pieces := ⟨v, by rw [hSplit, List.append_assoc]; rfl⟩
    have huEnd : u <+: tokens pieces := (List.prefix_append u [none]).trans hEnd
    have hStart : before <+: u := (List.prefix_or_prefix_of_prefix hFirst huEnd).resolve_right
      fun hShort => by have := bytes_le_of_prefix hShort; omega
    obtain ⟨w, rfl⟩ := hStart
    have hInside : before ++ w ++ [none] <+: before ++ x :=
      (List.prefix_or_prefix_of_prefix hEnd hUntil).resolve_right fun hShort => by
        have := bytes_le_of_prefix hShort
        rw [List.reduceOption_append, List.reduceOption_append _ [none], List.length_append] at this
        simp at this
        omega
    rw [List.append_assoc] at hInside
    obtain ⟨z, rfl⟩ := (List.prefix_append_right_inj before).mp hInside
    rw [List.reduceOption_append, List.length_append] at hu
    refine ⟨w, z, by simp, fun hNil => ?_, fun hNil => ?_⟩
    · rw [hNil, List.length_nil] at hu
      omega
    · simp only [List.reduceOption_append, hNil, List.length_append] at hBelow
      simp at hBelow
      omega

theorem arrivals_from {text : List Char} {ts : List (Option UInt8)}
    (hTokens : tokens pieces = before ++ ts) (hBefore : before.reduceOption.length = n)
    (hText : ts.reduceOption = encode text) :
    ∃ arrived, List.Forall₂ (Arrives pieces) (located n text) arrived ∧
      run none ts = (none, arrived.flatten) := by
  induction text generalizing before n ts with
  | nil => exact ⟨[], .nil, run_ends hText⟩
  | cons c text ih =>
    rw [encode_cons] at hText
    obtain ⟨x, y, rfl, hx, hy⟩ := (List.reduceOption_eq_append_iff _ _ _).mp hText
    have hBroken := broken_iff hTokens hBefore hx
    have hSpells := utf8EncodeChar_spells c
    have hSome := encode_char_ne_nil c
    obtain ⟨rest, hRest, hRun⟩ := ih
      (show tokens pieces = (before ++ x) ++ y by rw [hTokens, List.append_assoc])
      (by rw [List.reduceOption_append, List.length_append, hBefore, hx]) hy
    by_cases hTorn : Torn pieces (n, c)
    · obtain ⟨k, hLost⟩ := run_broken hSpells hx (hBroken.mpr hTorn)
      refine ⟨List.replicate (k + 2) replacement :: rest, .cons ⟨fun h => absurd hTorn h, fun _ => ⟨?_, k, rfl⟩⟩
        hRest, ?_⟩
      · obtain ⟨m, -, hAbove, hBelow⟩ := hTorn
        exact hSpells.long (by simp only at hAbove hBelow; omega)
      · rw [run_append, hLost, hRun]
        rfl
    · refine ⟨[c] :: rest, .cons ⟨fun _ => rfl, fun h => absurd h hTorn⟩ hRest, ?_⟩
      rw [run_append, run_whole hSpells hx hSome fun h => hTorn (hBroken.mp h), hRun]
      rfl

theorem arrivals {text : List Char} (h : pieces.flatten = encode text) :
    ∃ arrived, List.Forall₂ (Arrives pieces) (located 0 text) arrived ∧
      pieces.flatMap lossy = arrived.flatten := by
  obtain ⟨arrived, hArrived, hRun⟩ := arrivals_from
    (show tokens pieces = [] ++ tokens pieces from rfl) rfl ((reduceOption_tokens pieces).trans h)
  refine ⟨arrived, hArrived, ?_⟩
  rw [run_tokens] at hRun
  exact congrArg Prod.snd hRun

end Stream

/-- The text of bytes that are one. -/
def text? (bytes : List UInt8) : Option (List Char) :=
  if encode (lossy bytes) = bytes then some (lossy bytes) else none

theorem text?_encode (text : List Char) : text? (encode text) = some text := by
  rw [text?, lossy_encode, if_pos rfl]

theorem text?_eq_some {bytes : List UInt8} {text : List Char} :
    text? bytes = some text ↔ bytes = encode text := by
  constructor
  · intro h
    unfold text? at h
    split at h
    · rename_i hBytes
      rw [← Option.some.inj h, hBytes]
    · cases h
  · rintro rfl
    exact text?_encode text

theorem encodeChar_ascii {c : Char} (h : c.val.toNat < 0x80) :
    String.utf8EncodeChar c = [UInt8.ofNat c.val.toNat] := by
  rw [String.utf8EncodeChar]
  exact if_pos (by omega)

theorem encode_ascii {text : List Char} (h : ∀ c ∈ text, c.val.toNat < 0x80) :
    encode text = text.map fun c => UInt8.ofNat c.val.toNat := by
  induction text with
  | nil => rfl
  | cons c text ih =>
    rw [encode_cons, encodeChar_ascii (h c List.mem_cons_self), ih fun d hd => h d (.tail _ hd)]
    rfl

theorem ascii_of_isAlphanum {c : Char} (h : c.isAlphanum = true) : c.toNat < 128 := by
  have hUpper : 'Z'.val.toNat = 90 := rfl
  have hLower : 'z'.val.toNat = 122 := rfl
  have hDigit : '9'.val.toNat = 57 := rfl
  have hVal : c.toNat = c.val.toNat := rfl
  delta Char.isAlphanum Char.isAlpha Char.isUpper Char.isLower Char.isDigit at h
  simp only [ge_iff_le, UInt32.le_iff_toNat_le, Bool.or_eq_true, Bool.and_eq_true, decide_eq_true_eq] at h
  omega

theorem toNat_of_mem_encodeChar {c : Char} {b : UInt8} (h : b ∈ String.utf8EncodeChar c)
    (hb : b.toNat < 0x80) : c.val.toNat = b.toNat := by
  rw [String.utf8EncodeChar] at h
  by_cases hAscii : c.val.toNat ≤ 0x7f
  · rw [if_pos hAscii] at h
    obtain rfl := List.mem_singleton.mp h
    rw [toNat_byte (by omega)]
  · rw [if_neg hAscii] at h
    exfalso
    split at h
    · simp only [List.mem_cons, List.not_mem_nil, or_false] at h
      rcases h with rfl | rfl <;> rw [toNat_byte (by omega)] at hb <;> omega
    · split at h
      · simp only [List.mem_cons, List.not_mem_nil, or_false] at h
        rcases h with rfl | rfl | rfl <;> rw [toNat_byte (by omega)] at hb <;> omega
      · simp only [List.mem_cons, List.not_mem_nil, or_false] at h
        rcases h with rfl | rfl | rfl | rfl <;> rw [toNat_byte (by omega)] at hb <;> omega

theorem mem_encode {text : List Char} {b : UInt8} (h : b ∈ encode text) (hb : b.toNat < 0x80) :
    ∃ c ∈ text, c.val.toNat = b.toNat := by
  obtain ⟨c, hMem, hByte⟩ := List.mem_flatMap.mp h
  exact ⟨c, hMem, toNat_of_mem_encodeChar hByte hb⟩

end Utf8
