import Cronymax.Encoding.Numerals

/-! The ids of events: UUIDs of version 7, made from the clock and from a counter that keeps them apart
within a millisecond.  The time and the counter, packed into one number, grow with every call, and so do
the ids. -/

namespace Cronymax.Events.UuidV7

open Numeral

/-- `%0wx` of `snprintf`. -/
def hex (w n : Nat) : List UInt8 := ((Nat.toDigits 16 n).leftpad w '0').map Char.toUInt8

/-- `MonotonicState`. -/
structure MonotonicState where
  lastMs : Int := 0
  counter : UInt16 := 0

def hyphen : UInt8 := '-'.toUInt8

def high (ms : Int) (randA : UInt16) : UInt64 :=
  (UInt64.ofInt ms &&& 0xFFFFFFFFFFFF) <<< 16 ||| 0x7000 ||| (randA &&& 0x0FFF).toUInt64

def low (randB : UInt64) : UInt64 := randB &&& 0x3FFFFFFFFFFFFFFF ||| 0x8000000000000000

/-- `Format`. -/
def format (ms : Int) (randA : UInt16) (randB : UInt64) : List UInt8 :=
  hex 8 (high ms randA >>> 32 &&& 0xFFFFFFFF).toNat ++
    hyphen :: (hex 4 (high ms randA >>> 16 &&& 0xFFFF).toNat ++
      hyphen :: (hex 4 (high ms randA &&& 0xFFFF).toNat ++
        hyphen :: (hex 4 (low randB >>> 48 &&& 0xFFFF).toNat ++
          hyphen :: hex 12 (low randB &&& 0xFFFFFFFFFFFF).toNat)))

/-- The clock and the random bits that a call meets. -/
structure Call where
  now : Int
  rand : UInt64

/-- The state after a call: a clock that stands still or goes back moves the counter. -/
def advance (s : MonotonicState) (now : Int) : MonotonicState :=
  if now ≤ s.lastMs then
    -- An overflow of the counter takes the next millisecond.
    if s.counter ≥ 0x0FFF then ⟨s.lastMs + 1, 0⟩ else ⟨s.lastMs, s.counter + 1⟩
  else ⟨now, 0⟩

/-- `MakeUuidV7`. -/
def makeUuidV7 (s : MonotonicState) (c : Call) : List UInt8 × MonotonicState :=
  (format (advance s c.now).lastMs (advance s c.now).counter c.rand, advance s c.now)

/-- The ids of a run of calls, each with the state after it. -/
def made : MonotonicState → List Call → List (List UInt8 × MonotonicState)
  | _, [] => []
  | s, c :: calls => makeUuidV7 s c :: made (makeUuidV7 s c).2 calls

def ids (calls : List Call) : List (List UInt8) := (made {} calls).map (·.1)

def isHexDigit (b : UInt8) : Bool :=
  ('0'.toUInt8 ≤ b && b ≤ '9'.toUInt8) || ('a'.toUInt8 ≤ b && b ≤ 'f'.toUInt8)

/-- The five groups of a UUID, of which the third begins with the version, and the fourth with the bits
10. -/
structure IsUuidV7 (id : List UInt8) : Prop where
  groups : ∃ timeHigh timeLow randA seq node : List UInt8,
    id = timeHigh ++ hyphen :: (timeLow ++ hyphen :: (randA ++ hyphen :: (seq ++ hyphen :: node))) ∧
    timeHigh.length = 8 ∧ timeLow.length = 4 ∧ randA.length = 4 ∧ seq.length = 4 ∧ node.length = 12 ∧
    (∀ b ∈ timeHigh ++ timeLow ++ randA ++ seq ++ node, isHexDigit b) ∧
    randA.head? = some '7'.toUInt8 ∧ ∃ b ∈ "89ab".toList, seq.head? = some b.toUInt8

def hexValue (b : UInt8) : Nat := if b ≤ '9'.toUInt8 then b.toNat - 48 else b.toNat - 87

/-- The time that an id tells. -/
def embeddedMs (id : List UInt8) : Nat := value 16 ((id.take 8 ++ (id.drop 9).take 4).map hexValue)

/-- The latest reading of the clock. -/
def latest (calls : List Call) : Int := (calls.map (·.now)).foldr max 0

def hexDigit (d : Nat) : UInt8 := (Nat.digitChar d).toUInt8

theorem hexDigit_lt : ∀ d < 16, ∀ e < 16, d < e → hexDigit d < hexDigit e := by decide +kernel

theorem isHexDigit_hexDigit : ∀ d < 16, isHexDigit (hexDigit d) = true := by decide +kernel

theorem hexValue_hexDigit : ∀ d < 16, hexValue (hexDigit d) = d := by decide +kernel

theorem hex_eq {w n : Nat} (hw : 0 < w) (hn : n < 16 ^ w) : hex w n = (row 16 w n).map hexDigit := by
  rw [hex, leftpad_toDigits (by decide) hw hn, List.map_map]
  rfl

theorem length_hex {w n : Nat} (hw : 0 < w) (hn : n < 16 ^ w) : (hex w n).length = w := by
  rw [hex_eq hw hn, List.length_map, length_row]

theorem isHexDigit_of_mem_hex {w n : Nat} (hw : 0 < w) (hn : n < 16 ^ w) {b : UInt8} (hb : b ∈ hex w n) :
    isHexDigit b = true := by
  rw [hex_eq hw hn] at hb
  obtain ⟨d, hd, rfl⟩ := List.mem_map.mp hb
  exact isHexDigit_hexDigit d (lt_of_mem_row (by decide) hd)

theorem hex_lt_hex {w n m : Nat} (hw : 0 < w) (h : n < m) (hm : m < 16 ^ w) : hex w n < hex w m := by
  rw [hex_eq hw (h.trans hm), hex_eq hw hm]
  exact map_lt_map (row_lt_row h hm) fun d hd e he =>
    hexDigit_lt d (lt_of_mem_row (by decide) hd) e (lt_of_mem_row (by decide) he)

theorem head_hex_four {n : Nat} (hn : n < 16 ^ 4) : (hex 4 n).head? = some (hexDigit (n / 16 ^ 3)) := by
  rw [hex_eq (by decide) hn, row_succ, List.map_cons, List.head?_cons]
  congr 2
  omega

theorem map_hexValue_hex {w n : Nat} (hw : 0 < w) (hn : n < 16 ^ w) :
    (hex w n).map hexValue = row 16 w n := by
  rw [hex_eq hw hn, List.map_map]
  refine (List.map_congr_left fun d hd => ?_).trans (List.map_id _)
  exact hexValue_hexDigit d (lt_of_mem_row (by decide) hd)

variable {ms : Int} {randA : UInt16}

theorem toNat_high (hms : 0 ≤ ms) (hFits : ms < 2 ^ 48) (hA : randA.toNat ≤ 0x0FFF) :
    (high ms randA).toNat = ms.toNat * 2 ^ 16 + (0x7000 + randA.toNat) := by
  obtain ⟨n, rfl⟩ := Int.eq_ofNat_of_zero_le hms
  have hn : n < 2 ^ 48 := by omega
  have hTime : (UInt64.ofInt n &&& 0xFFFFFFFFFFFF).toNat = n := by
    have hCast : (UInt64.ofInt n).toNat = n := by
      rw [UInt64.ofInt, UInt64.toNat_ofNat']
      omega
    rw [UInt64.toNat_and, hCast]
    exact (Nat.and_two_pow_sub_one_eq_mod n 48).trans (Nat.mod_eq_of_lt hn)
  have hShift : ((UInt64.ofInt n &&& 0xFFFFFFFFFFFF) <<< 16).toNat = n <<< 16 := by
    rw [UInt64.toNat_shiftLeft, hTime]
    exact Nat.mod_eq_of_lt (show n <<< 16 < 2 ^ 64 by omega)
  have hCounter : (randA &&& 0x0FFF).toUInt64.toNat = randA.toNat := by
    rw [UInt16.toNat_toUInt64, UInt16.toNat_and]
    exact (Nat.and_two_pow_sub_one_eq_mod randA.toNat 12).trans (Nat.mod_eq_of_lt (by omega))
  have hVersion : (7 <<< 12 ||| randA.toNat) = 0x7000 + randA.toNat := by
    rw [← Nat.shiftLeft_add_eq_or_of_lt (by omega)]
    rfl
  rw [high, UInt64.toNat_or, UInt64.toNat_or, hShift, hCounter, Nat.or_assoc]
  show n <<< 16 ||| (7 <<< 12 ||| randA.toNat) = _
  rw [hVersion, ← Nat.shiftLeft_add_eq_or_of_lt (by omega), Nat.shiftLeft_eq]
  rfl

theorem toNat_low (randB : UInt64) : ∃ r < 2 ^ 62, (low randB).toNat = 2 ^ 63 + r := by
  refine ⟨randB.toNat % 2 ^ 62, Nat.mod_lt _ (by decide), ?_⟩
  rw [low, UInt64.toNat_or, UInt64.toNat_and]
  show randB.toNat &&& 2 ^ 62 - 1 ||| 1 <<< 63 = _
  have hLess := Nat.mod_lt randB.toNat (show 0 < 2 ^ 62 by decide)
  rw [Nat.and_two_pow_sub_one_eq_mod, Nat.or_comm, ← Nat.shiftLeft_add_eq_or_of_lt (by omega),
    Nat.shiftLeft_eq, Nat.one_mul]

theorem toNat_part (x shift mask : UInt64) {i w : Nat} (hShift : shift.toNat = i) (hi : i < 64)
    (hMask : mask.toNat = 2 ^ w - 1) : (x >>> shift &&& mask).toNat = x.toNat / 2 ^ i % 2 ^ w := by
  rw [UInt64.toNat_and, UInt64.toNat_shiftRight, hShift, hMask, Nat.mod_eq_of_lt hi,
    Nat.and_two_pow_sub_one_eq_mod, Nat.shiftRight_eq_div_pow]

theorem format_eq (hms : 0 ≤ ms) (hFits : ms < 2 ^ 48) (hA : randA.toNat ≤ 0x0FFF) (randB : UInt64) :
    ∃ seq node, format ms randA randB = hex 8 (ms.toNat / 2 ^ 16) ++
      hyphen :: (hex 4 (ms.toNat % 2 ^ 16) ++ hyphen :: (hex 4 (0x7000 + randA.toNat) ++
        hyphen :: (hex 4 (0x8000 + seq) ++ hyphen :: hex 12 node))) ∧ seq < 0x4000 ∧ node < 16 ^ 12 := by
  have hHigh := toNat_high hms hFits hA
  obtain ⟨r, hr, hLow⟩ := toNat_low randB
  have hFirst : (high ms randA >>> 32 &&& 0xFFFFFFFF).toNat = ms.toNat / 2 ^ 16 := by
    rw [toNat_part (i := 32) (w := 32) _ _ _ rfl (by decide) rfl, hHigh]
    omega
  have hSecond : (high ms randA >>> 16 &&& 0xFFFF).toNat = ms.toNat % 2 ^ 16 := by
    rw [toNat_part (i := 16) (w := 16) _ _ _ rfl (by decide) rfl, hHigh]
    omega
  have hThird : (high ms randA &&& 0xFFFF).toNat = 0x7000 + randA.toNat := by
    rw [UInt64.toNat_and, hHigh]
    refine (Nat.and_two_pow_sub_one_eq_mod _ 16).trans ?_
    omega
  have hFourth : (low randB >>> 48 &&& 0xFFFF).toNat = 0x8000 + r / 2 ^ 48 := by
    rw [toNat_part (i := 48) (w := 16) _ _ _ rfl (by decide) rfl, hLow]
    omega
  refine ⟨r / 2 ^ 48, (low randB &&& 0xFFFFFFFFFFFF).toNat, ?_, by omega, ?_⟩
  · rw [format, hFirst, hSecond, hThird, hFourth]
  · rw [UInt64.toNat_and]
    exact Nat.lt_of_le_of_lt Nat.and_le_right (by decide)

theorem isUuidV7_format (hms : 0 ≤ ms) (hFits : ms < 2 ^ 48) (hA : randA.toNat ≤ 0x0FFF)
    (randB : UInt64) : IsUuidV7 (format ms randA randB) := by
  obtain ⟨seq, node, hFormat, hSeq, hNode⟩ := format_eq hms hFits hA randB
  have hFirst : ms.toNat / 2 ^ 16 < 16 ^ 8 := by omega
  have hSecond : ms.toNat % 2 ^ 16 < 16 ^ 4 := Nat.mod_lt _ (by decide)
  have hThird : 0x7000 + randA.toNat < 16 ^ 4 := by omega
  have hFourth : 0x8000 + seq < 16 ^ 4 := by omega
  refine ⟨_, _, _, _, _, hFormat, length_hex (by decide) hFirst, length_hex (by decide) hSecond,
    length_hex (by decide) hThird, length_hex (by decide) hFourth, length_hex (by decide) hNode, ?_, ?_, ?_⟩
  · intro b hb
    simp only [List.mem_append] at hb
    rcases hb with (((hb | hb) | hb) | hb) | hb
    · exact isHexDigit_of_mem_hex (by decide) hFirst hb
    · exact isHexDigit_of_mem_hex (by decide) hSecond hb
    · exact isHexDigit_of_mem_hex (by decide) hThird hb
    · exact isHexDigit_of_mem_hex (by decide) hFourth hb
    · exact isHexDigit_of_mem_hex (by decide) hNode hb
  · have hVersion : (0x7000 + randA.toNat) / 16 ^ 3 = 7 := by omega
    rw [head_hex_four hThird, hVersion]
    rfl
  · have hVariant : (0x8000 + seq) / 16 ^ 3 = 8 ∨ (0x8000 + seq) / 16 ^ 3 = 9 ∨
        (0x8000 + seq) / 16 ^ 3 = 10 ∨ (0x8000 + seq) / 16 ^ 3 = 11 := by omega
    rw [head_hex_four hFourth]
    rcases hVariant with h | h | h | h
    · exact ⟨'8', by decide, by rw [h]; rfl⟩
    · exact ⟨'9', by decide, by rw [h]; rfl⟩
    · exact ⟨'a', by decide, by rw [h]; rfl⟩
    · exact ⟨'b', by decide, by rw [h]; rfl⟩

theorem embeddedMs_format (hms : 0 ≤ ms) (hFits : ms < 2 ^ 48) (hA : randA.toNat ≤ 0x0FFF)
    (randB : UInt64) : (embeddedMs (format ms randA randB) : Int) = ms := by
  obtain ⟨seq, node, hFormat, -, -⟩ := format_eq hms hFits hA randB
  have hFirst : ms.toNat / 2 ^ 16 < 16 ^ 8 := by omega
  have hSecond : ms.toNat % 2 ^ 16 < 16 ^ 4 := Nat.mod_lt _ (by decide)
  have hLength := length_hex (by decide) hFirst
  have hLength' := length_hex (by decide) hSecond
  have hTake : (format ms randA randB).take 8 = hex 8 (ms.toNat / 2 ^ 16) := by
    rw [hFormat, List.take_left' hLength]
  have hDrop : ((format ms randA randB).drop 9).take 4 = hex 4 (ms.toNat % 2 ^ 16) := by
    rw [hFormat, List.append_cons,
      List.drop_left' (by rw [List.length_append, hLength]; rfl), List.take_left' hLength']
  rw [embeddedMs, hTake, hDrop, List.map_append, map_hexValue_hex (by decide) hFirst,
    map_hexValue_hex (by decide) hSecond, row_append (by decide) hSecond, value_row]
  · omega
  · omega

/-- The part of an id that orders it. -/
def packed (s : MonotonicState) : Nat := s.lastMs.toNat * 2 ^ 12 + s.counter.toNat

/-- A state that calls reach. -/
structure Sound (s : MonotonicState) : Prop where
  time : 0 ≤ s.lastMs
  counter : s.counter.toNat ≤ 0x0FFF

theorem format_lt {s t : MonotonicState} (hs : Sound s) (ht : Sound t) (hFits : s.lastMs < 2 ^ 48)
    (hFits' : t.lastMs < 2 ^ 48) (h : packed s < packed t) (r r' : UInt64) :
    format s.lastMs s.counter r < format t.lastMs t.counter r' := by
  obtain ⟨_, _, hFormat, -, -⟩ := format_eq hs.time hFits hs.counter r
  obtain ⟨_, _, hFormat', -, -⟩ := format_eq ht.time hFits' ht.counter r'
  have hCounter := hs.counter
  have hCounter' := ht.counter
  unfold packed at h
  have hHigh : s.lastMs.toNat / 2 ^ 16 < 16 ^ 8 := by omega
  have hHigh' : t.lastMs.toNat / 2 ^ 16 < 16 ^ 8 := by omega
  have hLow : s.lastMs.toNat % 2 ^ 16 < 16 ^ 4 := Nat.mod_lt _ (by decide)
  have hLow' : t.lastMs.toNat % 2 ^ 16 < 16 ^ 4 := Nat.mod_lt _ (by decide)
  have hThird : 0x7000 + s.counter.toNat < 16 ^ 4 := by omega
  have hThird' : 0x7000 + t.counter.toNat < 16 ^ 4 := by omega
  rw [hFormat, hFormat']
  -- The ids differ first in the high part of the time, in its low part, or in the counter.
  rcases lt_or_ge (s.lastMs.toNat / 2 ^ 16) (t.lastMs.toNat / 2 ^ 16) with hLess | hMore
  · exact append_lt_append (hex_lt_hex (by decide) hLess hHigh')
      (by rw [length_hex (by decide) hHigh, length_hex (by decide) hHigh']) _ _
  · have hSame : s.lastMs.toNat / 2 ^ 16 = t.lastMs.toNat / 2 ^ 16 := by omega
    rw [hSame]
    refine List.append_left_lt (.cons ?_)
    rcases lt_or_ge (s.lastMs.toNat % 2 ^ 16) (t.lastMs.toNat % 2 ^ 16) with hLess | hMore
    · exact append_lt_append (hex_lt_hex (by decide) hLess hLow')
        (by rw [length_hex (by decide) hLow, length_hex (by decide) hLow']) _ _
    · have hSame : s.lastMs.toNat % 2 ^ 16 = t.lastMs.toNat % 2 ^ 16 := by omega
      rw [hSame]
      refine List.append_left_lt (.cons ?_)
      have hLess : 0x7000 + s.counter.toNat < 0x7000 + t.counter.toNat := by omega
      exact append_lt_append (hex_lt_hex (by decide) hLess hThird')
        (by rw [length_hex (by decide) hThird, length_hex (by decide) hThird']) _ _

theorem advance_spec {s : MonotonicState} (hs : Sound s) {now : Int} (hNow : 0 ≤ now) :
    Sound (advance s now) ∧ packed s < packed (advance s now) ∧
      (packed (advance s now) = packed s + 1 ∨ packed (advance s now) = now.toNat * 2 ^ 12) := by
  have hTime := hs.time
  have hCounter := hs.counter
  unfold advance
  split
  · split
    · rename_i hFull
      have hFull : 0x0FFF ≤ s.counter.toNat := UInt16.le_iff_toNat_le.mp hFull
      refine ⟨⟨by show 0 ≤ s.lastMs + 1; omega, show (0 : UInt16).toNat ≤ 0x0FFF by decide⟩, ?_, .inl ?_⟩
      · simp only [packed, UInt16.toNat_zero]
        omega
      · simp only [packed, UInt16.toNat_zero]
        omega
    · rename_i hRoom
      have hRoom : s.counter.toNat < 0x0FFF := by
        by_contra hFull
        exact hRoom (UInt16.le_iff_toNat_le.mpr (Nat.le_of_not_lt hFull))
      have hNext : (s.counter + 1).toNat = s.counter.toNat + 1 := by
        rw [UInt16.toNat_add, UInt16.toNat_one]
        omega
      refine ⟨⟨hTime, by show (s.counter + 1).toNat ≤ 0x0FFF; omega⟩, ?_, .inl ?_⟩
      · simp only [packed, hNext]
        omega
      · simp only [packed, hNext]
        omega
  · rename_i hLater
    refine ⟨⟨hNow, show (0 : UInt16).toNat ≤ 0x0FFF by decide⟩, ?_, .inr ?_⟩
    · simp only [packed, UInt16.toNat_zero]
      omega
    · simp only [packed, UInt16.toNat_zero]
      omega

theorem made_spec {s : MonotonicState} (hs : Sound s) {calls : List Call} (hNow : ∀ c ∈ calls, 0 ≤ c.now) :
    ∀ p ∈ made s calls, Sound p.2 ∧ packed s < packed p.2 ∧
      ∃ r, p.1 = format p.2.lastMs p.2.counter r := by
  induction calls generalizing s with
  | nil => simp [made]
  | cons c calls ih =>
    obtain ⟨hFirst, hRest⟩ := List.forall_mem_cons.mp hNow
    obtain ⟨hSound, hMore, -⟩ := advance_spec hs hFirst
    intro p hp
    rcases List.mem_cons.mp hp with rfl | hp
    · exact ⟨hSound, hMore, c.rand, rfl⟩
    · obtain ⟨hSound', hMore', hFormat⟩ := ih hSound hRest p hp
      exact ⟨hSound', hMore.trans hMore', hFormat⟩

theorem made_increase {s : MonotonicState} (hs : Sound s) {calls : List Call}
    (hNow : ∀ c ∈ calls, 0 ≤ c.now) (hFits : ∀ p ∈ made s calls, p.2.lastMs < 2 ^ 48) :
    (made s calls).Pairwise fun p q => p.1 < q.1 := by
  induction calls generalizing s with
  | nil => exact .nil
  | cons c calls ih =>
    obtain ⟨hFirst, hRest⟩ := List.forall_mem_cons.mp hNow
    obtain ⟨hFitsFirst, hFitsRest⟩ := List.forall_mem_cons.mp hFits
    obtain ⟨hSound, -, -⟩ := advance_spec hs hFirst
    refine .cons (fun q hq => ?_) (ih hSound hRest hFitsRest)
    obtain ⟨hSound', hMore, r, hFormat⟩ := made_spec hSound hRest q hq
    rw [hFormat]
    exact format_lt hSound hSound' hFitsFirst (hFitsRest q hq) hMore c.rand r

theorem latest_nonneg (calls : List Call) : 0 ≤ latest calls := by
  induction calls with
  | nil => exact le_rfl
  | cons c calls ih => exact ih.trans (le_max_right c.now (latest calls))

theorem packed_le {s : MonotonicState} (hs : Sound s) {m : Int} {n : Nat} (hm : 0 ≤ m)
    (hStart : packed s ≤ m.toNat * 2 ^ 12 + n) {calls : List Call} (hNow : ∀ c ∈ calls, 0 ≤ c.now)
    {k : Nat} {p : List UInt8 × MonotonicState} (hp : (made s calls)[k]? = some p) :
    packed p.2 ≤ (max m (latest (calls.take (k + 1)))).toNat * 2 ^ 12 + (n + (k + 1)) := by
  induction calls generalizing s m n k with
  | nil => cases hp
  | cons c calls ih =>
    obtain ⟨hFirst, hRest⟩ := List.forall_mem_cons.mp hNow
    obtain ⟨hSound, -, hNext⟩ := advance_spec hs hFirst
    have hLatest : latest ((c :: calls).take (k + 1)) = max c.now (latest (calls.take k)) := rfl
    rw [hLatest]
    have hStart' : packed (advance s c.now) ≤ (max m c.now).toNat * 2 ^ 12 + (n + 1) := by
      rcases hNext with hNext | hNext <;> omega
    cases k with
    | zero =>
      obtain rfl := Option.some.inj hp
      have hNone : latest (calls.take 0) = 0 := rfl
      rw [hNone, max_eq_left hFirst]
      exact hStart'
    | succ k =>
      have hLe := ih hSound (hm.trans (le_max_left m c.now)) hStart' hRest hp
      rw [max_assoc] at hLe
      omega

theorem length_made (s : MonotonicState) (calls : List Call) : (made s calls).length = calls.length := by
  induction calls generalizing s with
  | nil => rfl
  | cons c calls ih => rw [made, List.length_cons, ih, List.length_cons]

/-- Every call returns an id.  The ids that a process makes are UUIDs of version 7 and increase, and the time
in each of them is not ahead of the clock by more than one millisecond for every 4096 calls. -/
theorem ids_increase {calls : List Call} (hNow : ∀ c ∈ calls, 0 ≤ c.now)
    (hFits : ∀ p ∈ made {} calls, p.2.lastMs < 2 ^ 48) :
    (ids calls).length = calls.length ∧ (∀ id ∈ ids calls, IsUuidV7 id) ∧ (ids calls).Pairwise (· < ·) ∧
      ∀ k id, (ids calls)[k]? = some id →
        (embeddedMs id : Int) ≤ latest (calls.take (k + 1)) + ((k + 1 + 4095) / 4096 : Nat) := by
  have hStart : Sound {} := ⟨le_rfl, by decide⟩
  have hMade := made_spec hStart hNow
  refine ⟨?_, fun id hId => ?_, ?_, fun k id hId => ?_⟩
  · rw [ids, List.length_map, length_made]
  · obtain ⟨p, hp, rfl⟩ := List.mem_map.mp hId
    obtain ⟨hSound, -, r, hFormat⟩ := hMade p hp
    rw [hFormat]
    exact isUuidV7_format hSound.time (hFits p hp) hSound.counter r
  · exact List.pairwise_map.mpr (made_increase hStart hNow hFits)
  · rw [ids, List.getElem?_map] at hId
    obtain ⟨p, hp, rfl⟩ := Option.map_eq_some_iff.mp hId
    have hMem := List.mem_of_getElem? hp
    obtain ⟨hSound, -, r, hFormat⟩ := hMade p hMem
    have hTime := hSound.time
    have hLe := packed_le hStart (m := 0) (n := 0) le_rfl (Nat.zero_le _) hNow hp
    have hLatest := latest_nonneg (calls.take (k + 1))
    rw [hFormat, embeddedMs_format hTime (hFits p hMem) hSound.counter]
    rw [max_eq_right hLatest] at hLe
    unfold packed at hLe
    omega

def ticks : List Call := [⟨5, 0⟩, ⟨5, 1⟩, ⟨3, 2⟩, ⟨7, 3⟩]

/-- The clock stands still, goes back and goes on. -/
theorem ticks_increase : (ids ticks).length = 4 ∧ (∀ id ∈ ids ticks, IsUuidV7 id) ∧
    (ids ticks).Pairwise (· < ·) ∧ ∀ k id, (ids ticks)[k]? = some id →
      (embeddedMs id : Int) ≤ latest (ticks.take (k + 1)) + ((k + 1 + 4095) / 4096 : Nat) :=
  ids_increase (by decide) (by decide +kernel)

end Cronymax.Events.UuidV7
