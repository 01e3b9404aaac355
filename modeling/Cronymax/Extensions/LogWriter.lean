import Cronymax.Files.Disk
import Cronymax.Files.Handles
import Cronymax.Utf8.Lossy

/-! A log that is rotated on size: `write_bytes` appends to the live file, and when that has grown to its
limit, `rotate_locked` moves it to `.1`, what was there to `.2`, and so on; the oldest file is deleted.  What
the files hold, from the oldest one to the live one, is always the end of what has been written. -/

namespace Cronymax.Extensions

open Files (Location Volume)

structure LogConfig where
  maxFileSize : UInt64 := 10 * 1024 * 1024
  maxHistory : UInt32 := 3

def LogConfig.room (config : LogConfig) : Nat := max 1 config.maxHistory.toNat

/-- `LogWriter`. -/
structure LogWriter where
  path : Location
  file : Nat
  config : LogConfig

/-- `rotated_path`. -/
def rotatedPath (base : Location) (n : Nat) : Location :=
  base.dropLast ++ [base.getLast?.getD "" ++ "." ++ toString n]

namespace LogWriter

/-- `LogWriter::open`. -/
def openLog (path : Location) (config : LogConfig) (v : Volume Location) : LogWriter × Volume Location :=
  (⟨path, (v.openFile path).1, config⟩, (v.openFile path).2)

variable (w : LogWriter) (v : Volume Location)

/-- The file with the highest number is removed. -/
def dropOldest : Volume Location :=
  if v.has (rotatedPath w.path w.config.maxHistory.toNat) then
    v.remove (rotatedPath w.path w.config.maxHistory.toNat)
  else v

/-- One file moves up. -/
def shift (i : Nat) : Volume Location :=
  if v.has (rotatedPath w.path i) then v.rename (rotatedPath w.path i) (rotatedPath w.path (i + 1)) else v

def shifts : Nat → Volume Location → Volume Location
  | 0, v => v
  | i + 1, v => shifts i (w.shift v (i + 1))

/-- The live file becomes the first. -/
def moveLive : Volume Location :=
  if v.has w.path then v.rename w.path (rotatedPath w.path 1) else v

/-- `rotate_locked`. -/
def rotateLocked : LogWriter × Volume Location :=
  let v := w.moveLive (w.shifts (w.config.maxHistory.toNat - 1) (w.dropOldest v))
  ({ w with file := (v.openFile w.path).1 }, (v.openFile w.path).2)

/-- `write_bytes`: a file that has grown too large is rotated. -/
def writeBytes (data : List UInt8) : LogWriter × Volume Location :=
  let v := v.append w.file data
  if (v.bytes w.file).length ≥ w.config.maxFileSize.toNat then w.rotateLocked v else (w, v)

/-- What `write_line` writes. -/
def lineBytes (line : String) : List UInt8 :=
  if line.toList.getLast? = some '\n' then Utf8.encode line.toList else Utf8.encode (line.toList ++ ['\n'])

/-- `write_line`. -/
def writeLine (line : String) : LogWriter × Volume Location := w.writeBytes v (lineBytes line)

end LogWriter

/-- The live file and the rotated ones, by their numbers. -/
def place (base : Location) : Nat → Location
  | 0 => base
  | n + 1 => rotatedPath base (n + 1)

@[simp] theorem place_zero (base : Location) : place base 0 = base := rfl

@[simp] theorem place_succ (base : Location) (n : Nat) : place base (n + 1) = rotatedPath base (n + 1) := rfl

theorem rotatedPath_injective {base : Location} {n m : Nat} (h : rotatedPath base n = rotatedPath base m) :
    n = m := by
  have hNames := List.singleton_inj.mp (List.append_cancel_left h)
  have hDigits : Nat.toDigits 10 n = Nat.toDigits 10 m := by
    have hText := congrArg String.toList hNames
    simpa [Nat.toList_repr] using hText
  rw [← Nat.ofDigitChars_ten_toDigits (n := n), hDigits, Nat.ofDigitChars_ten_toDigits]

theorem rotatedPath_ne {base : Location} (n : Nat) : rotatedPath base n ≠ base := by
  intro h
  rcases List.eq_nil_or_concat base with rfl | ⟨front, name, rfl⟩
  · cases h
  · have hText := congrArg (fun p : Location => (p.getLast?.map fun s => s.toList.length)) h
    simp [rotatedPath] at hText

theorem place_ne {base r : Location} (hr : r ≠ base) (hRotated : ∀ i, r ≠ rotatedPath base i) (i : Nat) :
    r ≠ place base i := by
  cases i with
  | zero => exact hr
  | succ i => exact hRotated (i + 1)

theorem place_injective {base : Location} {n m : Nat} (h : place base n = place base m) : n = m := by
  cases n with
  | zero =>
    cases m with
    | zero => rfl
    | succ m => exact absurd h.symm (rotatedPath_ne _)
  | succ n =>
    cases m with
    | zero => exact absurd h (rotatedPath_ne _)
    | succ m => exact rotatedPath_injective h

namespace LogWriter

variable {w : LogWriter} {v : Volume Location}

theorem shift_spec {i : Nat} (hFree : v.read (rotatedPath w.path (i + 1)) = none) :
    (∀ r, (w.shift v i).read r = if r = rotatedPath w.path (i + 1) then v.read (rotatedPath w.path i)
      else if r = rotatedPath w.path i then none else v.read r) ∧
    ∀ h, v.Opens h w.path → (w.shift v i).Opens h w.path := by
  have hApart : rotatedPath w.path i ≠ rotatedPath w.path (i + 1) := fun h => by
    have hSame := rotatedPath_injective h
    omega
  unfold shift
  split
  · rename_i hThere
    exact ⟨fun r => Volume.read_rename hApart hThere, fun h hOpen =>
      hOpen.rename hApart hThere (rotatedPath_ne i).symm (rotatedPath_ne _).symm⟩
  · rename_i hNone
    have hGone := Volume.read_eq_none.mpr (Bool.not_eq_true _ ▸ hNone)
    refine ⟨fun r => ?_, fun h hOpen => hOpen⟩
    split_ifs with hNext hHere
    · rw [hNext, hFree, hGone]
    · rw [hHere, hGone]
    · rfl

theorem shifts_spec {k : Nat} (hFree : v.read (rotatedPath w.path (k + 1)) = none) :
    (w.shifts k v).read (rotatedPath w.path 1) = none ∧
    (∀ j, 1 ≤ j → j ≤ k → (w.shifts k v).read (rotatedPath w.path (j + 1)) = v.read (rotatedPath w.path j)) ∧
    (∀ r, (∀ j, 1 ≤ j → j ≤ k + 1 → r ≠ rotatedPath w.path j) → (w.shifts k v).read r = v.read r) ∧
    ∀ h, v.Opens h w.path → (w.shifts k v).Opens h w.path := by
  induction k generalizing v with
  | zero => exact ⟨hFree, fun j h1 h2 => by omega, fun _ _ => rfl, fun _ hOpen => hOpen⟩
  | succ k ih =>
    obtain ⟨hRead, hOpens⟩ := shift_spec hFree
    have hNext : (w.shift v (k + 1)).read (rotatedPath w.path (k + 1)) = none := by
      rw [hRead, if_neg fun h => by have hSame := rotatedPath_injective h; omega, if_pos rfl]
    obtain ⟨hFirst, hMoved, hOther, hKept⟩ := ih hNext
    refine ⟨hFirst, fun j h1 hj => ?_, fun r hr => ?_, fun h hOpen => hKept h (hOpens h hOpen)⟩
    · rcases Nat.lt_or_eq_of_le hj with hLess | rfl
      · rw [shifts, hMoved j h1 (by omega), hRead,
          if_neg fun h => by have hSame := rotatedPath_injective h; omega,
          if_neg fun h => by have hSame := rotatedPath_injective h; omega]
      · rw [shifts, hOther _ fun j h1 hj h => by have hSame := rotatedPath_injective h; omega, hRead,
          if_pos rfl]
    · rw [shifts, hOther r fun j h1 hj => hr j h1 (by omega), hRead, if_neg (hr _ (by omega) le_rfl),
        if_neg (hr _ (by omega) (by omega))]

theorem dropOldest_spec :
    (∀ r, (w.dropOldest v).read r =
      if r = rotatedPath w.path w.config.maxHistory.toNat then none else v.read r) ∧
    ∀ h, v.Opens h w.path → (w.dropOldest v).Opens h w.path := by
  unfold dropOldest
  split
  · exact ⟨fun r => Volume.read_remove, fun h hOpen => hOpen.remove (rotatedPath_ne _).symm⟩
  · rename_i hNone
    refine ⟨fun r => ?_, fun h hOpen => hOpen⟩
    split_ifs with hHere
    · rw [hHere]
      exact Volume.read_eq_none.mpr (Bool.not_eq_true _ ▸ hNone)
    · rfl

theorem moveLive_spec (hLive : v.Opens w.file w.path) (r : Location) :
    ((w.moveLive v).openFile w.path).2.read r =
      if r = w.path then some [] else if r = rotatedPath w.path 1 then v.read w.path else v.read r := by
  have hApart : w.path ≠ rotatedPath w.path 1 := (rotatedPath_ne 1).symm
  have hMove (q : Location) := Volume.read_rename (r := q) hApart hLive.has
  rw [Volume.read_openFile, moveLive, if_pos hLive.has]
  split_ifs with hr hNext
  · rw [hMove, if_neg hApart, if_pos rfl]
    rfl
  · rw [hMove, if_pos hNext]
  · rw [hMove, if_neg hNext, if_neg hr]

theorem rotate_spec (hOpen : v.Opens w.file w.path) :
    (w.rotateLocked v).2.read w.path = some [] ∧
    (∀ i < w.config.room, (w.rotateLocked v).2.read (place w.path (i + 1)) = v.read (place w.path i)) ∧
    (∀ r, (∀ i ≤ w.config.room, r ≠ place w.path i) → r ≠ rotatedPath w.path 0 →
      (w.rotateLocked v).2.read r = v.read r) ∧
    (w.rotateLocked v).2.Opens (w.rotateLocked v).1.file w.path := by
  obtain ⟨hDropped, hDroppedOpens⟩ := dropOldest_spec (w := w) (v := v)
  cases hMax : w.config.maxHistory.toNat with
  | zero =>
    have hRoom : w.config.room = 1 := by rw [LogConfig.room, hMax]; rfl
    have hShifts : w.shifts (w.config.maxHistory.toNat - 1) (w.dropOldest v) = w.dropOldest v := by
      rw [hMax]
      rfl
    have hRotated := moveLive_spec (hDroppedOpens _ hOpen)
    rw [hMax] at hDropped
    rw [rotateLocked, hShifts, hRoom]
    refine ⟨(hRotated _).trans (if_pos rfl), fun i hi => ?_, fun r hr hZero => ?_, Volume.openFile_opens⟩
    · obtain rfl : i = 0 := by omega
      refine (hRotated _).trans ((if_neg (rotatedPath_ne 1)).trans ((if_pos rfl).trans ?_))
      exact (hDropped _).trans (if_neg (rotatedPath_ne 0).symm)
    · have hLivePath : r ≠ w.path := hr 0 (Nat.zero_le _)
      have hFirst : r ≠ rotatedPath w.path 1 := hr 1 le_rfl
      exact (hRotated r).trans ((if_neg hLivePath).trans ((if_neg hFirst).trans
        ((hDropped r).trans (if_neg hZero))))
  | succ k =>
    have hRoom : w.config.room = k + 1 := by rw [LogConfig.room, hMax]; omega
    rw [hMax] at hDropped
    have hFree : (w.dropOldest v).read (rotatedPath w.path (k + 1)) = none := by rw [hDropped, if_pos rfl]
    obtain ⟨hFirst, hMoved, hOther, hShiftedOpens⟩ := shifts_spec hFree
    have hTurns : w.config.maxHistory.toNat - 1 = k := by omega
    have hRotated := moveLive_spec (hShiftedOpens _ (hDroppedOpens _ hOpen))
    rw [rotateLocked, hTurns, hRoom]
    refine ⟨(hRotated _).trans (if_pos rfl), fun i hi => ?_, fun r hr _ => ?_, Volume.openFile_opens⟩
    · cases i with
      | zero =>
        refine (hRotated _).trans ((if_neg (rotatedPath_ne 1)).trans ((if_pos rfl).trans ?_))
        rw [hOther _ fun j _ _ => (rotatedPath_ne j).symm, hDropped, if_neg (rotatedPath_ne _).symm]
        rfl
      | succ i =>
        have hLater : rotatedPath w.path (i + 1 + 1) ≠ rotatedPath w.path 1 := fun h => by
          have hSame := rotatedPath_injective h
          omega
        refine (hRotated _).trans ((if_neg (rotatedPath_ne _)).trans ((if_neg hLater).trans ?_))
        refine (hMoved (i + 1) (by omega) (by omega)).trans ((hDropped _).trans (if_neg fun h => ?_))
        have hSame := rotatedPath_injective h
        omega
    · have hNot (j : Nat) (h1 : 1 ≤ j) (hj : j ≤ k + 1) : r ≠ rotatedPath w.path j := by
        have hPlace := hr j hj
        rwa [show place w.path j = rotatedPath w.path j by cases j <;> [omega; rfl]] at hPlace
      have hLivePath : r ≠ w.path := hr 0 (Nat.zero_le _)
      refine (hRotated r).trans ((if_neg hLivePath).trans ((if_neg (hNot 1 le_rfl (by omega))).trans ?_))
      rw [hOther r hNot, hDropped, if_neg (hNot _ (by omega) le_rfl)]

theorem lookup_writeBytes (data : List UInt8) {r : Location} (hr : r ≠ w.path)
    (hRotated : ∀ i, r ≠ rotatedPath w.path i) :
    (w.writeBytes v data).2.names.lookup r = v.names.lookup r := by
  have hDropped (u : Volume Location) : (w.dropOldest u).names.lookup r = u.names.lookup r := by
    unfold dropOldest
    split
    · exact Volume.lookup_remove_ne (hRotated _)
    · rfl
  have hShifted (k : Nat) (u : Volume Location) : (w.shifts k u).names.lookup r = u.names.lookup r := by
    induction k generalizing u with
    | zero => rfl
    | succ k ih =>
      refine (ih _).trans ?_
      unfold shift
      split
      · exact Volume.lookup_rename_ne (hRotated _) (hRotated _)
      · rfl
  have hMoved (u : Volume Location) : (w.moveLive u).names.lookup r = u.names.lookup r := by
    unfold moveLive
    split
    · exact Volume.lookup_rename_ne hr (hRotated 1)
    · rfl
  rw [writeBytes]
  split
  · exact (Volume.lookup_openFile_ne hr).trans ((hMoved _).trans ((hShifted _ _).trans (hDropped _)))
  · rfl

/-- What the files hold: the newest one is the live file, and each holds some writes. -/
structure Keeps (w : LogWriter) (v : Volume Location) (kept : List (List (List UInt8))) : Prop where
  opens : v.Opens w.file w.path
  live : kept ≠ []
  few : kept.length ≤ w.config.room + 1
  read : ∀ i, v.read (place w.path i) = (kept[i]?).map List.flatten

/-- The files after one write: the line is added, and a rotation moves all. -/
inductive Next (config : LogConfig) (data : List UInt8) :
    List (List (List UInt8)) → List (List (List UInt8)) → Prop where
  | stays (live rest) (hSize : (live ++ [data]).flatten.length < config.maxFileSize.toNat) :
    Next config data (live :: rest) ((live ++ [data]) :: rest)
  | rotates (live rest) (hSize : config.maxFileSize.toNat ≤ (live ++ [data]).flatten.length) :
    Next config data (live :: rest) (([] :: (live ++ [data]) :: rest).take (config.room + 1))

theorem Keeps.write {kept : List (List (List UInt8))} (h : Keeps w v kept)
    (data : List UInt8) :
    (w.writeBytes v data).1.path = w.path ∧ (w.writeBytes v data).1.config = w.config ∧
    (∀ r, r ≠ w.path → (∀ i, r ≠ rotatedPath w.path i) → (w.writeBytes v data).2.read r = v.read r) ∧
    ∃ kept', Next w.config data kept kept' ∧
      Keeps (w.writeBytes v data).1 (w.writeBytes v data).2 kept' := by
  obtain ⟨live, rest, rfl⟩ := List.exists_cons_of_ne_nil h.live
  have hAppended (r : Location) := Volume.read_append (q := r) h.opens data
  have hKeeps : Keeps w (v.append w.file data) ((live ++ [data]) :: rest) := by
    refine ⟨h.opens.append _ _, List.cons_ne_nil _ _, h.few, fun i => ?_⟩
    rw [hAppended]
    cases i with
    | zero =>
      have hLive := h.read 0
      rw [place_zero] at hLive
      rw [place_zero, if_pos rfl, hLive]
      simp
    | succ i =>
      rw [place_succ, if_neg (rotatedPath_ne _), ← place_succ, h.read]
      rfl
  have hOther (r : Location) (hr : r ≠ w.path) : (v.append w.file data).read r = v.read r := by
    rw [hAppended, if_neg hr]
  have hBytes : (v.append w.file data).bytes w.file = (live ++ [data]).flatten :=
    Option.some.inj (hKeeps.opens.read.symm.trans (hKeeps.read 0))
  rw [writeBytes, hBytes]
  split
  · rename_i hSize
    obtain ⟨hEmpty, hMoved, hRest, hOpens⟩ := rotate_spec hKeeps.opens
    have hFew : (([] :: (live ++ [data]) :: rest).take (w.config.room + 1)).length
        ≤ w.config.room + 1 := List.length_take_le _ _
    refine ⟨rfl, rfl, fun r hr hRotated =>
      (hRest r (fun i _ => place_ne hr hRotated i) (hRotated 0)).trans (hOther r hr), _, .rotates live rest hSize,
      hOpens, by simp, hFew, fun i => ?_⟩
    rw [List.getElem?_take]
    cases i with
    | zero => exact hEmpty
    | succ i =>
      split_ifs with hi
      · exact (hMoved i (by omega)).trans (hKeeps.read i)
      · have hZero : place w.path (i + 1) ≠ rotatedPath w.path 0 := fun h => by
          have hSame := rotatedPath_injective h
          omega
        refine (hRest _ (fun j hj hSame => ?_) hZero).trans ((hKeeps.read (i + 1)).trans ?_)
        · have hPlace := place_injective hSame
          omega
        · have hFew := hKeeps.few
          rw [List.getElem?_eq_none (by omega)]
  · rename_i hSize
    exact ⟨rfl, rfl, fun r hr _ => hOther r hr, _, .stays live rest (Nat.lt_of_not_le hSize), hKeeps⟩

/-- What becomes of the files when more is written: only the oldest writes go, and only where the history is
full, and the newest one stays. -/
structure Follows (config : LogConfig) (written lost : List (List UInt8))
    (kept kept' : List (List (List UInt8))) : Prop where
  whole : kept.reverse.flatten ++ written = lost ++ kept'.reverse.flatten
  full : lost ≠ [] → kept'.length = config.room + 1
  grows : kept.length ≤ kept'.length
  newest : kept'.reverse.flatten = [] → kept.reverse.flatten ++ written = []

section Follows

variable {config : LogConfig} {written written' lost lost' : List (List UInt8)}
  {kept kept' kept'' : List (List (List UInt8))}

theorem Follows.refl : Follows config [] [] kept kept where
  whole := by simp
  full := fun h => absurd rfl h
  grows := le_rfl
  newest := by simp

theorem Follows.trans (h : Follows config written lost kept kept')
    (h' : Follows config written' lost' kept' kept'') (hFew : kept''.length ≤ config.room + 1) :
    Follows config (written ++ written') (lost ++ lost') kept kept'' where
  whole := by rw [List.append_assoc, ← h'.whole, ← List.append_assoc, ← List.append_assoc, h.whole]
  full hLost := by
    by_cases hNone : lost' = []
    · rw [hNone, List.append_nil] at hLost
      exact le_antisymm hFew ((h.full hLost).symm.trans_le h'.grows)
    · exact h'.full hNone
  grows := h.grows.trans h'.grows
  newest hEmpty := by
    obtain ⟨hKept, rfl⟩ := List.append_eq_nil_iff.mp (h'.newest hEmpty)
    rw [List.append_nil]
    exact h.newest hKept

theorem Next.follows {data : List UInt8} (h : Next config data kept kept')
    (hFew : kept.length ≤ config.room + 1) : ∃ lost, Follows config [data] lost kept kept' := by
  cases h with
  | stays live rest => exact ⟨[], by simp, by simp, le_rfl, by simp⟩
  | rotates live rest =>
    obtain ⟨k, hRoom⟩ : ∃ k, config.room = k + 1 := Nat.exists_eq_add_of_le' (Nat.le_max_left _ _)
    refine ⟨(([] :: (live ++ [data]) :: rest).drop (config.room + 1)).reverse.flatten, ?_, fun hLost => ?_, ?_, ?_⟩
    · rw [← List.flatten_append, ← List.reverse_append, List.take_append_drop]
      simp
    · refine List.length_take_of_le (Nat.le_of_not_le fun hShort => hLost ?_)
      rw [List.drop_eq_nil_of_le hShort]
      rfl
    · rw [List.length_cons] at hFew
      simp only [List.length_take, List.length_cons]
      omega
    · rw [hRoom]
      simp

end Follows

def afterLines : List String → LogWriter × Volume Location → LogWriter × Volume Location
  | [], s => s
  | line :: lines, s => afterLines lines (s.1.writeLine s.2 line)

theorem Keeps.lines {kept : List (List (List UInt8))} (h : Keeps w v kept)
    (lines : List String) :
    (afterLines lines (w, v)).1.path = w.path ∧ (afterLines lines (w, v)).1.config = w.config ∧
    ∃ lost kept', Follows w.config (lines.map lineBytes) lost kept kept' ∧
      Keeps (afterLines lines (w, v)).1 (afterLines lines (w, v)).2 kept' := by
  induction lines generalizing w v kept with
  | nil => exact ⟨rfl, rfl, [], kept, .refl, h⟩
  | cons line lines ih =>
    obtain ⟨hPath, hConfig, -, kept₁, hNext, hKeeps⟩ := h.write (lineBytes line)
    obtain ⟨lost₁, hFollows₁⟩ := hNext.follows h.few
    obtain ⟨hPath', hConfig', lost₂, kept₂, hFollows₂, hKeeps'⟩ := ih hKeeps
    have hFew := hKeeps'.few
    rw [hConfig] at hFollows₂
    rw [hConfig', hConfig] at hFew
    exact ⟨hPath'.trans hPath, hConfig'.trans hConfig, lost₁ ++ lost₂, kept₂,
      hFollows₁.trans hFollows₂ hFew, hKeeps'⟩

theorem openLog_keeps {path : Location} {config : LogConfig} {v : Volume Location}
    {kept : List (List (List UInt8))} (hFew : kept.length ≤ config.room + 1)
    (hRead : ∀ i, v.read (place path i) = (kept[i]?).map List.flatten) :
    Keeps (openLog path config v).1 (openLog path config v).2 (if kept = [] then [[]] else kept) := by
  have hLive : v.read path = (kept[0]?).map List.flatten := hRead 0
  have hOpened (r : Location) : (openLog path config v).2.read r =
      if r = path then some (((kept[0]?).map List.flatten).getD []) else v.read r := by
    rw [← hLive]
    exact Volume.read_openFile
  cases kept with
  | nil =>
    refine ⟨Volume.openFile_opens, by simp, by simp, fun i => ?_⟩
    cases i with
    | zero => exact (hOpened path).trans (if_pos rfl)
    | succ i => exact (hOpened _).trans ((if_neg (rotatedPath_ne _)).trans (hRead (i + 1)))
  | cons live rest =>
    refine ⟨Volume.openFile_opens, by simp, hFew, fun i => ?_⟩
    cases i with
    | zero => exact (hOpened path).trans (if_pos rfl)
    | succ i => exact (hOpened _).trans ((if_neg (rotatedPath_ne _)).trans (hRead (i + 1)))

theorem follows_opened (config : LogConfig) (kept : List (List (List UInt8))) :
    Follows config [] [] kept (if kept = [] then [[]] else kept) := by
  split
  · rename_i h
    rw [h]
    exact ⟨rfl, fun h => absurd rfl h, Nat.zero_le _, fun _ => rfl⟩
  · exact .refl

def afterSessions (path : Location) (config : LogConfig) : List (List String) → Volume Location → Volume Location
  | [], v => v
  | lines :: sessions, v => afterSessions path config sessions (afterLines lines (openLog path config v)).2

theorem afterSessions_keeps {path : Location} {config : LogConfig} (sessions : List (List String))
    {v : Volume Location} {kept : List (List (List UInt8))} (hFew : kept.length ≤ config.room + 1)
    (hRead : ∀ i, v.read (place path i) = (kept[i]?).map List.flatten) :
    ∃ lost kept', Follows config (sessions.flatten.map lineBytes) lost kept kept' ∧
      kept'.length ≤ config.room + 1 ∧
      ∀ i, (afterSessions path config sessions v).read (place path i) = (kept'[i]?).map List.flatten := by
  induction sessions generalizing v kept with
  | nil => exact ⟨[], kept, .refl, hFew, hRead⟩
  | cons lines sessions ih =>
    obtain ⟨hPath, hConfig, lost₁, kept₂, hFollows₁, hKeeps₂⟩ := (openLog_keeps hFew hRead).lines lines
    have hFew₂ := hKeeps₂.few
    have hRead₂ := hKeeps₂.read
    rw [hConfig] at hFew₂
    rw [hPath] at hRead₂
    obtain ⟨lost₂, kept₃, hFollows₂, hFew₃, hRead₃⟩ := ih hFew₂ hRead₂
    refine ⟨lost₁ ++ lost₂, kept₃, ?_, hFew₃, hRead₃⟩
    rw [List.flatten_cons, List.map_append]
    exact ((follows_opened config kept).trans hFollows₁ hFew₂).trans hFollows₂ hFew₃

/-- Whatever is written to a log, its files hold the end of it, from the oldest file to the live one, and
there are never more rotated files than the history takes.  Nothing is lost before there are that many, and
the newest line never is. -/
theorem rotation_keeps_end (path : Location) (config : LogConfig) (v : Volume Location)
    (hMax : 1 ≤ config.maxHistory.toNat) (hNew : ∀ i, v.read (place path i) = none)
    (sessions : List (List String)) (lines : List String) :
    ∃ lost : List (List UInt8), ∃ rotated : List (List (List UInt8)), ∃ live : List (List UInt8),
      (sessions.flatten ++ lines).map lineBytes = lost ++ (rotated.flatten ++ live) ∧
      rotated.length ≤ config.maxHistory.toNat ∧
      (lost ≠ [] → rotated.length = config.maxHistory.toNat) ∧
      (rotated.flatten ++ live = [] → sessions.flatten ++ lines = []) ∧
      (afterLines lines (openLog path config (afterSessions path config sessions v))).2.read path =
        some live.flatten ∧
      ∀ i, (afterLines lines (openLog path config (afterSessions path config sessions v))).2.read
        (rotatedPath path (i + 1)) = (rotated.reverse[i]?).map List.flatten := by
  have hNone (i : Nat) : v.read (place path i) = (([] : List (List (List UInt8)))[i]?).map List.flatten := hNew i
  obtain ⟨lost₁, kept₁, hFollows₁, hFew₁, hRead₁⟩ :=
    afterSessions_keeps sessions (Nat.zero_le _) hNone
  obtain ⟨hPath, hConfig, lost₂, kept, hFollows₂, hKeeps⟩ := (openLog_keeps hFew₁ hRead₁).lines lines
  obtain ⟨live, rest, rfl⟩ := List.exists_cons_of_ne_nil hKeeps.live
  have hFiles := hKeeps.read
  have hFew := hKeeps.few
  rw [hPath] at hFiles
  rw [hConfig] at hFew
  have hFollows := (hFollows₁.trans (follows_opened config kept₁) ?_).trans hFollows₂ hFew
  · have hRoom : config.room = config.maxHistory.toNat := max_eq_right hMax
    have hWhole := hFollows.whole
    have hNewest := hFollows.newest
    have hFull := hFollows.full
    rw [hRoom, List.length_cons, Nat.add_right_cancel_iff] at hFull
    simp only [List.append_nil, List.reverse_nil, List.flatten_nil, List.nil_append, ← List.map_append,
      List.reverse_cons, List.flatten_append, List.flatten_cons, List.map_eq_nil_iff] at hWhole hNewest
    refine ⟨lost₁ ++ lost₂, rest.reverse, live, hWhole, ?_, ?_, hNewest, hFiles 0, fun i => ?_⟩
    · rw [List.length_reverse, ← hRoom]
      exact Nat.le_of_succ_le_succ hFew
    · rw [List.length_reverse]
      simpa using hFull
    · rw [List.reverse_reverse]
      exact hFiles (i + 1)
  · split
    · exact Nat.le_add_left 1 _
    · exact hFew₁

/-- Three lines over two sessions, each of which fills a file. -/
theorem rotation_keeps_end_twoSessions :
    ∃ lost : List (List UInt8), ∃ rotated : List (List (List UInt8)), ∃ live : List (List UInt8),
      ["one", "two", "three"].map lineBytes = lost ++ (rotated.flatten ++ live) ∧
      rotated.length ≤ 1 ∧ (lost ≠ [] → rotated.length = 1) ∧
      (rotated.flatten ++ live = [] → ["one", "two", "three"] = []) ∧
      (afterLines ["three"] (openLog ["logs", "main.log"] ⟨4, 1⟩
        (afterSessions ["logs", "main.log"] ⟨4, 1⟩ [["one", "two"]] (Volume.empty _)))).2.read
        ["logs", "main.log"] = some live.flatten ∧
      ∀ i, (afterLines ["three"] (openLog ["logs", "main.log"] ⟨4, 1⟩
        (afterSessions ["logs", "main.log"] ⟨4, 1⟩ [["one", "two"]] (Volume.empty _)))).2.read
        (rotatedPath ["logs", "main.log"] (i + 1)) = (rotated.reverse[i]?).map List.flatten :=
  rotation_keeps_end ["logs", "main.log"] ⟨4, 1⟩ (Volume.empty _) (by decide)
    (fun _ => Volume.read_empty) [["one", "two"]] ["three"]

end LogWriter

end Cronymax.Extensions
