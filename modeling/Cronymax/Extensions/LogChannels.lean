import Cronymax.Extensions.LogWriter
import Cronymax.Extensions.Registry
import Cronymax.Llm.Anthropic
import Cronymax.Text.Directives
import Cronymax.Text.Lines
import Mathlib.Data.List.Destutter

/-! The logs of a session: one file for each sink, and a list of the channels that an extension has
written.  The name of a channel is made safe for a file name, so that names can fall together; whoever
reads a channel names it by its file. -/

namespace Cronymax.Extensions

open Files (Location Volume)
open Authority (Value)
open Llm.Payload (asU64)

inductive LogKind where
  | platform
  | extensionHost
  | extensionStderr (extId : String)
  | extensionStdout (extId : String)
  | extensionChannel (extId channel : String)
deriving DecidableEq

structure LogChannelInfo where
  id : String
  label : String
  kind : String
deriving DecidableEq

structure LogEntry where
  t : Option Nat
  level : Option String
  source : Option String
  text : String
deriving DecidableEq

structure LogReadResult where
  entries : List LogEntry
  structured : Bool
  truncated : Bool

def readLineCap : Nat := 5000

def sanitizeChar (c : Char) : Char :=
  if c.isAlphanum || c = '-' || c = '_' then c.toLower else '-'

def channelParts (name : List Char) : List (List Char) :=
  ((name.map sanitizeChar).splitOn '-').filter (· ≠ [])

/-- `sanitize_channel_name`. -/
def sanitizeChannelName (name : String) : String :=
  if channelParts name.toList = [] then "channel"
  else String.ofList (['-'].intercalate (channelParts name.toList))

/-- `name.strip_suffix(".log")`. -/
def stripLog (name : String) : Option String :=
  if ".log".toList <:+ name.toList then some (String.ofList (name.toList.take (name.toList.length - 4)))
  else none

/-- `LogManager`: where its files lie. -/
structure LogManager where
  root : Location
  sessionId : String
  config : LogConfig

/-- The writers that are open, and the files. -/
structure LogState where
  writers : AList fun _ : Location => LogWriter
  files : Volume Location

namespace LogManager

variable (m : LogManager)

def sessionDir : Location := m.root ++ [m.sessionId]

def extDir (extId : String) : Location := join (m.sessionDir ++ ["extensions"]) extId

def channelsDir (extId : String) : Location := m.extDir extId ++ ["channels"]

/-- `resolve_path`. -/
def resolvePath : LogKind → Location
  | .platform => m.sessionDir ++ ["platform.log"]
  | .extensionHost => m.sessionDir ++ ["extension-host.log"]
  | .extensionStderr extId => m.extDir extId ++ ["host.log"]
  | .extensionStdout extId => m.extDir extId ++ ["output.log"]
  | .extensionChannel extId channel => m.channelsDir extId ++ [sanitizeChannelName channel ++ ".log"]

/-- `writer`: the writer of a path is kept. -/
def writer (kind : LogKind) (s : LogState) : LogWriter × LogState :=
  match s.writers.lookup (m.resolvePath kind) with
  | some w => (w, s)
  | none =>
    let opened := LogWriter.openLog (m.resolvePath kind) m.config s.files
    (opened.1, ⟨s.writers.insert (m.resolvePath kind) opened.1, opened.2⟩)

/-- `write_line`. -/
def writeLine (s : LogState) (kind : LogKind) (line : String) : LogState :=
  let found := m.writer kind s
  let written := found.1.writeLine found.2.files line
  ⟨found.2.writers.insert (m.resolvePath kind) written.1, written.2⟩

/-- The file of a channel. -/
def channelFile (extId : String) : String → Location
  | "stdout" => m.extDir extId ++ ["output.log"]
  | "stderr" => m.extDir extId ++ ["host.log"]
  | other => m.channelsDir extId ++ [sanitizeChannelName other ++ ".log"]

def readDir (s : LogState) (dir : Location) : List String :=
  s.files.names.keys.filterMap fun p => if p.dropLast = dir then p.getLast? else none

/-- `named_channels`: without repetitions, in order. -/
def namedChannels (s : LogState) (extId : String) : List String :=
  (((readDir s (m.channelsDir extId)).filterMap stripLog).mergeSort fun a b => decide (a ≤ b)).destutter (· ≠ ·)

/-- `channels`. -/
def channels (s : LogState) (extId : String) : List LogChannelInfo :=
  [⟨"all", "All output", "all"⟩, ⟨"console", "Console (stdout + stderr)", "console"⟩] ++
    (m.namedChannels s extId).map fun id => ⟨id, id, "channel"⟩

section Reading

variable (parse : List Char → Option Value) (s : LogState)

/-- The entry that a line makes. -/
def entryOf (source : String) (sinceMs : Option Nat) (line : List Char) : Option LogEntry :=
  match parse line with
  | some v =>
    let t := (v.get "t").bind asU64
    if (sinceMs.bind fun since => t.map fun ts => decide (ts < since)) = some true then none
    else some {
      t
      level := (v.get "level").bind (·.asStr)
      source := some source
      text := ((v.get "msg").bind (·.asStr)).getD (String.ofList line) }
  | none => some ⟨none, none, some source, String.ofList line⟩

/-- `read_one`: a file that is not text reads as empty. -/
def readOne (path : Location) (source : String) (sinceMs : Option Nat) : List LogEntry :=
  match (s.files.read path).bind Utf8.text? with
  | none => []
  | some content => ((Text.lines content).filter (· ≠ [])).filterMap (entryOf parse source sinceMs)

/-- `sort_by_key` by the time. -/
def byTime (entries : List LogEntry) : List LogEntry :=
  entries.mergeSort fun e e' => decide (e.t.getD 0 ≤ e'.t.getD 0)

/-- `read_channel`: the last entries, up to the cap. -/
def readChannel (extId channelId : String) (sinceMs : Option Nat) (limit : Option Nat) : LogReadResult :=
  let cap := min (limit.getD readLineCap) readLineCap
  let stdout := readOne parse s (m.channelFile extId "stdout") "stdout" sinceMs
  let stderr := readOne parse s (m.channelFile extId "stderr") "stderr" sinceMs
  let entries := match channelId with
    | "all" => byTime (stdout ++ stderr ++ (m.namedChannels s extId).flatMap fun ch =>
        readOne parse s (m.channelFile extId ch) ch sinceMs)
    | "console" => byTime (stdout ++ stderr)
    | other => readOne parse s (m.channelFile extId other) other sinceMs
  ⟨entries.drop (entries.length - cap), true, decide (cap < entries.length)⟩

end Reading

end LogManager

theorem mem_intercalate {α : Type*} {a c : α} {parts : List (List α)} (h : c ∈ [a].intercalate parts) :
    c = a ∨ ∃ part ∈ parts, c ∈ part := by
  induction parts with
  | nil => cases h
  | cons part parts ih =>
    cases parts with
    | nil => exact .inr ⟨part, List.mem_cons_self, by simpa using h⟩
    | cons next parts =>
      rw [List.intercalate_cons_cons, List.mem_append, List.mem_append, List.mem_singleton] at h
      rcases h with (h | h) | h
      · exact .inr ⟨part, List.mem_cons_self, h⟩
      · exact .inl h
      · rcases ih h with h | ⟨other, hOther, h⟩
        · exact .inl h
        · exact .inr ⟨other, List.mem_cons_of_mem _ hOther, h⟩

theorem sanitizeChar_foreign {c : Char} (h : 128 ≤ c.toNat) : sanitizeChar c = '-' := by
  have hNot : c.isAlphanum = false := by
    rw [← Bool.not_eq_true]
    exact fun hAlphanum => absurd (Utf8.ascii_of_isAlphanum hAlphanum) (Nat.not_lt.mpr h)
  have hDash : c ≠ '-' := by
    rintro rfl
    exact absurd h (by decide)
  have hBar : c ≠ '_' := by
    rintro rfl
    exact absurd h (by decide)
  rw [sanitizeChar, hNot]
  simp [hDash, hBar]

theorem sanitizeChar_idempotent (c : Char) : sanitizeChar (sanitizeChar c) = sanitizeChar c := by
  have hAscii : ∀ n : Fin 128,
      sanitizeChar (sanitizeChar (Char.ofNat n)) = sanitizeChar (Char.ofNat n) := by decide +kernel
  by_cases h : c.toNat < 128
  · have hChar := hAscii ⟨c.toNat, h⟩
    rwa [Char.ofNat_toNat] at hChar
  · rw [sanitizeChar_foreign (Nat.le_of_not_lt h)]
    decide

theorem channelParts_sane {name part : List Char} (h : part ∈ channelParts name) :
    (∀ c ∈ part, sanitizeChar c = c ∧ c ≠ '-') ∧ part ≠ [] := by
  obtain ⟨hSplit, hSome⟩ := List.mem_filter.mp h
  refine ⟨fun c hc => ?_, by simpa using hSome⟩
  obtain ⟨hName, hDash⟩ := Text.mem_of_mem_splitOn hSplit hc
  obtain ⟨d, -, rfl⟩ := List.mem_map.mp hName
  exact ⟨sanitizeChar_idempotent d, hDash⟩

theorem channelParts_intercalate {parts : List (List Char)} (hSome : parts ≠ [])
    (h : ∀ part ∈ parts, (∀ c ∈ part, sanitizeChar c = c ∧ c ≠ '-') ∧ part ≠ []) :
    channelParts (['-'].intercalate parts) = parts := by
  have hSane : (['-'].intercalate parts).map sanitizeChar = ['-'].intercalate parts := by
    refine (List.map_congr_left fun c hc => ?_).trans (List.map_id _)
    rcases mem_intercalate hc with rfl | ⟨part, hPart, hc⟩
    · decide
    · exact ((h part hPart).1 c hc).1
  have hSplit : (['-'].intercalate parts).splitOn '-' = parts :=
    List.splitOn_intercalate '-' (fun part hPart hDash => ((h part hPart).1 _ hDash).2 rfl) hSome
  rw [channelParts, hSane, hSplit]
  exact List.filter_eq_self.mpr fun part hPart => by simpa using (h part hPart).2

theorem sanitizeChannelName_idempotent (name : String) :
    sanitizeChannelName (sanitizeChannelName name) = sanitizeChannelName name := by
  unfold sanitizeChannelName
  by_cases hParts : channelParts name.toList = []
  · rw [if_pos hParts]
    decide
  · rw [if_neg hParts, String.toList_ofList,
      channelParts_intercalate hParts fun part h => channelParts_sane h, if_neg hParts]

theorem stripLog_log (name : String) : stripLog (name ++ ".log") = some name := by
  have hSuffix : ".log".toList <:+ (name ++ ".log").toList := ⟨name.toList, String.toList_append.symm⟩
  rw [stripLog, if_pos hSuffix, String.toList_append]
  simp

theorem stripLog_eq_some {name stem : String} (h : stripLog name = some stem) : name = stem ++ ".log" := by
  unfold stripLog at h
  split at h
  · rename_i hSuffix
    obtain ⟨front, hFront⟩ := hSuffix
    rw [← hFront] at h
    have hStem : stem = String.ofList front := by simpa using (Option.some.inj h).symm
    rw [← String.toList_inj, ← hFront, hStem]
    simp
  · cases h

theorem digit_of_mem_toString {n : Nat} {c : Char} (h : c ∈ (toString n).toList) : c.isDigit := by
  rw [show toString n = n.repr from rfl, Nat.toList_repr] at h
  exact Nat.isDigit_of_mem_toDigits (by decide) (by decide) h

theorem stripLog_rotated (name : String) (n : Nat) : stripLog (name ++ "." ++ toString n) = none := by
  refine if_neg fun hSuffix => ?_
  have hSome : (toString n).toList ≠ [] := by
    rw [show toString n = n.repr from rfl, Nat.toList_repr]
    exact Nat.toDigits_ne_nil
  have hLast := List.getLast_mem hSome
  obtain ⟨front, hFront⟩ := hSuffix
  have hEnd := congrArg List.getLast? hFront
  rw [String.toList_append, List.getLast?_append_of_ne_nil _ hSome, List.getLast?_eq_some_getLast hSome] at hEnd
  have hG : (toString n).toList.getLast hSome = 'g' := Option.some.inj (hEnd.symm.trans (by simp))
  rw [hG] at hLast
  exact absurd (digit_of_mem_toString hLast) (by decide)

theorem rotated_name {name name' : String} {i j : Nat}
    (h : name ++ "." ++ toString i = name' ++ "." ++ toString j) : name = name' := by
  have hCut (front : String) (n : Nat) :
      (front ++ "." ++ toString n).toList.reverse.dropWhile Char.isDigit = '.' :: front.toList.reverse := by
    have hText : (front ++ "." ++ toString n).toList.reverse =
        (toString n).toList.reverse ++ '.' :: front.toList.reverse := by simp
    have hDigits : ∀ c ∈ (toString n).toList.reverse, c.isDigit := fun c hc =>
      digit_of_mem_toString (List.mem_reverse.mp hc)
    rw [hText, List.dropWhile_append_of_pos hDigits, List.dropWhile_cons_of_neg (by decide)]
  have hFronts := hCut name i
  rw [h, hCut name' j] at hFronts
  exact String.toList_inj.mp (List.reverse_injective (List.cons.inj hFronts).2).symm

theorem rotatedPath_base {p q : Location} (hp : p ≠ []) (hq : q ≠ []) {i j : Nat}
    (h : rotatedPath p i = rotatedPath q j) : p = q := by
  obtain ⟨dir, name, rfl⟩ := List.eq_nil_or_concat p |>.resolve_left hp
  obtain ⟨dir', name', rfl⟩ := List.eq_nil_or_concat q |>.resolve_left hq
  obtain ⟨hDir, hName⟩ := List.append_inj' h rfl
  have hFronts := rotated_name (List.singleton_inj.mp hName)
  simp at hDir hFronts
  rw [hDir, hFronts]

/-- The files of a log: the live one, and the rotated ones. -/
def Family (base r : Location) : Prop := r = base ∨ ∃ i, r = rotatedPath base i

theorem Family.place (base : Location) (i : Nat) : Family base (place base i) := by
  cases i with
  | zero => exact .inl rfl
  | succ i => exact .inr ⟨i + 1, rfl⟩

theorem Family.live {base dir : Location} {name stem : String}
    (h : Family base (dir ++ [name])) (hName : stripLog name = some stem) : base = dir ++ [name] := by
  rcases h with h | ⟨i, h⟩
  · exact h.symm
  · obtain ⟨-, hLast⟩ := List.append_inj' h rfl
    rw [List.singleton_inj.mp hLast, stripLog_rotated] at hName
    cases hName

theorem Family.disjoint {dir dir' : Location} {name name' stem stem' : String}
    (hName : stripLog name = some stem) (hName' : stripLog name' = some stem') {r : Location}
    (h : Family (dir ++ [name]) r) (h' : Family (dir' ++ [name']) r) : dir ++ [name] = dir' ++ [name'] := by
  rcases h with rfl | ⟨i, rfl⟩
  · exact (h'.live hName).symm
  · rcases h' with h' | ⟨j, h'⟩
    · exact Family.live (.inr ⟨i, h'.symm⟩) hName'
    · exact rotatedPath_base (by simp) (by simp) h'

/-- One step of a path, which an extension's id is meant to be. -/
structure OneStep (extId : String) : Prop where
  free : '/' ∉ extId.toList
  some : extId ≠ ""
  stays : extId ≠ "."

theorem join_oneStep {extId : String} (h : OneStep extId) (root : Files.Path) :
    join root extId = root ++ [extId] := by
  have hHead : extId.toList.head? ≠ some '/' := fun hHead => h.free (List.mem_of_mem_head? hHead)
  rw [join, if_neg hHead, components, List.splitOn_eq_singleton h.free]
  simp [h.some, h.stays]

namespace LogKind

def extId? : LogKind → Option String
  | .platform => none
  | .extensionHost => none
  | .extensionStderr extId => some extId
  | .extensionStdout extId => some extId
  | .extensionChannel extId _ => some extId

/-- The id of the extension is one directory. -/
def Plain (k : LogKind) : Prop := ∀ extId ∈ k.extId?, OneStep extId

theorem plain_of {k : LogKind} {extId : String} (hk : k.extId? = some extId) (h : OneStep extId) : k.Plain := by
  intro e he
  rw [hk] at he
  exact Option.some.inj he ▸ h

/-- The kind, by the file it is written to. -/
def sink : LogKind → LogKind
  | .extensionChannel extId channel => .extensionChannel extId (sanitizeChannelName channel)
  | k => k

end LogKind

namespace LogManager

variable {m : LogManager}

@[simp] theorem resolvePath_sink (k : LogKind) : m.resolvePath k.sink = m.resolvePath k := by
  cases k with
  | extensionChannel extId channel => simp [LogKind.sink, resolvePath, sanitizeChannelName_idempotent]
  | _ => rfl

theorem resolvePath_shape (k : LogKind) :
    ∃ dir name stem, m.resolvePath k = dir ++ [name] ∧ stripLog name = some stem := by
  cases k with
  | platform => exact ⟨_, _, "platform", rfl, by decide⟩
  | extensionHost => exact ⟨_, _, "extension-host", rfl, by decide⟩
  | extensionStderr extId => exact ⟨_, _, "host", rfl, by decide⟩
  | extensionStdout extId => exact ⟨_, _, "output", rfl, by decide⟩
  | extensionChannel extId channel => exact ⟨_, _, _, rfl, stripLog_log _⟩

theorem resolvePath_disjoint {k k' : LogKind} {r : Location} (h : Family (m.resolvePath k) r)
    (h' : Family (m.resolvePath k') r) : m.resolvePath k = m.resolvePath k' := by
  obtain ⟨dir, name, stem, hPath, hName⟩ := m.resolvePath_shape k
  obtain ⟨dir', name', stem', hPath', hName'⟩ := m.resolvePath_shape k'
  rw [hPath] at h ⊢
  rw [hPath'] at h' ⊢
  exact Family.disjoint hName hName' h h'

def tail : LogKind → Location
  | .platform => ["platform.log"]
  | .extensionHost => ["extension-host.log"]
  | .extensionStderr extId => ["extensions", extId, "host.log"]
  | .extensionStdout extId => ["extensions", extId, "output.log"]
  | .extensionChannel extId channel => ["extensions", extId, "channels", sanitizeChannelName channel ++ ".log"]

theorem resolvePath_eq {k : LogKind} (h : k.Plain) : m.resolvePath k = m.sessionDir ++ tail k := by
  have hDir {extId : String} (hPlain : OneStep extId) :
      m.extDir extId = m.sessionDir ++ ["extensions", extId] := by
    rw [extDir, join_oneStep hPlain, List.append_assoc]
    rfl
  cases k with
  | platform => rfl
  | extensionHost => rfl
  | extensionStderr extId =>
    rw [resolvePath, hDir (h extId rfl), List.append_assoc]
    rfl
  | extensionStdout extId =>
    rw [resolvePath, hDir (h extId rfl), List.append_assoc]
    rfl
  | extensionChannel extId channel =>
    rw [resolvePath, channelsDir, hDir (h extId rfl), List.append_assoc, List.append_assoc]
    rfl

theorem tail_injective {k k' : LogKind} (h : tail k = tail k') : k.sink = k'.sink := by
  cases k <;> cases k' <;> simp [tail] at h <;> simp [LogKind.sink, h]

theorem resolvePath_injective {k k' : LogKind} (hk : k.Plain) (hk' : k'.Plain)
    (h : m.resolvePath k = m.resolvePath k') : k.sink = k'.sink := by
  rw [resolvePath_eq hk, resolvePath_eq hk'] at h
  exact tail_injective (List.append_cancel_left h)

/-- The lines that were written to a file. -/
def linesTo (m : LogManager) (writes : List (LogKind × String)) (p : Location) : List String :=
  (writes.filter fun e => m.resolvePath e.1 = p).map (·.2)

def run (m : LogManager) (s : LogState) (writes : List (LogKind × String)) : LogState :=
  writes.foldl (fun s e => m.writeLine s e.1 e.2) s

/-- What the files of a log hold, once it has been written. -/
structure Logged (m : LogManager) (lines : List String) (s : LogState) (p : Location) (w : LogWriter) : Prop where
  found : s.writers.lookup p = some w
  path : w.path = p
  config : w.config = m.config
  written : lines ≠ []
  kept : ∃ lost kept, w.Keeps s.files kept ∧
    lines.map LogWriter.lineBytes = lost ++ kept.reverse.flatten ∧
    ((lines.map LogWriter.lineBytes).flatten.length < m.config.maxFileSize.toNat →
      kept = [lines.map LogWriter.lineBytes])

/-- Nothing is known of a log, and there is none of its files. -/
structure Unwritten (lines : List String) (s : LogState) (p : Location) : Prop where
  none : s.writers.lookup p = none
  lines : lines = []
  absent : ∀ i, s.files.read (place p i) = Option.none

/-- What the files hold after these writes. -/
structure Runs (m : LogManager) (writes : List (LogKind × String)) (s : LogState) : Prop where
  logs : ∀ k : LogKind, k.Plain → Unwritten (m.linesTo writes (m.resolvePath k)) s (m.resolvePath k) ∨
    ∃ w, Logged m (m.linesTo writes (m.resolvePath k)) s (m.resolvePath k) w
  files : ∀ r, m.sessionDir <+: r → s.files.read r ≠ none →
    ∃ e ∈ writes, Family (m.resolvePath e.1) r

theorem linesTo_concat (writes : List (LogKind × String)) (k : LogKind) (line : String) (p : Location) :
    m.linesTo (writes ++ [(k, line)]) p =
      m.linesTo writes p ++ if m.resolvePath k = p then [line] else [] := by
  unfold linesTo
  rw [List.filter_append, List.map_append]
  by_cases hp : m.resolvePath k = p <;> simp [hp]

theorem family_cases {p r : Location} (h : ¬Family p r) : r ≠ p ∧ ∀ i, r ≠ rotatedPath p i :=
  ⟨fun hr => h (.inl hr), fun i hr => h (.inr ⟨i, hr⟩)⟩

theorem writer_spec {writes : List (LogKind × String)} {s : LogState} (h : Runs m writes s) {k : LogKind}
    (hk : k.Plain) :
    (m.writer k s).1.path = m.resolvePath k ∧ (m.writer k s).1.config = m.config ∧
    (∃ lost kept, (m.writer k s).1.Keeps (m.writer k s).2.files kept ∧
      (m.linesTo writes (m.resolvePath k)).map LogWriter.lineBytes = lost ++ kept.reverse.flatten ∧
      (((m.linesTo writes (m.resolvePath k)).map LogWriter.lineBytes).flatten.length <
          m.config.maxFileSize.toNat →
        kept = [(m.linesTo writes (m.resolvePath k)).map LogWriter.lineBytes])) ∧
    (∀ q, q ≠ m.resolvePath k → (m.writer k s).2.writers.lookup q = s.writers.lookup q) ∧
    ∀ r, r ≠ m.resolvePath k → (m.writer k s).2.files.names.lookup r = s.files.names.lookup r ∧
      (m.writer k s).2.files.read r = s.files.read r := by
  unfold writer
  rcases h.logs k hk with hNew | ⟨w, hLogged⟩
  · rw [hNew.none]
    have hRead (i : Nat) : s.files.read (place (m.resolvePath k) i) =
        (([] : List (List (List UInt8)))[i]?).map List.flatten := hNew.absent i
    have hKeeps := @LogWriter.openLog_keeps _ m.config _ _ (Nat.zero_le _) hRead
    refine ⟨rfl, rfl, ⟨[], _, hKeeps, by simp [hNew.lines], fun _ => by simp [hNew.lines]⟩,
      fun q hq => AList.lookup_insert_ne hq, fun r hr => ⟨Volume.lookup_openFile_ne hr, ?_⟩⟩
    exact Volume.read_openFile.trans (if_neg hr)
  · rw [hLogged.found]
    exact ⟨hLogged.path, hLogged.config, hLogged.kept, fun _ _ => rfl, fun _ _ => ⟨rfl, rfl⟩⟩

theorem Runs.write {writes : List (LogKind × String)} {s : LogState} (h : Runs m writes s) {k : LogKind}
    (hk : k.Plain) (line : String) : Runs m (writes ++ [(k, line)]) (m.writeLine s k line) := by
  obtain ⟨hPath, hConfig, ⟨lost, kept, hKeeps, hLines, hSmall⟩, hWriters, hOpened⟩ := writer_spec h hk
  obtain ⟨hPath', hConfig', hFrame, kept', hNext, hKeeps'⟩ := hKeeps.write (LogWriter.lineBytes line)
  have hOther (r : Location) (hr : ¬Family (m.resolvePath k) r) :
      (m.writeLine s k line).files.names.lookup r = s.files.names.lookup r ∧
      (m.writeLine s k line).files.read r = s.files.read r := by
    obtain ⟨hLive, hRotated⟩ := family_cases hr
    rw [← hPath] at hLive hRotated
    have hOpened := hOpened r (hPath ▸ hLive)
    exact ⟨(LogWriter.lookup_writeBytes _ hLive hRotated).trans hOpened.1,
      (hFrame r hLive hRotated).trans hOpened.2⟩
  refine ⟨fun k' hk' => ?_, fun r hr hThere => ?_⟩
  · by_cases hSame : m.resolvePath k = m.resolvePath k'
    · obtain ⟨lost', hFollows⟩ := hNext.follows hKeeps.few
      refine .inr ⟨_, hSame ▸ AList.lookup_insert _, hPath'.trans (hPath.trans hSame), hConfig'.trans hConfig,
        by simp [linesTo_concat, hSame], lost ++ lost', kept', hKeeps', ?_, fun hSize => ?_⟩
      · rw [← hSame, linesTo_concat, if_pos rfl, List.map_append, hLines, List.append_assoc, List.append_assoc,
          ← hFollows.whole]
        rfl
      · rw [← hSame, linesTo_concat, if_pos rfl, List.map_append] at hSize ⊢
        have hBefore := hSmall (by
          rw [List.flatten_append, List.length_append] at hSize
          omega)
        rw [hBefore] at hNext
        cases hNext with
        | stays live rest => rfl
        | rotates live rest hFull =>
          rw [hConfig] at hFull
          exact absurd hFull (Nat.not_le.mpr hSize)
    · have hApart (r : Location) (hr : Family (m.resolvePath k') r) := hOther r fun hFamily =>
        hSame (resolvePath_disjoint hFamily hr)
      have hFound : (m.writeLine s k line).writers.lookup (m.resolvePath k') =
          s.writers.lookup (m.resolvePath k') :=
        (AList.lookup_insert_ne (Ne.symm hSame)).trans (hWriters _ (Ne.symm hSame))
      rw [linesTo_concat, if_neg hSame, List.append_nil]
      rcases h.logs k' hk' with hNew | ⟨w, hLogged⟩
      · exact .inl ⟨hFound.trans hNew.none, hNew.lines, fun i =>
          ((hApart _ (Family.place _ i)).2).trans (hNew.absent i)⟩
      · refine .inr ⟨w, hFound.trans hLogged.found, hLogged.path, hLogged.config, hLogged.written, ?_⟩
        obtain ⟨lost, kept, hKeeps, hRest⟩ := hLogged.kept
        refine ⟨lost, kept, ⟨?_, hKeeps.live, hKeeps.few, fun i => ?_⟩, hRest⟩
        · exact ((hApart _ (hLogged.path ▸ Family.place _ 0)).1).trans hKeeps.opens
        · exact ((hApart _ (hLogged.path ▸ Family.place _ i)).2).trans (hKeeps.read i)
  · by_cases hFamily : Family (m.resolvePath k) r
    · exact ⟨(k, line), by simp, hFamily⟩
    · obtain ⟨e, he, hIn⟩ := h.files r hr fun hNone => hThere ((hOther r hFamily).2.trans hNone)
      exact ⟨e, List.mem_append_left _ he, hIn⟩

theorem run_concat (m : LogManager) (s : LogState) (writes : List (LogKind × String)) (e : LogKind × String) :
    m.run s (writes ++ [e]) = m.writeLine (m.run s writes) e.1 e.2 := List.foldl_concat ..

/-- The state at the start of a session. -/
structure Fresh (m : LogManager) (s : LogState) : Prop where
  writers : s.writers = ∅
  files : ∀ r, m.sessionDir <+: r → s.files.read r = none

theorem session_place {k : LogKind} (h : k.Plain) (i : Nat) : m.sessionDir <+: place (m.resolvePath k) i := by
  obtain ⟨front, name, hTail⟩ : ∃ front name, tail k = front ++ [name] := by
    cases k with
    | platform => exact ⟨[], _, rfl⟩
    | extensionHost => exact ⟨[], _, rfl⟩
    | extensionStderr extId => exact ⟨["extensions", extId], _, rfl⟩
    | extensionStdout extId => exact ⟨["extensions", extId], _, rfl⟩
    | extensionChannel extId channel => exact ⟨["extensions", extId, "channels"], _, rfl⟩
  rw [resolvePath_eq h, hTail, ← List.append_assoc]
  cases i with
  | zero => exact ⟨_, (List.append_assoc _ _ _).symm⟩
  | succ i =>
    refine ⟨front ++ [name ++ "." ++ toString (i + 1)], ?_⟩
    simp [rotatedPath]

theorem run_runs {s : LogState} (h : m.Fresh s) {writes : List (LogKind × String)}
    (hPlain : ∀ e ∈ writes, e.1.Plain) : Runs m writes (m.run s writes) := by
  induction writes using List.reverseRecOn with
  | nil =>
    refine ⟨fun k hk => .inl ⟨?_, rfl, fun i => h.files _ (session_place hk i)⟩, fun r hr hThere =>
      absurd (h.files r hr) hThere⟩
    rw [run, List.foldl_nil, h.writers, AList.lookup_empty]
  | append_singleton writes e ih =>
    rw [run_concat]
    exact (ih fun e' he' => hPlain e' (List.mem_append_left _ he')).write
      (hPlain e (List.mem_append_right _ List.mem_cons_self)) e.2

def lineText (line : String) : List Char :=
  if line.toList.getLast? = some '\n' then line.toList else line.toList ++ ['\n']

def records (line : String) : List (List Char) := (Text.lines (lineText line)).filter (· ≠ [])

theorem lineBytes_eq (line : String) : LogWriter.lineBytes line = Utf8.encode (lineText line) := by
  unfold LogWriter.lineBytes lineText
  split <;> rfl

theorem lines_lineText (line : String) (rest : List Char) :
    Text.lines (lineText line ++ rest) = Text.lines (lineText line) ++ Text.lines rest := by
  have hEnded : ∃ front, lineText line = front ++ '\n' :: [] := by
    unfold lineText
    split
    · rename_i hLast
      exact ⟨_, (List.dropLast_append_getLast? _ hLast).symm⟩
    · exact ⟨_, rfl⟩
  obtain ⟨front, hFront⟩ := hEnded
  have hNil : Text.lines [] = [] := rfl
  rw [hFront, List.append_assoc, List.cons_append, Text.lines_between, Text.lines_between, hNil,
    List.append_nil, List.nil_append]

theorem lines_flatMap (lines : List String) :
    Text.lines (lines.flatMap lineText) = lines.flatMap fun line => Text.lines (lineText line) := by
  induction lines with
  | nil => rfl
  | cons line lines ih => rw [List.flatMap_cons, List.flatMap_cons, lines_lineText, ih]

theorem flatten_lineBytes (lines : List String) :
    (lines.map LogWriter.lineBytes).flatten = Utf8.encode (lines.flatMap lineText) := by
  induction lines with
  | nil => rfl
  | cons line lines ih =>
    rw [List.map_cons, List.flatten_cons, ih, lineBytes_eq, List.flatMap_cons, Utf8.encode_append]

section Reading

variable (parse : List Char → Option Value) {s : LogState} {writes : List (LogKind × String)}

/-- The entries that the lines make. -/
def entriesOf (source : String) (since : Option Nat) (lines : List String) : List LogEntry :=
  (lines.flatMap records).filterMap (entryOf parse source since)

theorem readOne_live {p : Location} {live : List String}
    (h : s.files.read p = some (live.map LogWriter.lineBytes).flatten) (source : String) (since : Option Nat) :
    readOne parse s p source since = entriesOf parse source since live := by
  have hText : (s.files.read p).bind Utf8.text? = some (live.flatMap lineText) := by
    rw [h, flatten_lineBytes]
    exact Utf8.text?_encode _
  rw [readOne, hText]
  simp only [entriesOf, lines_flatMap, List.filter_flatMap]
  rfl

theorem Runs.live (h : Runs m writes s) {k : LogKind} (hk : k.Plain) :
    ∃ live, live <:+ m.linesTo writes (m.resolvePath k) ∧
      (((m.linesTo writes (m.resolvePath k)).map LogWriter.lineBytes).flatten.length <
          m.config.maxFileSize.toNat → live = m.linesTo writes (m.resolvePath k)) ∧
      (m.linesTo writes (m.resolvePath k) ≠ [] → s.files.read (m.resolvePath k) ≠ none) ∧
      ∀ parse source since, readOne parse s (m.resolvePath k) source since = entriesOf parse source since live := by
  rcases h.logs k hk with hNew | ⟨w, hLogged⟩
  · have hNone : s.files.read (m.resolvePath k) = none := hNew.absent 0
    refine ⟨[], List.nil_suffix, fun _ => hNew.lines.symm, fun hSome => absurd hNew.lines hSome,
      fun parse source since => ?_⟩
    rw [readOne, hNone]
    rfl
  · obtain ⟨lost, kept, hKeeps, hLines, hSmall⟩ := hLogged.kept
    obtain ⟨newest, rest, rfl⟩ := List.exists_cons_of_ne_nil hKeeps.live
    have hRead : s.files.read (m.resolvePath k) = some newest.flatten := by
      have hPlace := hKeeps.read 0
      rwa [hLogged.path] at hPlace
    rw [List.reverse_cons, List.flatten_append, ← List.append_assoc, List.flatten_singleton] at hLines
    obtain ⟨before, live, hSplit, -, rfl⟩ := List.map_eq_append_iff.mp hLines
    refine ⟨live, ⟨before, hSplit.symm⟩, fun hSize => ?_, fun _ hNone => ?_, fun parse => readOne_live parse hRead⟩
    · have hNewest := (List.cons.inj (hSmall hSize)).1
      have hLength := congrArg List.length hNewest
      rw [hSplit, List.length_map, List.length_map, List.length_append] at hLength
      obtain rfl : before = [] := List.length_eq_zero_iff.mp (by omega)
      exact hSplit.symm
    · rw [hRead] at hNone
      cases hNone

/-- The channel has been written under some name. -/
def WrittenTo (writes : List (LogKind × String)) (extId id : String) : Prop :=
  ∃ channel line, (.extensionChannel extId channel, line) ∈ writes ∧ sanitizeChannelName channel = id

theorem WrittenTo.sane {extId id : String} (h : WrittenTo writes extId id) : sanitizeChannelName id = id := by
  obtain ⟨channel, -, -, rfl⟩ := h
  exact sanitizeChannelName_idempotent channel

theorem mem_stems {dir : Location} {id : String} :
    id ∈ (readDir s dir).filterMap stripLog ↔ s.files.read (dir ++ [id ++ ".log"]) ≠ none := by
  have hThere : s.files.read (dir ++ [id ++ ".log"]) ≠ none ↔ dir ++ [id ++ ".log"] ∈ s.files.names.keys := by
    rw [← AList.mem_keys, ← AList.lookup_isSome, Ne, Volume.read_eq_none, Bool.not_eq_false]
    rfl
  rw [hThere, List.mem_filterMap]
  constructor
  · rintro ⟨name, hName, hStem⟩
    obtain ⟨p, hp, hLast⟩ := List.mem_filterMap.mp hName
    split at hLast
    · rename_i hDir
      rw [← hDir, ← stripLog_eq_some hStem, List.dropLast_append_getLast? _ hLast]
      exact hp
    · cases hLast
  · intro hp
    refine ⟨_, List.mem_filterMap.mpr ⟨_, hp, ?_⟩, stripLog_log id⟩
    rw [if_pos List.dropLast_concat]
    simp

theorem nodup_stems (s : LogState) (dir : Location) : ((readDir s dir).filterMap stripLog).Nodup := by
  refine List.Nodup.filterMap (fun name name' stem h h' => ?_)
    (List.Nodup.filterMap (fun p p' name h h' => ?_) s.files.names.nodupKeys)
  · rw [stripLog_eq_some h, stripLog_eq_some h']
  · split at h
    · split at h'
      · rename_i hDir hDir'
        rw [← List.dropLast_append_getLast? _ h, ← List.dropLast_append_getLast? _ h', hDir, hDir']
      · cases h'
    · cases h

theorem namedChannels_perm (s : LogState) (extId : String) :
    (m.namedChannels s extId).Perm ((readDir s (m.channelsDir extId)).filterMap stripLog) := by
  have hPerm := List.mergeSort_perm ((readDir s (m.channelsDir extId)).filterMap stripLog)
    fun a b => decide (a ≤ b)
  rw [namedChannels, List.destutter_of_isChain _ _ (hPerm.nodup_iff.mpr (nodup_stems s _)).isChain]
  exact hPerm

theorem mem_namedChannels (h : Runs m writes s) (hPlain : ∀ e ∈ writes, e.1.Plain) {extId : String}
    (hExt : OneStep extId) (id : String) : id ∈ m.namedChannels s extId ↔ WrittenTo writes extId id := by
  have hDir : m.channelsDir extId = m.sessionDir ++ ["extensions", extId, "channels"] := by
    rw [channelsDir, extDir, join_oneStep hExt, List.append_assoc, List.append_assoc]
    rfl
  rw [(namedChannels_perm s extId).mem_iff, mem_stems]
  constructor
  · intro hThere
    obtain ⟨⟨k, line⟩, he, hFamily⟩ := h.files _ (by rw [hDir, List.append_assoc]; exact ⟨_, rfl⟩) hThere
    have hPath := hFamily.live (stripLog_log id)
    rw [resolvePath_eq (hPlain _ he), hDir, List.append_assoc] at hPath
    have hTail : tail k = ["extensions", extId, "channels", id ++ ".log"] := List.append_cancel_left hPath
    cases k with
    | extensionChannel extId' channel =>
      simp only [tail, List.cons.injEq, and_true, true_and] at hTail
      obtain ⟨rfl, hName⟩ := hTail
      refine ⟨channel, line, he, ?_⟩
      have hStems := congrArg stripLog hName
      rw [stripLog_log, stripLog_log] at hStems
      exact Option.some.inj hStems
    | _ => simp [tail] at hTail
  · rintro ⟨channel, line, he, rfl⟩
    obtain ⟨-, -, -, hThere, -⟩ := h.live (hPlain _ he)
    refine hThere fun hNone => ?_
    have hLine : line ∈ m.linesTo writes (m.resolvePath (.extensionChannel extId channel)) :=
      List.mem_map.mpr ⟨_, List.mem_filter.mpr ⟨he, by simp⟩, rfl⟩
    rw [hNone] at hLine
    cases hLine

theorem channelFile_channel {extId id : String} (hSane : sanitizeChannelName id = id) (hOut : id ≠ "stdout")
    (hErr : id ≠ "stderr") (name : String) (hName : sanitizeChannelName name = id) :
    m.channelFile extId id = m.resolvePath (.extensionChannel extId name) := by
  unfold channelFile
  split
  · exact absurd rfl hOut
  · exact absurd rfl hErr
  · rw [resolvePath, hSane, hName]

def linesOf (writes : List (LogKind × String)) (k : LogKind) : List String :=
  (writes.filter fun e => e.1.sink = k.sink).map (·.2)

theorem linesTo_eq (hPlain : ∀ e ∈ writes, e.1.Plain) {k : LogKind} (hk : k.Plain) :
    m.linesTo writes (m.resolvePath k) = linesOf writes k := by
  unfold linesTo linesOf
  refine congrArg _ (List.filter_congr fun e he => decide_eq_decide.mpr ⟨fun h => ?_, fun h => ?_⟩)
  · exact resolvePath_injective (hPlain e he) hk h
  · rw [← resolvePath_sink e.1, h, resolvePath_sink]

theorem byTime_perm (entries : List LogEntry) : (byTime entries).Perm entries := List.mergeSort_perm _ _

/-- How many entries are read. -/
def capOf (limit : Option Nat) : Nat := min (limit.getD readLineCap) readLineCap

theorem readChannel_other {extId id : String} (hAll : id ≠ "all") (hConsole : id ≠ "console")
    (since limit : Option Nat) : (m.readChannel parse s extId id since limit).entries =
      (readOne parse s (m.channelFile extId id) id since).rtake (capOf limit) := by
  unfold readChannel
  split
  · exact absurd rfl hAll
  · exact absurd rfl hConsole
  · rfl

/-- After any writes of a session, sinks of their own have files of their own, each channel is listed under
its safe name, and is read from its live file, which holds the end of its lines; and the view of all
channels has the lines of each live file once. -/
theorem channels_found (m : LogManager) {s : LogState} (hFresh : m.Fresh s)
    (writes : List (LogKind × String)) (hPlain : ∀ e ∈ writes, e.1.Plain) :
    (∀ k k' : LogKind, k.Plain → k'.Plain → ∀ i j,
      place (m.resolvePath k) i = place (m.resolvePath k') j → k.sink = k'.sink) ∧
    ∃ live : LogKind → List String,
      (∀ k : LogKind, k.Plain → live k <:+ linesOf writes k ∧
        (((linesOf writes k).map LogWriter.lineBytes).flatten.length < m.config.maxFileSize.toNat →
          live k = linesOf writes k)) ∧
      (∀ extId, OneStep extId → ∀ id,
        ⟨id, id, "channel"⟩ ∈ m.channels (m.run s writes) extId ↔ WrittenTo writes extId id) ∧
      (∀ extId, OneStep extId → ∀ id, sanitizeChannelName id = id →
        id ∉ ["all", "console", "stdout", "stderr"] → ∀ since limit,
        (m.readChannel parse (m.run s writes) extId id since limit).entries =
          (entriesOf parse id since (live (.extensionChannel extId id))).rtake (capOf limit)) ∧
      (∀ extId, OneStep extId →
        ¬WrittenTo writes extId "stdout" → ¬WrittenTo writes extId "stderr" → ∀ since limit,
        ∃ ids : List String, ids.Nodup ∧ (∀ id, id ∈ ids ↔ WrittenTo writes extId id) ∧
        ∃ merged : List LogEntry, merged.Perm (entriesOf parse "stdout" since (live (.extensionStdout extId)) ++
            entriesOf parse "stderr" since (live (.extensionStderr extId)) ++
            ids.flatMap fun id => entriesOf parse id since (live (.extensionChannel extId id))) ∧
          (m.readChannel parse (m.run s writes) extId "all" since limit).entries =
            merged.rtake (capOf limit)) := by
  have hRuns := run_runs hFresh hPlain
  choose! live hSuffix hSmall hThere hRead using fun k (hk : LogKind.Plain k) => hRuns.live hk
  refine ⟨fun k k' hk hk' i j hPlace => ?_, live, fun k hk => ?_, fun extId hExt id => ?_,
    fun extId hExt id hSane hFree since limit => ?_, fun extId hExt hOut hErr since limit => ?_⟩
  · have hFamily : Family (m.resolvePath k') (place (m.resolvePath k) i) := hPlace ▸ Family.place _ j
    exact resolvePath_injective hk hk' (resolvePath_disjoint (Family.place _ i) hFamily)
  · rw [← linesTo_eq (m := m) hPlain hk]
    exact ⟨hSuffix k hk, hSmall k hk⟩
  · rw [← mem_namedChannels hRuns hPlain hExt]
    simp [channels]
  · simp only [List.mem_cons, List.not_mem_nil, or_false, not_or] at hFree
    obtain ⟨hAll, hConsole, hOut, hErr⟩ := hFree
    rw [readChannel_other parse hAll hConsole, channelFile_channel hSane hOut hErr id hSane,
      hRead _ (LogKind.plain_of rfl hExt)]
  · refine ⟨m.namedChannels (m.run s writes) extId, (namedChannels_perm _ extId).nodup_iff.mpr (nodup_stems _ _),
      mem_namedChannels hRuns hPlain hExt, _, ?_, rfl⟩
    refine (byTime_perm _).trans (List.Perm.of_eq ?_)
    have hStdout := hRead (.extensionStdout extId) (LogKind.plain_of rfl hExt) parse "stdout" since
    have hStderr := hRead (.extensionStderr extId) (LogKind.plain_of rfl hExt) parse "stderr" since
    refine congrArg₂ _ (congrArg₂ _ hStdout hStderr) (List.flatMap_congr fun id hId => ?_)
    have hWritten := (mem_namedChannels hRuns hPlain hExt id).mp hId
    have hNotOut : id ≠ "stdout" := by
      rintro rfl
      exact hOut hWritten
    have hNotErr : id ≠ "stderr" := by
      rintro rfl
      exact hErr hWritten
    rw [channelFile_channel hWritten.sane hNotOut hNotErr id hWritten.sane,
      hRead _ (LogKind.plain_of rfl hExt)]

end Reading

theorem length_entries_le (parse : List Char → Option Value) (s : LogState) (extId id : String)
    (since limit : Option Nat) : (m.readChannel parse s extId id since limit).entries.length ≤ readLineCap := by
  have hCap : min (limit.getD readLineCap) readLineCap ≤ readLineCap := min_le_right _ _
  unfold readChannel
  rw [List.length_drop]
  omega

def session (config : LogConfig) : LogManager := ⟨["logs"], "session", config⟩

def fresh : LogState := ⟨∅, Volume.empty _⟩

theorem fresh_session (config : LogConfig) : (session config).Fresh fresh := ⟨rfl, fun _ _ => Volume.read_empty⟩

theorem oneStep_build : OneStep "alice.build" := ⟨by decide, by decide, by decide⟩

def buildWrites : List (LogKind × String) :=
  [(.extensionChannel "alice.build" "Build Log", "one"), (.extensionStderr "alice.build", "warning"),
    (.extensionChannel "alice.build" "tests", "passed"), (.extensionChannel "alice.build" "build-log", "two")]

/-- Two channels, one of them under two names, beside what the extension writes on its own. -/
theorem channels_found_build :
    (∀ id ∈ ["build-log", "tests"], ⟨id, id, "channel"⟩ ∈
      (session {}).channels ((session {}).run fresh buildWrites) "alice.build") ∧
    ((session {}).readChannel (fun _ => none) ((session {}).run fresh buildWrites) "alice.build" "build-log"
      none none).entries = entriesOf (fun _ => none) "build-log" none ["one", "two"] := by
  have hPlain : ∀ e ∈ buildWrites, e.1.Plain := by
    simp only [buildWrites, List.forall_mem_cons]
    exact ⟨LogKind.plain_of rfl oneStep_build, LogKind.plain_of rfl oneStep_build,
      LogKind.plain_of rfl oneStep_build, LogKind.plain_of rfl oneStep_build, fun e he => nomatch he⟩
  obtain ⟨-, live, hLive, hListed, hRead, -⟩ :=
    channels_found (fun _ => none) (session {}) (fresh_session {}) _ hPlain
  refine ⟨fun id hId => (hListed "alice.build" oneStep_build id).mpr ?_, ?_⟩
  · simp only [List.mem_cons, List.not_mem_nil, or_false] at hId
    rcases hId with rfl | rfl
    · exact ⟨"Build Log", "one", by simp [buildWrites], by decide⟩
    · exact ⟨"tests", "passed", by simp [buildWrites], by decide⟩
  · rw [hRead "alice.build" oneStep_build "build-log" (by decide) (by decide),
      (hLive _ (LogKind.plain_of rfl oneStep_build)).2 (by decide)]
    rfl

/-- Names that differ share a file; a channel that is called as a source is read from that; what has been
rotated is not read, nor is more than the last lines. -/
theorem channels_lost :
    (session {}).resolvePath (.extensionChannel "alice.build" "Build Log") =
      (session {}).resolvePath (.extensionChannel "alice.build" "build-log") ∧
    ((session {}).readChannel (fun _ => none)
      ((session {}).run fresh [(.extensionChannel "alice.build" "stdout", "one")])
      "alice.build" "stdout" none none).entries = [] ∧
    ((session ⟨4, 1⟩).readChannel (fun _ => none)
      ((session ⟨4, 1⟩).run fresh [(.extensionChannel "alice.build" "log", "one")])
      "alice.build" "log" none none).entries = [] ∧
    ((session {}).readChannel (fun _ => none)
      ((session {}).run fresh (List.replicate 5001 (.extensionChannel "alice.build" "log", "one")))
      "alice.build" "log" none none).entries.length < 5001 := by
  refine ⟨by decide, by decide, by decide, ?_⟩
  exact Nat.lt_succ_of_le (length_entries_le _ _ _ _ _ _)

end LogManager

end Cronymax.Extensions
