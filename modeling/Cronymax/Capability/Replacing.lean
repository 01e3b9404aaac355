import Mathlib.Logic.Relation
import Cronymax.Capability.ContextDiff

/-! Replacements in the files of a host, any number of them at once, each of which may be told that the
host has failed.  A replacement writes to a sibling whose name it has from the file, and renames it.  It
replaces the only place of the pattern, and nothing else happens to its file, exactly if no two places are
taken for one and no sibling is in use. -/

namespace Cronymax.Capability

open Atomic Relation
open Text (OccursAt OccursOnce)

section Count

variable {pat text : List Char}

theorem scan_skip (skip : Nat) : scan pat skip text = scan pat 0 (text.drop skip) := by
  induction text generalizing skip with
  | nil => cases skip <;> simp [scan]
  | cons c text ih =>
    cases skip with
    | zero => rfl
    | succ skip => rw [scan, ih, List.drop_succ_cons]

theorem scan_here (hPat : pat ≠ []) (h : pat <+: text) :
    scan pat 0 text = scan pat 0 (text.drop pat.length) + 1 := by
  obtain ⟨n, hn⟩ : ∃ n, pat.length = n + 1 :=
    Nat.exists_eq_succ_of_ne_zero fun hZero => hPat (List.eq_nil_of_length_eq_zero hZero)
  cases text with
  | nil => exact absurd (List.prefix_nil.mp h) hPat
  | cons c text => rw [scan, if_pos h, hn, Nat.add_sub_cancel, scan_skip, List.drop_succ_cons]

theorem scan_eq_zero (hPat : pat ≠ []) : scan pat 0 text = 0 ↔ ∀ k, ¬OccursAt pat text k := by
  induction text with
  | nil =>
    refine iff_of_true rfl fun k hk => hPat (List.eq_nil_of_length_eq_zero ?_)
    have := hk.le
    simp only [List.length_nil] at this
    omega
  | cons c text ih =>
    by_cases hHere : pat <+: c :: text
    · rw [scan_here hPat hHere]
      exact iff_of_false (by omega) fun h => h 0 (Text.occursAt_zero.mpr hHere)
    · rw [scan, if_neg hHere, ih]
      constructor
      · intro h k hk
        cases k with
        | zero => exact hHere (Text.occursAt_zero.mp hk)
        | succ k => exact h k (Text.occursAt_cons_succ.mp hk)
      · exact fun h k hk => h (k + 1) (Text.occursAt_cons_succ.mpr hk)

theorem occursAt_drop {n k : Nat} (h : n ≤ text.length) :
    OccursAt pat (text.drop n) k ↔ OccursAt pat text (n + k) := by
  rw [Text.occursAt_iff, Text.occursAt_iff, List.drop_drop, List.length_drop]
  exact and_congr_left fun _ => by omega

theorem scan_eq_one (hPat : pat ≠ []) : scan pat 0 text = 1 ↔
    ∃ k, OccursAt pat text k ∧ ∀ k', OccursAt pat text k' → k ≤ k' ∧ k' < k + pat.length := by
  have hPos := List.length_pos_of_ne_nil hPat
  induction text with
  | nil =>
    refine iff_of_false (by simp [scan]) fun ⟨k, hk, _⟩ => ?_
    have := hk.le
    simp only [List.length_nil] at this
    omega
  | cons c text ih =>
    by_cases hHere : pat <+: c :: text
    · have hZero := Text.occursAt_zero.mpr hHere
      rw [scan_here hPat hHere, Nat.add_eq_right, scan_eq_zero hPat]
      simp only [occursAt_drop hHere.length_le]
      constructor
      · refine fun h => ⟨0, hZero, fun k' hk' => ⟨Nat.zero_le _, ?_⟩⟩
        by_contra hFar
        refine h (k' - pat.length) ?_
        rwa [show pat.length + (k' - pat.length) = k' by omega]
      · rintro ⟨k, hk, hAll⟩ k' hk'
        have := hAll 0 hZero
        have := hAll _ hk'
        omega
    · rw [scan, if_neg hHere]
      refine ih.trans ?_
      constructor
      · rintro ⟨k, hk, hAll⟩
        refine ⟨k + 1, Text.occursAt_cons_succ.mpr hk, fun k' hk' => ?_⟩
        cases k' with
        | zero => exact absurd (Text.occursAt_zero.mp hk') hHere
        | succ k' =>
          have := hAll k' (Text.occursAt_cons_succ.mp hk')
          omega
      · rintro ⟨k, hk, hAll⟩
        cases k with
        | zero => exact absurd (Text.occursAt_zero.mp hk) hHere
        | succ k =>
          refine ⟨k, Text.occursAt_cons_succ.mp hk, fun k' hk' => ?_⟩
          have := hAll (k' + 1) (Text.occursAt_cons_succ.mpr hk')
          omega

end Count

/-- The pattern or the text has something in it, and where the pattern stands in two places, it stands in
two that do not overlap. -/
structure Discernible (pat text : List Char) : Prop where
  nonempty : pat = [] → text ≠ []
  apart : ∀ k k', OccursAt pat text k → OccursAt pat text k' → k ≠ k' →
    ∃ j j', OccursAt pat text j ∧ OccursAt pat text j' ∧ j + pat.length ≤ j'

theorem not_once_nil {text : List Char} (h : text ≠ []) : ¬OccursOnce [] text := by
  intro hOnce
  have hPlace (k : Nat) (hk : k ≤ text.length) : OccursAt [] text k :=
    Text.occursAt_iff.mpr ⟨hk, List.nil_prefix⟩
  have := hOnce.eq (hPlace 0 (Nat.zero_le _)) (hPlace 1 (List.length_pos_of_ne_nil h))
  omega

theorem OccursOnce.nonempty {pat text : List Char} (hDiscernible : Discernible pat text)
    (h : OccursOnce pat text) : pat ≠ [] := by
  rintro rfl
  exact not_once_nil (hDiscernible.nonempty rfl) h

theorem countMatches_nil (text : String) : countMatches "" text = text.length + 1 := if_pos rfl

theorem countMatches_eq {pat : String} (h : pat.toList ≠ []) (text : String) :
    countMatches pat text = scan pat.toList 0 text.toList :=
  if_neg fun hNil => h (by rw [hNil]; rfl)

theorem countMatches_once {pat text : String} (h : Discernible pat.toList text.toList) :
    countMatches pat text = 1 ↔ OccursOnce pat.toList text.toList := by
  by_cases hNil : pat.toList = []
  · have hText := h.nonempty hNil
    obtain rfl : pat = "" := String.toList_injective hNil
    rw [countMatches_nil]
    refine iff_of_false (fun hOne => hText ?_) (not_once_nil hText)
    exact List.eq_nil_of_length_eq_zero (by rw [String.length_toList]; omega)
  · have hPos := List.length_pos_of_ne_nil hNil
    rw [countMatches_eq hNil, scan_eq_one hNil]
    constructor
    · rintro ⟨k, hk, hAll⟩
      refine ⟨k, hk, fun k' hk' => by_contra fun hNe => ?_⟩
      obtain ⟨j, j', hj, hj', hApart⟩ := h.apart k k' hk hk' (Ne.symm hNe)
      have := hAll j hj
      have := hAll j' hj'
      omega
    · rintro ⟨k, hk, hOnly⟩
      exact ⟨k, hk, fun k' hk' => by rw [hOnly k' hk']; omega⟩

theorem countMatches_blurred {pat text : String} (h : ¬Discernible pat.toList text.toList) :
    countMatches pat text = 1 ∧ ¬(pat.toList ≠ [] ∧ OccursOnce pat.toList text.toList) := by
  by_cases hNil : pat.toList = []
  · refine ⟨?_, fun hOnce => hOnce.1 hNil⟩
    obtain rfl : pat = "" := String.toList_injective hNil
    have hText : text.toList = [] := by
      by_contra hText
      refine h ⟨fun _ => hText, fun k k' hk hk' hNe => ?_⟩
      rcases Nat.lt_or_gt_of_ne hNe with hLt | hLt
      · exact ⟨k, k', hk, hk', by rw [hNil]; exact hLt.le⟩
      · exact ⟨k', k, hk', hk, by rw [hNil]; exact hLt.le⟩
    rw [countMatches_nil, ← String.length_toList, hText]
    rfl
  · have hTwo : ∃ k k', OccursAt pat.toList text.toList k ∧ OccursAt pat.toList text.toList k' ∧ k ≠ k' ∧
        ∀ j j', OccursAt pat.toList text.toList j → OccursAt pat.toList text.toList j' →
          j' < j + pat.toList.length := by
      by_contra hNone
      refine h ⟨fun hNil' => absurd hNil' hNil, fun k k' hk hk' hNe => by_contra fun hClose => hNone ?_⟩
      refine ⟨k, k', hk, hk', hNe, fun j j' hj hj' => by_contra fun hFar => hClose ?_⟩
      exact ⟨j, j', hj, hj', by omega⟩
    obtain ⟨k, k', hk, hk', hNe, hClose⟩ := hTwo
    refine ⟨?_, fun hOnce => hNe (hOnce.2.eq hk hk')⟩
    have hSome : ∃ j, OccursAt pat.toList text.toList j := ⟨k, hk⟩
    rw [countMatches_eq hNil, scan_eq_one hNil]
    exact ⟨Nat.find hSome, Nat.find_spec hSome, fun j hj =>
      ⟨Nat.find_min' hSome hj, hClose _ j (Nat.find_spec hSome) hj⟩⟩

/-- The contents of the files. -/
abbrev Files := PathBuf → Option (List UInt8)

/-- The host answers as these files say, and what becomes of them. -/
inductive Serves (faulty : Bool) (files : Files) : HostAct → Host → Files → Prop where
  | read {path : PathBuf} {h : Host} {text : String} (hFile : files path = some (Utf8.encode text.toList))
      (hText : h.text = .ok text) : Serves faulty files (.readToString path) h files
  | unread {path : PathBuf} {h : Host} {e : IoError}
      (hFile : faulty = true ∨ ∀ text : List Char, files path ≠ some (Utf8.encode text))
      (hText : h.text = .error e) : Serves faulty files (.readToString path) h files
  | write {path : PathBuf} {content : String} {h : Host} (hAck : h.ack = .ok ()) :
    Serves faulty files (.write path content) h
      (Function.update files path (some (Utf8.encode content.toList)))
  | unwritten {path : PathBuf} {content : String} {h : Host} {e : IoError} (hFaulty : faulty = true)
      (hAck : h.ack = .error e) (left : Option (List UInt8)) :
    Serves faulty files (.write path content) h (Function.update files path left)
  | rename {source target : PathBuf} {h : Host} {bytes : List UInt8} (hSource : files source = some bytes)
      (hAck : h.ack = .ok ()) : Serves faulty files (.rename source target) h
      (Function.update (Function.update files source none) target (some bytes))
  | unrenamed {source target : PathBuf} {h : Host} {e : IoError}
      (hSource : faulty = true ∨ files source = none) (hAck : h.ack = .error e) :
    Serves faulty files (.rename source target) h files

@[simp] theorem orFail_ok_bind {α β : Type} (a : α) (f : α → HostProg β) : (orFail (.ok a) >>= f) = f a :=
  rfl

@[simp] theorem orFail_error_bind {α β : Type} (e : IoError) (f : α → HostProg β) :
    (orFail (.error e) >>= f) = .fail e.text := rfl

/-- A call of `str_replace`. -/
structure Replacement where
  path : PathBuf
  oldStr : String
  newStr : String

namespace Replacement

variable (c : Replacement)

def prog : HostProg StrReplaceResult := LocalFilesystem.strReplace c.path c.oldStr c.newStr

/-- The temporary path of a call. -/
def tmp : PathBuf := c.path.withExtension LocalFilesystem.replaceExtension

/-- The content with the match replaced. -/
def newContent (content : String) : String :=
  String.ofList (replaceOnce c.oldStr.toList c.newStr.toList content.toList)

def answering (content : String) : HostProg StrReplaceResult :=
  LocalFilesystem.withDiff c.path
    (makeContextDiff c.path content (c.newContent content) c.oldStr c.newStr)

/-- What is left of a call before its rename. -/
def moving (content : String) : HostProg StrReplaceResult :=
  .act (.rename c.tmp c.path) fun h => orFail h.ack >>= fun _ => c.answering content

/-- What is left of a call before its write. -/
def writing (content : String) : HostProg StrReplaceResult :=
  .act (.write c.tmp (c.newContent content)) fun h => orFail h.ack >>= fun _ => c.moving content

/-- What is left of a call that has read the file. -/
def counting (content : String) : HostProg StrReplaceResult :=
  match countMatches c.oldStr content with
  | 0 => .fail ("str_replace: not_found — '" ++ truncateForError c.oldStr 80 ++
      "' does not appear in " ++ display c.path)
  | 1 => c.writing content
  | n => .fail ("str_replace: ambiguous — '" ++ truncateForError c.oldStr 80 ++ "' appears " ++
      toString n ++ " times in " ++ display c.path ++ "; use a more specific old_str")

theorem prog_eq : c.prog = .act (.readToString c.path) fun h => orFail h.text >>= c.counting := by
  rfl

variable {c} {content : String}

theorem counting_one (h : countMatches c.oldStr content = 1) : c.counting content = c.writing content := by
  simp only [counting, h]

theorem counting_other (h : countMatches c.oldStr content ≠ 1) : ∃ e, c.counting content = .fail e := by
  rw [counting]
  split
  · exact ⟨_, rfl⟩
  · exact absurd ‹_› h
  · exact ⟨_, rfl⟩

theorem answering_done (content : String) : ∃ r, c.answering content = .done r := by
  obtain ⟨hunk, hHunk, -⟩ := contextHunk_apply_iff content (c.newContent content) c.oldStr c.newStr
  rw [answering, makeContextDiff, hHunk]
  exact ⟨_, rfl⟩

end Replacement

theorem encode_injective {text text' : List Char} (h : Utf8.encode text = Utf8.encode text') :
    text = text' := by
  rw [← Utf8.lossy_encode text, h, Utf8.lossy_encode]

/-- What a replacement has done to a file once it has ended: the only place of the pattern is replaced, or
nothing is; and it fails only where there is no such place, or the host fails. -/
structure Sound (c : Replacement) (faulty : Bool) (before after : Option (List UInt8))
    (prog : HostProg StrReplaceResult) : Prop where
  replaced : ∀ r, prog = .done r → ∃ pre post,
    before = some (Utf8.encode (pre ++ c.oldStr.toList ++ post)) ∧ c.oldStr.toList ≠ [] ∧
      OccursOnce c.oldStr.toList (pre ++ c.oldStr.toList ++ post) ∧
      after = some (Utf8.encode (pre ++ c.newStr.toList ++ post))
  unchanged : ∀ e, prog = .fail e → after = before
  succeeds : ∀ e, prog = .fail e → faulty = false → ∀ text, before = some (Utf8.encode text) →
    ¬(c.oldStr.toList ≠ [] ∧ OccursOnce c.oldStr.toList text)

section System

variable {ι : Type} [DecidableEq ι]

/-- Calls of `str_replace` on these files, as far as they have come. -/
structure Running (ι : Type) where
  files : Files
  progs : ι → HostProg StrReplaceResult

/-- One of the replacements goes on. -/
inductive Running.Step (faulty : ι → Bool) (s : Running ι) : Running ι → Prop where
  | act {i : ι} {x : HostAct} {next : Host → HostProg StrReplaceResult} {h : Host} {files : Files}
      (hProg : s.progs i = .act x next) (hServes : Serves (faulty i) s.files x h files) :
      Step faulty s ⟨files, Function.update s.progs i (next h)⟩

variable (calls : ι → Replacement) (files : Files)

def begun : Running ι := ⟨files, fun i => (calls i).prog⟩

/-- In every run, however the replacements take turns and whichever of them the host fails, what has
become of each is right. -/
def ReplacesOnce : Prop := ∀ faulty s, ReflTransGen (Running.Step faulty) (begun calls files) s →
  ∀ i, Sound (calls i) (faulty i) (files (calls i).path) (s.files (calls i).path) (s.progs i)

/-- The pattern of the replacement stands in one place of its file. -/
def Matches (c : Replacement) : Prop :=
  ∃ text, files c.path = some (Utf8.encode text) ∧ OccursOnce c.oldStr.toList text

/-- No two places are taken for one, and the sibling of a replacement that is made is none of the files
and not the sibling of another. -/
structure Separate : Prop where
  discernible : ∀ i text, files (calls i).path = some (Utf8.encode text) →
    Discernible (calls i).oldStr.toList text
  siblings : ∀ i j, Matches files (calls i) → (calls i).tmp ≠ (calls j).path
  apart : ∀ i j, i ≠ j → Matches files (calls i) → Matches files (calls j) →
    (calls i).tmp ≠ (calls j).tmp

end System

/-- The replacement finds one match in its file. -/
def Replacement.Counted (c : Replacement) (before : Option (List UInt8)) (content : String) : Prop :=
  before = some (Utf8.encode content.toList) ∧ countMatches c.oldStr content = 1

/-- How far a call has come, and what it leaves of the file. -/
inductive Stage (c : Replacement) (faulty : Bool) (before : Option (List UInt8)) (files : Files) :
    HostProg StrReplaceResult → Prop where
  | begun (hFile : files c.path = before) : Stage c faulty before files c.prog
  | writing {content : String} (hCounted : c.Counted before content) (hFile : files c.path = before) :
    Stage c faulty before files (c.writing content)
  | moving {content : String} (hCounted : c.Counted before content) (hFile : files c.path = before)
      (hTmp : files c.tmp = some (Utf8.encode (c.newContent content).toList)) :
    Stage c faulty before files (c.moving content)
  | replaced {content : String} (hCounted : c.Counted before content)
      (hFile : files c.path = some (Utf8.encode (c.newContent content).toList)) (r : StrReplaceResult) :
    Stage c faulty before files (.done r)
  | failed (hFile : files c.path = before) (hReason : faulty = true ∨ ∀ content, ¬c.Counted before content)
      (e : String) : Stage c faulty before files (.fail e)

section Stages

variable {c : Replacement} {faulty : Bool} {before : Option (List UInt8)} {files files' : Files}
  {prog : HostProg StrReplaceResult} {next : Host → HostProg StrReplaceResult} {x : HostAct} {h : Host}

theorem Stage.frame (hStage : Stage c faulty before files prog) (hFile : files' c.path = files c.path)
    (hTmp : (∃ content, c.Counted before content) → files' c.tmp = files c.tmp) :
    Stage c faulty before files' prog := by
  cases hStage with
  | begun h => exact .begun (hFile.trans h)
  | writing hCounted h => exact .writing hCounted (hFile.trans h)
  | moving hCounted h hWritten => exact .moving hCounted (hFile.trans h) ((hTmp ⟨_, hCounted⟩).trans hWritten)
  | replaced hCounted h r => exact .replaced hCounted (hFile.trans h) r
  | failed h hReason e => exact .failed (hFile.trans h) hReason e

theorem Stage.step (hOwn : (∃ content, c.Counted before content) → c.tmp ≠ c.path)
    (hStage : Stage c faulty before files prog) (hProg : prog = .act x next)
    (hServes : Serves faulty files x h files') :
    Stage c faulty before files' (next h) ∧
      ∀ p, files' p ≠ files p → (∃ content, c.Counted before content) ∧ (p = c.tmp ∨ p = c.path) := by
  cases hStage with
  | begun hFile =>
    rw [c.prog_eq] at hProg
    cases hProg
    cases hServes with
    | read hRead hText =>
      refine ⟨?_, fun p hp => absurd rfl hp⟩
      rename_i content
      simp only [hText, orFail_ok_bind]
      by_cases hOne : countMatches c.oldStr content = 1
      · rw [Replacement.counting_one hOne]
        exact .writing ⟨hFile ▸ hRead, hOne⟩ hFile
      · obtain ⟨e, he⟩ := Replacement.counting_other hOne
        rw [he]
        refine .failed hFile (.inr fun content' hCounted => hOne ?_) e
        have hSame := Option.some.inj ((hFile ▸ hRead).symm.trans hCounted.1)
        rw [String.toList_injective (encode_injective hSame)]
        exact hCounted.2
    | unread hRead hText =>
      refine ⟨?_, fun p hp => absurd rfl hp⟩
      simp only [hText, orFail_error_bind]
      refine .failed hFile (hRead.imp_right fun hNone content hCounted => ?_) _
      exact hNone content.toList (hFile.trans hCounted.1)
  | @writing content hCounted hFile =>
    have hNe := hOwn ⟨content, hCounted⟩
    cases hProg
    cases hServes with
    | write hAck =>
      refine ⟨?_, fun p hp => ⟨⟨content, hCounted⟩, .inl ?_⟩⟩
      · simp only [hAck, orFail_ok_bind]
        refine .moving hCounted ?_ (Function.update_self _ _ _)
        rw [Function.update_of_ne hNe.symm, hFile]
      · by_contra hOther
        exact hp (Function.update_of_ne hOther _ _)
    | unwritten hFaulty hAck left =>
      refine ⟨?_, fun p hp => ⟨⟨content, hCounted⟩, .inl ?_⟩⟩
      · simp only [hAck, orFail_error_bind]
        refine .failed ?_ (.inl hFaulty) _
        rw [Function.update_of_ne hNe.symm, hFile]
      · by_contra hOther
        exact hp (Function.update_of_ne hOther _ _)
  | @moving content hCounted hFile hTmp =>
    cases hProg
    cases hServes with
    | rename hSource hAck =>
      refine ⟨?_, fun p hp => ⟨⟨content, hCounted⟩, ?_⟩⟩
      · obtain ⟨r, hr⟩ := c.answering_done content
        simp only [hAck, orFail_ok_bind, hr]
        refine .replaced hCounted ?_ r
        rw [Function.update_self, ← hSource, hTmp]
      · by_contra hOther
        obtain ⟨hTmp', hPath⟩ := not_or.mp hOther
        exact hp (by rw [Function.update_of_ne hPath, Function.update_of_ne hTmp'])
    | unrenamed hSource hAck =>
      refine ⟨?_, fun p hp => absurd rfl hp⟩
      simp only [hAck, orFail_error_bind]
      refine .failed hFile (.inl (hSource.resolve_right fun hGone => ?_)) _
      rw [hTmp] at hGone
      cases hGone
  | replaced hCounted hFile r => cases hProg
  | failed hFile hReason e => cases hProg

theorem Stage.sound (hDiscernible : ∀ text, before = some (Utf8.encode text) →
      Discernible c.oldStr.toList text) (hStage : Stage c faulty before files prog) :
    Sound c faulty before (files c.path) prog where
  replaced := by
    rintro r rfl
    cases hStage with
    | @replaced content hCounted hFile =>
      have hD := hDiscernible content.toList hCounted.1
      have hOnce := (countMatches_once hD).mp hCounted.2
      have hNonempty := OccursOnce.nonempty hD hOnce
      obtain ⟨k, ⟨pre, post, hContent, rfl⟩, hOnly⟩ := hOnce
      rw [hContent] at hOnly
      refine ⟨pre, post, by rw [hCounted.1, hContent], hNonempty,
        ⟨_, ⟨pre, post, rfl, rfl⟩, hOnly⟩, ?_⟩
      rw [hFile, Replacement.newContent, String.toList_ofList, hContent,
        replaceOnce_first _ fun k hk => (hOnly k hk).ge]
  unchanged := by
    rintro e rfl
    cases hStage with
    | failed hFile hReason => exact hFile
  succeeds := by
    rintro e rfl hSafe text hText ⟨hNonempty, hOnce⟩
    cases hStage with
    | failed hFile hReason =>
      rw [hSafe] at hReason
      refine hReason.resolve_left Bool.false_ne_true (String.ofList text) ⟨?_, ?_⟩
      · rw [hText, String.toList_ofList]
      · refine (countMatches_once ?_).mpr ?_
        · rw [String.toList_ofList]
          exact hDiscernible text hText
        · rwa [String.toList_ofList]

end Stages

section Runs

variable {ι : Type} {calls : ι → Replacement} {files : Files} {faulty : ι → Bool}
  {s s' : Running ι}

theorem Separate.matches (h : Separate calls files) {i : ι}
    (hCounted : ∃ content, (calls i).Counted (files (calls i).path) content) : Matches files (calls i) := by
  obtain ⟨content, hBefore, hOne⟩ := hCounted
  exact ⟨content.toList, hBefore, (countMatches_once (h.discernible i _ hBefore)).mp hOne⟩

variable [DecidableEq ι]

theorem Separate.step (h : Separate calls files) (hPaths : Function.Injective fun i => (calls i).path)
    (hStages : ∀ i, Stage (calls i) (faulty i) (files (calls i).path) s.files (s.progs i))
    (hStep : s.Step faulty s') :
    ∀ i, Stage (calls i) (faulty i) (files (calls i).path) s'.files (s'.progs i) := by
  obtain ⟨hProg, hServes⟩ := hStep
  rename_i i x next host files'
  obtain ⟨hStage, hTouched⟩ :=
    (hStages i).step (fun hCounted => h.siblings i i (h.matches hCounted)) hProg hServes
  intro j
  by_cases hSame : j = i
  · subst hSame
    simpa only [Function.update_self] using hStage
  · simp only [Function.update_of_ne hSame]
    refine (hStages j).frame ?_ fun hCounted => ?_
    · by_contra hChanged
      obtain ⟨hOther, hTmp | hPath⟩ := hTouched _ hChanged
      · exact h.siblings i j (h.matches hOther) hTmp.symm
      · exact hSame (hPaths hPath)
    · by_contra hChanged
      obtain ⟨hOther, hTmp | hPath⟩ := hTouched _ hChanged
      · exact h.apart j i hSame (h.matches hCounted) (h.matches hOther) hTmp
      · exact h.siblings j i (h.matches hCounted) hPath

theorem Separate.replacesOnce (h : Separate calls files)
    (hPaths : Function.Injective fun i => (calls i).path) : ReplacesOnce calls files := by
  intro faulty s hRun
  have hStages : ∀ i, Stage (calls i) (faulty i) (files (calls i).path) s.files (s.progs i) := by
    induction hRun with
    | refl => exact fun i => .begun rfl
    | tail _ hStep ih => exact h.step hPaths ih hStep
  exact fun i => (hStages i).sound (h.discernible i)

def replying (text : Except IoError String) (ack : Except IoError Unit) : Host :=
  ⟨ack, .ok [], text, true, .ok [], [], .ok none, 0, none⟩

def ioError : IoError := ⟨.other, "Input/output error"⟩

variable {f : ι → Bool} {i j : ι} {content : String}

theorem step_read (hProg : s.progs i = (calls i).prog)
    (hCounted : (calls i).Counted (s.files (calls i).path) content) :
    s.Step f ⟨s.files, Function.update s.progs i ((calls i).writing content)⟩ := by
  have hStep : s.Step f _ := Running.Step.act (hProg.trans (calls i).prog_eq)
    (.read (h := replying (.ok content) (.ok ())) hCounted.1 rfl)
  rw [← Replacement.counting_one hCounted.2]
  exact hStep

theorem step_write (hProg : s.progs i = (calls i).writing content) :
    s.Step f ⟨Function.update s.files (calls i).tmp
      (some (Utf8.encode ((calls i).newContent content).toList)),
      Function.update s.progs i ((calls i).moving content)⟩ :=
  Running.Step.act hProg (.write (h := replying (.ok "") (.ok ())) rfl)

theorem step_move {bytes : List UInt8} (hProg : s.progs i = (calls i).moving content)
    (hSource : s.files (calls i).tmp = some bytes) :
    ∃ r, s.Step f ⟨Function.update (Function.update s.files (calls i).tmp none) (calls i).path
      (some bytes), Function.update s.progs i (.done r)⟩ := by
  obtain ⟨r, hr⟩ := (calls i).answering_done content
  have hStep : s.Step f _ := Running.Step.act hProg
    (.rename (h := replying (.ok "") (.ok ())) hSource rfl)
  simp only [replying, orFail_ok_bind, hr] at hStep
  exact ⟨r, hStep⟩

theorem step_unread (hFaulty : f i = true) (hProg : s.progs i = (calls i).prog) :
    ∃ e, s.Step f ⟨s.files, Function.update s.progs i (.fail e)⟩ :=
  ⟨_, Running.Step.act (hProg.trans (calls i).prog_eq)
    (.unread (h := replying (.error ioError) (.ok ())) (.inl hFaulty) rfl)⟩

theorem step_unwritten (hFaulty : f i = true) (hProg : s.progs i = (calls i).writing content)
    (left : Option (List UInt8)) :
    ∃ e, s.Step f ⟨Function.update s.files (calls i).tmp left, Function.update s.progs i (.fail e)⟩ :=
  ⟨_, Running.Step.act hProg
    (.unwritten (h := replying (.ok "") (.error ioError)) hFaulty rfl left)⟩

theorem step_unmoved (hProg : s.progs i = (calls i).moving content)
    (hSource : s.files (calls i).tmp = none) :
    ∃ e, s.Step f ⟨s.files, Function.update s.progs i (.fail e)⟩ :=
  ⟨_, Running.Step.act hProg (.unrenamed (h := replying (.ok "") (.error ioError)) (.inr hSource) rfl)⟩

theorem read_write (hProg : s.progs i = (calls i).prog)
    (hCounted : (calls i).Counted (s.files (calls i).path) content) :
    ReflTransGen (Running.Step f) s
      ⟨Function.update s.files (calls i).tmp (some (Utf8.encode ((calls i).newContent content).toList)),
        Function.update s.progs i ((calls i).moving content)⟩ := by
  have hWrite := step_write (f := f) (i := i)
    (s := ⟨s.files, Function.update s.progs i ((calls i).writing content)⟩) (Function.update_self _ _ _)
  rw [Function.update_idem] at hWrite
  exact .tail (.single (step_read hProg hCounted)) hWrite

theorem counted_run (hCounted : (calls i).Counted (files (calls i).path) content) :
    ∃ s r, ReflTransGen (Running.Step fun _ => false) (begun calls files) s ∧ s.progs i = .done r := by
  have hWritten := read_write (s := begun calls files) (f := fun _ => false) rfl hCounted
  obtain ⟨r, hMove⟩ := step_move (f := fun _ => false) (i := i)
    (s := ⟨Function.update files (calls i).tmp (some (Utf8.encode ((calls i).newContent content).toList)),
      Function.update (begun calls files).progs i ((calls i).moving content)⟩)
    (Function.update_self _ _ _) (Function.update_self _ _ _)
  exact ⟨_, r, .tail hWritten hMove, Function.update_self _ _ _⟩

theorem sibling_run (hCounted : (calls i).Counted (files (calls i).path) content)
    (hSame : (calls i).tmp = (calls j).path) (left : Option (List UInt8)) :
    ∃ s e, ReflTransGen (Running.Step fun _ => true) (begun calls files) s ∧ s.progs j = .fail e ∧
      s.files (calls j).path = left := by
  by_cases hij : j = i
  · subst hij
    have hRead : (begun calls files).Step (fun _ => true) _ := step_read (i := j) rfl hCounted
    obtain ⟨e, hWrite⟩ := step_unwritten (f := fun _ => true) (i := j)
      (s := ⟨files, Function.update (begun calls files).progs j ((calls j).writing content)⟩) rfl
      (Function.update_self _ _ _) left
    refine ⟨_, e, .tail (.single hRead) hWrite, Function.update_self _ _ _, ?_⟩
    rw [← hSame]
    exact Function.update_self _ _ _
  · obtain ⟨e, hUnread⟩ := step_unread (f := fun _ => true) (i := j)
      (s := begun calls files) rfl rfl
    have hRead := step_read (f := fun _ => true) (i := i)
      (s := ⟨files, Function.update (begun calls files).progs j (.fail e)⟩)
      (Function.update_of_ne (Ne.symm hij) _ _) hCounted
    obtain ⟨e', hWrite⟩ := step_unwritten (f := fun _ => true) (i := i)
      (s := ⟨files, Function.update
        (Function.update (begun calls files).progs j (.fail e)) i ((calls i).writing content)⟩) rfl
      (Function.update_self _ _ _) left
    refine ⟨_, e, .tail (.tail (.single hUnread) hRead) hWrite, ?_, ?_⟩
    · simp only [Function.update_of_ne hij, Function.update_self]
    · rw [← hSame]
      exact Function.update_self _ _ _

theorem shared_run {content' : String} (hij : i ≠ j)
    (hi : (calls i).Counted (files (calls i).path) content)
    (hj : (calls j).Counted (files (calls j).path) content') (hSame : (calls i).tmp = (calls j).tmp)
    (hPath : (calls i).tmp ≠ (calls i).path) (hPath' : (calls i).tmp ≠ (calls j).path) :
    ∃ s e, ReflTransGen (Running.Step fun _ => false) (begun calls files) s ∧ s.progs j = .fail e := by
  let bytes := some (Utf8.encode ((calls i).newContent content).toList)
  let bytes' := some (Utf8.encode ((calls j).newContent content').toList)
  let first : Running ι := ⟨Function.update files (calls i).tmp bytes,
    Function.update (begun calls files).progs i ((calls i).moving content)⟩
  let second : Running ι := ⟨Function.update first.files (calls j).tmp bytes',
    Function.update first.progs j ((calls j).moving content')⟩
  have hFirst : ReflTransGen (Running.Step fun _ => false) (begun calls files) first := read_write rfl hi
  have hFile : first.files (calls j).path = files (calls j).path := Function.update_of_ne hPath'.symm _ _
  have hSecond : ReflTransGen (Running.Step fun _ => false) first second :=
    read_write (Function.update_of_ne hij.symm _ _) (by rwa [hFile])
  have hSource : second.files (calls i).tmp = bytes' := by
    rw [hSame]
    exact Function.update_self _ _ _
  have hMoving : second.progs i = (calls i).moving content :=
    (Function.update_of_ne hij _ _).trans (Function.update_self _ _ _)
  obtain ⟨r, hMove⟩ := step_move (f := fun _ => false) hMoving hSource
  let third : Running ι := ⟨Function.update (Function.update second.files (calls i).tmp none)
    (calls i).path bytes', Function.update second.progs i (.done r)⟩
  have hTaken : third.files (calls j).tmp = none := by
    rw [← hSame]
    exact (Function.update_of_ne hPath _ _).trans (Function.update_self _ _ _)
  have hWaiting : third.progs j = (calls j).moving content' :=
    (Function.update_of_ne hij.symm _ _).trans (Function.update_self _ _ _)
  obtain ⟨e, hGone⟩ := step_unmoved (f := fun _ => false) hWaiting hTaken
  exact ⟨_, e, .tail (.tail (hFirst.trans hSecond) hMove) hGone, Function.update_self _ _ _⟩

theorem counted_of_matches {c : Replacement} {files : Files}
    (hDiscernible : ∀ text, files c.path = some (Utf8.encode text) → Discernible c.oldStr.toList text)
    (h : Matches files c) : ∃ content, c.Counted (files c.path) content ∧ c.oldStr.toList ≠ [] ∧
      OccursOnce c.oldStr.toList content.toList := by
  obtain ⟨text, hText, hOnce⟩ := h
  have hD := hDiscernible text hText
  refine ⟨String.ofList text, ⟨by rw [hText, String.toList_ofList], ?_⟩, OccursOnce.nonempty hD hOnce, ?_⟩
  · refine (countMatches_once ?_).mpr ?_
    · rwa [String.toList_ofList]
    · rwa [String.toList_ofList]
  · rwa [String.toList_ofList]

theorem ReplacesOnce.separate (h : ReplacesOnce calls files) : Separate calls files := by
  have hDiscernible : ∀ i text, files (calls i).path = some (Utf8.encode text) →
      Discernible (calls i).oldStr.toList text := by
    intro i text hText
    by_contra hBlurred
    obtain ⟨hOne, hNot⟩ := countMatches_blurred
      (show ¬Discernible (calls i).oldStr.toList (String.ofList text).toList by
        rwa [String.toList_ofList])
    have hCounted : (calls i).Counted (files (calls i).path) (String.ofList text) :=
      ⟨by rw [hText, String.toList_ofList], hOne⟩
    obtain ⟨s, r, hRun, hDone⟩ := counted_run hCounted
    obtain ⟨pre, post, hBefore, hNonempty, hOnce, -⟩ := (h _ s hRun i).replaced r hDone
    rw [hText] at hBefore
    rw [String.toList_ofList, encode_injective (Option.some.inj hBefore)] at hNot
    exact hNot ⟨hNonempty, hOnce⟩
  have hSiblings : ∀ i j, Matches files (calls i) → (calls i).tmp ≠ (calls j).path := by
    intro i j hMatches hSame
    obtain ⟨content, hCounted, -⟩ := counted_of_matches (hDiscernible i) hMatches
    obtain ⟨left, hLeft⟩ : ∃ left, left ≠ files (calls j).path := exists_ne _
    obtain ⟨s, e, hRun, hFail, hFile⟩ := sibling_run hCounted hSame left
    exact hLeft (hFile.symm.trans ((h _ s hRun j).unchanged e hFail))
  refine ⟨hDiscernible, hSiblings, fun i j hij hi hj hSame => ?_⟩
  obtain ⟨content, hCounted, -⟩ := counted_of_matches (hDiscernible i) hi
  obtain ⟨content', hCounted', hOnce⟩ := counted_of_matches (hDiscernible j) hj
  obtain ⟨s, e, hRun, hFail⟩ :=
    shared_run hij hCounted hCounted' hSame (hSiblings i i hi) (hSiblings i j hi)
  exact (h _ s hRun j).succeeds e hFail rfl content'.toList hCounted'.1 hOnce

/-- Replacements of different files are right in every run exactly if their patterns are discernible and
their siblings apart. -/
theorem replacesOnce_iff (calls : ι → Replacement) (files : Files)
    (hPaths : Function.Injective fun i => (calls i).path) :
    ReplacesOnce calls files ↔ Separate calls files :=
  ⟨ReplacesOnce.separate, fun h => h.replacesOnce hPaths⟩

end Runs

section Examples

def twoCalls (oldStr : String) (i : Bool) : Replacement :=
  ⟨pathOf (cond i "/ws/b.txt" "/ws/a.txt"), oldStr, "b"⟩

def twoFiles (content : String) : Files :=
  Function.update (Function.update (fun _ => none) (pathOf "/ws/a.txt")
    (some (Utf8.encode content.toList))) (pathOf "/ws/b.txt") (some (Utf8.encode "xay".toList))

/-- Two places that overlap are taken for one. -/
theorem overlapping_replaced : ¬OccursOnce "aa".toList "aaa".toList ∧
    ¬ReplacesOnce (twoCalls "aa") (twoFiles "aaa") := by
  have hCounted : (twoCalls "aa" false).Counted (twoFiles "aaa" (twoCalls "aa" false).path) "aaa" :=
    ⟨by decide +kernel, by decide⟩
  refine ⟨by decide, fun h => ?_⟩
  obtain ⟨s, r, hRun, hDone⟩ := counted_run hCounted
  obtain ⟨pre, post, hBefore, -, hOnce, -⟩ := (h _ s hRun false).replaced r hDone
  rw [hCounted.1] at hBefore
  rw [← encode_injective (Option.some.inj hBefore)] at hOnce
  revert hOnce
  decide

theorem twoFiles_eq : ∀ i, twoFiles "ca" (twoCalls "a" i).path =
    some (Utf8.encode (cond i ['x', 'a', 'y'] ['c', 'a'])) := by
  decide +kernel

theorem twoFiles_once (i : Bool) :
    OccursOnce (twoCalls "a" i).oldStr.toList (cond i ['x', 'a', 'y'] ['c', 'a']) := by
  revert i
  decide

/-- Calls on two files whose temporary paths differ. -/
theorem two_replaced : ReplacesOnce (twoCalls "a") (twoFiles "ca") := by
  have hPaths : Function.Injective fun i => (twoCalls "a" i).path := by decide +kernel
  have hSiblings : ∀ i j, (twoCalls "a" i).tmp ≠ (twoCalls "a" j).path := by decide +kernel
  have hApart : ∀ i j, i ≠ j → (twoCalls "a" i).tmp ≠ (twoCalls "a" j).tmp := by decide +kernel
  refine (replacesOnce_iff (twoCalls "a") (twoFiles "ca") hPaths).mpr
    ⟨fun i text hText => ?_, fun i j _ => hSiblings i j, fun i j hij _ _ => hApart i j hij⟩
  rw [twoFiles_eq] at hText
  obtain rfl := encode_injective (Option.some.inj hText)
  have hOnce := twoFiles_once i
  have hSome : (twoCalls "a" i).oldStr.toList ≠ [] := by
    revert i
    decide
  exact ⟨fun hNil => absurd hNil hSome, fun k k' hk hk' hNe => absurd (hOnce.eq hk hk') hNe⟩

end Examples

end Cronymax.Capability
