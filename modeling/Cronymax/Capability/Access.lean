import Cronymax.Capability.Tools

/-! Which paths the tools read and write for a request.  The directories on the way to a file and the
sibling that a replacement is written to are the ones that a request does not name. -/

namespace Cronymax.Capability

open Atomic Sandbox
open Agent (ToolOutcome)
open Authority (Value)

abbrev HostTrace := List (HostAct × Host)

/-- The access is a reading of a path that may be read, or a write of one that may be written. -/
@[grind =] def HostAct.Allowed (R G : PathBuf → Prop) : HostAct → Prop
  | .openFile path | .readToString path | .readDir path => R path
  | .mkdir path | .isDir path | .write path _ => G path
  | .rename source target => G source ∧ G target
  | _ => True

/-- Every access is allowed. -/
def AllAllowed (R G : PathBuf → Prop) (tr : HostTrace) : Prop := ∀ e ∈ tr, e.1.Allowed R G

/-- A directory could not be made because the one above it is missing. -/
def Upward (e : HostAct × Host) (path above : PathBuf) : Prop :=
  ∃ text, e.1 = .mkdir path ∧ e.2.ack = .error ⟨.notFound, text⟩ ∧ path.parent = some above ∧
    above ≠ .empty

section

variable {R G : PathBuf → Prop} {path : PathBuf} {tr tr' : HostTrace} {e : HostAct × Host}

@[simp] theorem allAllowed_nil : AllAllowed R G [] := fun _ h => absurd h List.not_mem_nil

@[simp] theorem allAllowed_cons : AllAllowed R G (e :: tr) ↔ e.1.Allowed R G ∧ AllAllowed R G tr :=
  List.forall_mem_cons

@[simp] theorem allAllowed_append : AllAllowed R G (tr ++ tr') ↔ AllAllowed R G tr ∧ AllAllowed R G tr' :=
  List.forall_mem_append

theorem yields_acked {α : Type} {x : HostAct} {f : Except IoError Unit → HostProg α}
    {r : Except String α} :
    Prog.Yields (x.acked >>= f) tr r ↔
      ∃ h tr', tr = (x, h) :: tr' ∧ Prog.Yields (f h.ack) tr' r := by
  rw [HostAct.acked, bind_assoc, Prog.yields_perform]
  rfl

@[simp] theorem orFail_only {α : Type} {P : HostAct → Prop} (a : Except IoError α) :
    (orFail a).Only P := by
  cases a <;> trivial

theorem withDiff_only {P : HostAct → Prop} (path : PathBuf) (diff : Option String) :
    (LocalFilesystem.withDiff path diff).Only P := by
  cases diff <;> trivial

theorem orFail_yields {α : Type} {a : Except IoError α} {r : Except String α}
    (h : Prog.Yields (orFail a) tr r) : tr = [] := by
  cases a with
  | ok a => exact (Prog.yields_done.mp h).1
  | error e => exact (Prog.yields_fail.mp h).1

theorem orFail_bind {α β : Type} {a : Except IoError α} {f : α → HostProg β} {r : Except String β}
    (h : Prog.Yields (orFail a >>= f) tr r) :
    (∃ v, a = .ok v ∧ Prog.Yields (f v) tr r) ∨ (∃ e, a = .error e) ∧ tr = [] := by
  cases a with
  | ok v => exact .inl ⟨v, rfl, h⟩
  | error e => exact .inr ⟨⟨e, rfl⟩, (Prog.yields_fail.mp h).1⟩

theorem allAllowed_of_only {α : Type} {p : HostProg α} {r : Except String α}
    (hp : p.Only fun x => x.touched = []) (h : Prog.Yields p tr r) : AllAllowed R G tr := by
  intro e he
  have hNone : e.1.touched = [] := hp.yields h e he
  cases hAct : e.1 <;> rw [hAct] at hNone <;> trivial

theorem settleDir_yields {made : Except IoError Unit} {r : Except String Unit}
    (h : Prog.Yields (settleDir path made) tr r) : ∀ e ∈ tr, e.1 = .isDir path := by
  cases made with
  | ok u => simp [(Prog.yields_done.mp h).1]
  | error e =>
    obtain ⟨host, tr', rfl, hRest⟩ := Prog.yields_perform.mp h
    have hNil : tr' = [] := by
      split at hRest
      · exact (Prog.yields_done.mp hRest).1
      · exact (Prog.yields_fail.mp hRest).1
    simp [hNil]

theorem Upward.of_isDir {below above : PathBuf} (hUp : Upward e below above)
    (hIsDir : e.1 = .isDir path) : False := by
  obtain ⟨_, hMkdir, -⟩ := hUp
  rw [hIsDir] at hMkdir
  cases hMkdir

theorem again_yields {r : Except String Unit}
    (h : Prog.Yields ((HostAct.mkdir path).acked >>= settleDir path) tr r) :
    (∀ e ∈ tr, e.1 = .mkdir path ∨ e.1 = .isDir path) := by
  obtain ⟨host, tr', rfl, hRest⟩ := yields_acked.mp h
  exact List.forall_mem_cons.mpr ⟨.inl rfl, fun e he => .inr (settleDir_yields hRest e he)⟩

theorem createDirAll_yields {r : Except String Unit} (hNe : path ≠ .empty)
    (h : Prog.Yields (createDirAll path) tr r) :
    ∃ host tr', tr = (.mkdir path, host) :: tr' ∧
      (((∀ e ∈ tr', e.1 = .isDir path) ∧ ∀ below above, ¬Upward (.mkdir path, host) below above) ∨
        ∃ text above first again r', host.ack = .error ⟨.notFound, text⟩ ∧
          path.parent = some above ∧ tr' = first ++ again ∧
          Prog.Yields (createDirAll above) first r' ∧
          ∀ e ∈ again, e.1 = .mkdir path ∨ e.1 = .isDir path) := by
  rw [createDirAll, if_neg hNe] at h
  obtain ⟨host, tr', rfl, hRest⟩ := yields_acked.mp h
  refine ⟨host, tr', rfl, ?_⟩
  split at hRest
  · rename_i text hMissing
    split at hRest
    · rename_i hTop
      refine .inl ⟨by simp [(Prog.yields_fail.mp hRest).1], fun below above hUp => ?_⟩
      obtain ⟨_, ⟨⟩, -, hParent, -⟩ := hUp
      rw [hTop] at hParent
      cases hParent
    · rename_i above hParent
      refine .inr ⟨text, above, ?_⟩
      obtain ⟨_, first, again, rfl, hFirst, hAgain⟩ | ⟨e, rfl, hFirst⟩ := Prog.yields_bind.mp hRest
      · exact ⟨first, again, _, hMissing, hParent, rfl, hFirst, again_yields hAgain⟩
      · exact ⟨tr', [], _, hMissing, hParent, (List.append_nil _).symm, hFirst, by simp⟩
  · rename_i hThere
    refine .inl ⟨settleDir_yields hRest, fun below above hUp => ?_⟩
    obtain ⟨text, -, hMissing, -⟩ := hUp
    exact hThere text hMissing

theorem allAllowed_of_same (hG : G path) (h : ∀ e ∈ tr, e.1 = .mkdir path ∨ e.1 = .isDir path) :
    AllAllowed R G tr := by
  intro e he
  obtain hMkdir | hIsDir := h e he
  · exact hMkdir.symm ▸ hG
  · exact hIsDir.symm ▸ hG

theorem Upward.to_parent {below above : PathBuf} (hUp : Upward e below above)
    (h : e.1 = .mkdir path ∨ e.1 = .isDir path) : path.parent = some above ∧ above ≠ .empty := by
  obtain hMkdir | hIsDir := h
  · obtain ⟨_, hAct, -, hParent, hNe⟩ := hUp
    cases hMkdir.symm.trans hAct
    exact ⟨hParent, hNe⟩
  · exact (hUp.of_isDir hIsDir).elim

theorem createDirAll_allowed {r : Except String Unit} (h : Prog.Yields (createDirAll path) tr r) :
    AllAllowed R G tr ↔
      (path ≠ .empty → G path) ∧ ∀ e ∈ tr, ∀ below above, G below → Upward e below above → G above := by
  induction hLength : path.components.length using Nat.strong_induction_on generalizing path tr r with
  | _ n ih =>
  by_cases hEmpty : path = .empty
  · subst hEmpty
    rw [createDirAll, if_pos rfl] at h
    simp [(Prog.yields_done.mp h).1]
  obtain ⟨host, tr', rfl, ⟨hSettled, hStays⟩ | hAbove⟩ := createDirAll_yields hEmpty h
  · constructor
    · refine fun hAll => ⟨fun _ => (allAllowed_cons.mp hAll).1, fun e he below above hBelow hUp => ?_⟩
      obtain rfl | he := List.mem_cons.mp he
      · exact absurd hUp (hStays below above)
      · exact (hUp.of_isDir (hSettled e he)).elim
    · rintro ⟨hG, -⟩
      exact allAllowed_cons.mpr
        ⟨hG hEmpty, allAllowed_of_same (hG hEmpty) fun e he => .inr (hSettled e he)⟩
  · obtain ⟨text, above, first, again, r', hMissing, hParent, rfl, hFirst, hAgain⟩ := hAbove
    have hShorter : above.components.length < n := by
      obtain ⟨c, hComponents⟩ := Paths.Path.parent_components hParent
      simp [← hLength, hComponents]
    have hFirst := ih _ hShorter hFirst rfl
    have hUpward (hNe : above ≠ .empty) : Upward (.mkdir path, host) path above :=
      ⟨text, rfl, hMissing, hParent, hNe⟩
    rw [allAllowed_cons, allAllowed_append, hFirst]
    constructor
    · rintro ⟨hG, ⟨hAbove, hRest⟩, -⟩
      have hParents (e : HostAct × Host) (below above' : PathBuf) (hUp : Upward e below above')
          (hAct : e.1 = .mkdir path ∨ e.1 = .isDir path) : G above' := by
        obtain ⟨hParent', hNe⟩ := hUp.to_parent hAct
        obtain rfl := Option.some.inj (hParent.symm.trans hParent')
        exact hAbove hNe
      refine ⟨fun _ => hG, fun e he below above' hBelow hUp => ?_⟩
      obtain rfl | he := List.mem_cons.mp he
      · exact hParents _ below above' hUp (.inl rfl)
      · obtain he | he := List.mem_append.mp he
        · exact hRest e he below above' hBelow hUp
        · exact hParents e below above' hUp (hAgain e he)
    · rintro ⟨hG, hRest⟩
      refine ⟨hG hEmpty, ⟨fun hNe => ?_, fun e he => ?_⟩, allAllowed_of_same (hG hEmpty) hAgain⟩
      · exact hRest _ List.mem_cons_self path above (hG hEmpty) (hUpward hNe)
      · exact hRest e (List.mem_cons_of_mem _ (List.mem_append_left _ he))

theorem readFile_allowed {offset maxBytes : Option Nat} {r : Except String ReadFileResult}
    (h : Prog.Yields (LocalFilesystem.readFile path offset maxBytes) tr r) :
    AllAllowed R G tr ↔ R path := by
  rw [LocalFilesystem.readFile] at h
  split at h
  · obtain ⟨opened, rest, rfl, hRest⟩ := yields_acked.mp h
    have hFree : AllAllowed R G rest := by
      refine allAllowed_of_only ((orFail_only _).bind fun _ => ?_) hRest
      have hEnd (n : Nat) : (Prog.perform (.readToEnd n) >>= fun h => orFail h.bytes >>= fun buf =>
          pure (⟨display path, String.ofList (Utf8.lossy buf),
            (maxBytes.map fun m => decide (m ≤ buf.length)).getD false⟩ : ReadFileResult) :
          HostProg ReadFileResult).Only fun x => x.touched = [] :=
        .perform rfl fun _ => (orFail_only _).bind fun _ => trivial
      cases offset with
      | none => exact hEnd _
      | some off => exact ⟨rfl, fun _ => (orFail_only _).bind fun _ => hEnd _⟩
    simp [HostAct.Allowed, hFree]
  · obtain ⟨host, rest, rfl, hRest⟩ := Prog.yields_perform.mp h
    have hFree : AllAllowed R G rest :=
      allAllowed_of_only ((orFail_only _).bind fun _ => Prog.only_done _) hRest
    simp [HostAct.Allowed, hFree]

theorem listDir_allowed {r : Except String (List String)}
    (h : Prog.Yields (LocalFilesystem.listDir path) tr r) : AllAllowed R G tr ↔ R path := by
  obtain ⟨host, rest, rfl, hRest⟩ := Prog.yields_perform.mp h
  have hFree : AllAllowed R G rest :=
    allAllowed_of_only ((orFail_only _).bind fun _ => Prog.only_done _) hRest
  simp [HostAct.Allowed, hFree]

theorem writeFile_allowed {content : String} {createDirs : Bool} {r : Except String Unit} (hG : G path)
    (h : Prog.Yields (LocalFilesystem.writeFile path content createDirs) tr r) :
    AllAllowed R G tr ↔
      (createDirs = true → ∀ above, path.parent = some above → above ≠ .empty → G above) ∧
        ∀ e ∈ tr, ∀ below above, G below → Upward e below above → G above := by
  have hWrite {rest : HostTrace} {r : Except String Unit}
      (h : Prog.Yields ((HostAct.write path content).acked >>= orFail) rest r) :
      AllAllowed R G rest ∧ ∀ e ∈ rest, ∀ below above, G below → Upward e below above → G above := by
    obtain ⟨host, done, rfl, hDone⟩ := yields_acked.mp h
    obtain rfl := orFail_yields hDone
    refine ⟨by simpa [HostAct.Allowed] using hG, fun e he below above hBelow hUp => ?_⟩
    obtain rfl := List.mem_singleton.mp he
    obtain ⟨_, ⟨⟩, -⟩ := hUp
  rw [LocalFilesystem.writeFile] at h
  split at h
  · rename_i hCreate
    cases hParent : path.parent with
    | none =>
      rw [hParent] at h
      obtain ⟨hAll, hNone⟩ := hWrite h
      exact iff_of_true hAll ⟨fun _ above hSome => (by cases hSome), hNone⟩
    | some above =>
      rw [hParent] at h
      obtain ⟨_, made, rest, rfl, hMade, hRest⟩ | ⟨e, rfl, hMade⟩ := Prog.yields_bind.mp h
      · obtain ⟨hAll, hNone⟩ := hWrite hRest
        rw [allAllowed_append, createDirAll_allowed hMade, List.forall_mem_append,
          and_iff_left hAll, and_iff_left hNone]
        simp [hCreate]
      · rw [createDirAll_allowed hMade]
        simp [hCreate]
  · rename_i hCreate
    obtain ⟨hAll, hNone⟩ := hWrite h
    exact iff_of_true hAll ⟨fun hTrue => absurd hTrue hCreate, hNone⟩

theorem strReplace_allowed {oldStr newStr : String} {r : Except String StrReplaceResult} (hG : G path)
    (h : Prog.Yields (LocalFilesystem.strReplace path oldStr newStr) tr r) :
    AllAllowed R G tr ↔ R path ∧
      ∀ host content, (.readToString path, host) ∈ tr → host.text = .ok content →
        countMatches oldStr content = 1 →
          G (path.withExtension LocalFilesystem.replaceExtension) := by
  obtain ⟨read, rest, rfl, hRest⟩ := Prog.yields_perform.mp h
  rw [allAllowed_cons]
  refine and_congr_right fun _ => ?_
  obtain ⟨content, hText, hRest⟩ | ⟨⟨e, hText⟩, rfl⟩ := orFail_bind hRest
  · by_cases hOnce : countMatches oldStr content = 1
    · rw [hOnce] at hRest
      obtain ⟨written, rest', rfl, hWritten⟩ := yields_acked.mp hRest
      have hRename : G (path.withExtension LocalFilesystem.replaceExtension) →
          AllAllowed R G rest' := by
        intro hTmp
        obtain ⟨_, -, hMoved⟩ | ⟨-, rfl⟩ := orFail_bind hWritten
        · obtain ⟨renamed, rest'', rfl, hDone⟩ := yields_acked.mp hMoved
          have hFree : AllAllowed R G rest'' :=
            allAllowed_of_only ((orFail_only _).bind fun _ => withDiff_only _ _) hDone
          exact allAllowed_cons.mpr ⟨⟨hTmp, hG⟩, hFree⟩
        · exact allAllowed_nil
      rw [allAllowed_cons]
      constructor
      · exact fun hAll _ _ _ _ _ => hAll.1
      · intro hTmp
        have hTmp := hTmp read content List.mem_cons_self hText hOnce
        exact ⟨hTmp, hRename hTmp⟩
    · have hNil : rest = [] := by
        split at hRest
        · exact (Prog.yields_fail.mp hRest).1
        · exact absurd ‹_› hOnce
        · exact (Prog.yields_fail.mp hRest).1
      subst hNil
      refine iff_of_true allAllowed_nil fun host content' hMem hText' hOnce' => ?_
      obtain ⟨rfl⟩ := List.mem_singleton.mp hMem
      cases hText.symm.trans hText'
      exact absurd hOnce' hOnce
  · refine iff_of_true allAllowed_nil fun host content hMem hText' _ => ?_
    obtain ⟨rfl⟩ := List.mem_singleton.mp hMem
    cases hText.symm.trans hText'

theorem reading_yields {α : Type} {read : Reader α} {complaint args : String}
    {go : α → HostProg ToolOutcome} {r : Except String ToolOutcome}
    (h : Prog.Yields (Tool.reading read complaint args go) tr r) :
    (∃ req, read args = .ok req ∧ Prog.Yields (go req) tr r) ∨
      (∀ req, read args ≠ .ok req) ∧ tr = [] := by
  rw [Tool.reading] at h
  split at h
  · exact .inl ⟨_, ‹_›, h⟩
  · rename_i hError
    exact .inr ⟨by simp [hError], (Prog.yields_done.mp h).1⟩

theorem withinScope_yields {scope : WorkspaceScope} {rel : String}
    {go : PathBuf → HostProg ToolOutcome} {r : Except String ToolOutcome}
    (h : Prog.Yields (withinScope scope rel go) tr r) :
    (∃ path, scope.resolve rel = .ok path ∧ Prog.Yields (go path) tr r) ∨
      (∀ path, scope.resolve rel ≠ .ok path) ∧ tr = [] := by
  rw [withinScope] at h
  split at h
  · rename_i hError
    exact .inr ⟨by simp [hError], (Prog.yields_done.mp h).1⟩
  · exact .inl ⟨_, ‹_›, h⟩

theorem outcomeOf_yields {α : Type} {name : String} {render : α → Value} {p : HostProg α}
    {r : Except String ToolOutcome} (h : Prog.Yields (outcomeOf name render p) tr r) :
    ∃ r', Prog.Yields p tr r' := by
  obtain ⟨r', first, rest, rfl, hFirst, hRest⟩ | ⟨_, -, hFail⟩ := Prog.yields_bind.mp h
  · obtain ⟨r', -, hp⟩ := Prog.yields_attempt.mp hFirst
    have hNil : rest = [] := by
      split at hRest <;> exact (Prog.yields_done.mp hRest).1
    exact ⟨r', by rwa [hNil, List.append_nil]⟩
  · obtain ⟨_, ⟨⟩, -⟩ := Prog.yields_attempt.mp hFail

theorem ifAllowed_yields {α : Type} {access : String} {decision : PermissionDecision} {go : HostProg α}
    {r : Except String α} (h : Prog.Yields (ifAllowed access path decision go) tr r) :
    (decision.allowed = true ∧ Prog.Yields go tr r) ∨ decision.allowed = false ∧ tr = [] := by
  rw [ifAllowed] at h
  split at h
  · rename_i hDenied
    exact .inr ⟨by simpa using hDenied, (Prog.yields_fail.mp h).1⟩
  · rename_i hAllowed
    exact .inl ⟨by simpa using hAllowed, h⟩

/-- The arguments say so, and the provider is asked for the path that they resolve to. -/
structure Reached {α : Type} (read : Reader α) (rel : α → String) (scope : WorkspaceScope)
    (may : PathBuf → Bool) (args : String) (req : α) (path : PathBuf) : Prop where
  parsed : read args = .ok req
  resolved : scope.resolve (rel req) = .ok path
  allowed : may path = true

theorem fileTool_allowed {α : Type} {read : Reader α} {rel : α → String} {scope : WorkspaceScope}
    {may : PathBuf → Bool} {complaint args : String} {go : α → PathBuf → HostProg ToolOutcome}
    {r : Except String ToolOutcome} (C : α → PathBuf → HostTrace → Prop)
    (hGate : ∀ req path r, scope.resolve (rel req) = .ok path → Prog.Yields (go req path) tr r →
      (may path = true ∧ (AllAllowed R G tr ↔ C req path tr)) ∨ may path = false ∧ tr = [])
    (h : Prog.Yields
      (Tool.reading read complaint args fun req => withinScope scope (rel req) (go req)) tr r) :
    AllAllowed R G tr ↔ ∀ req path, Reached read rel scope may args req path → C req path tr := by
  obtain ⟨req, hParsed, hRest⟩ | ⟨hNone, rfl⟩ := reading_yields h
  · obtain ⟨path, hResolved, hRest⟩ | ⟨hNone, rfl⟩ := withinScope_yields hRest
    · obtain ⟨hMay, hIff⟩ | ⟨hDenied, rfl⟩ := hGate req path r hResolved hRest
      · rw [hIff]
        refine ⟨fun hC req' path' hReached => ?_, fun hC => hC req path ⟨hParsed, hResolved, hMay⟩⟩
        cases hParsed.symm.trans hReached.parsed
        cases hResolved.symm.trans hReached.resolved
        exact hC
      · refine iff_of_true allAllowed_nil fun req' path' hReached => ?_
        cases hParsed.symm.trans hReached.parsed
        cases hResolved.symm.trans hReached.resolved
        cases hDenied.symm.trans hReached.allowed
    · refine iff_of_true allAllowed_nil fun req' path' hReached => ?_
      cases hParsed.symm.trans hReached.parsed
      exact absurd hReached.resolved (hNone path')
  · exact iff_of_true allAllowed_nil fun req' _ hReached => absurd hReached.parsed (hNone req')

variable {readers : Readers} {tier : SandboxTier} {workspaceRoot : PathBuf} {args : String}

theorem gated_yields {α : Type} {p : HostProg α} {name : String} {render : α → Value}
    {r : Except String ToolOutcome} (q : SandboxTier → HostProg α) (may : SandboxTier → Bool)
    (hTrusted : q .trusted = p ∧ may .trusted = true)
    (hSandboxed : ∀ policy, ∃ access decision, q (.sandboxed policy) = ifAllowed access path decision p ∧
      decision.allowed = may (.sandboxed policy))
    (h : Prog.Yields (outcomeOf name render (q tier)) tr r) :
    (may tier = true ∧ ∃ r', Prog.Yields p tr r') ∨ may tier = false ∧ tr = [] := by
  obtain ⟨r', h⟩ := outcomeOf_yields h
  cases tier with
  | trusted => exact .inl ⟨hTrusted.2, r', hTrusted.1 ▸ h⟩
  | sandboxed policy =>
    obtain ⟨access, decision, hGate, hMay⟩ := hSandboxed policy
    rw [hGate] at h
    rw [← hMay]
    obtain ⟨hAllowed, h⟩ | hDenied := ifAllowed_yields h
    · exact .inl ⟨hAllowed, r', h⟩
    · exact .inr hDenied

/-- An action on files. -/
def HostAct.OnFiles : HostAct → Prop
  | .run _ | .getVars | .spawn _ _ _ _ | .startPty _ _ _ _ | .writePty _ | .collectPty _ | .stopPty => False
  | _ => True

@[simp] theorem acked_only {P : HostAct → Prop} {x : HostAct} : x.acked.Only P ↔ P x := by
  simp [HostAct.acked, Prog.perform]

theorem settleDir_onFiles (made : Except IoError Unit) : (settleDir path made).Only HostAct.OnFiles := by
  cases made with
  | ok _ => trivial
  | error e =>
    refine Prog.Only.perform trivial fun h => ?_
    split <;> trivial

/-- By induction on the path. -/
theorem createDirAll_onFiles (path : PathBuf) : (createDirAll path).Only HostAct.OnFiles := by
  rw [createDirAll]
  split
  · exact Prog.only_done _
  · refine (acked_only.mpr trivial).bind fun made => ?_
    split
    · split
      · exact Prog.only_fail _
      · rename_i parent hParent
        have hShorter : parent.components.length < path.components.length := by
          obtain ⟨c, hComponents⟩ := Paths.Path.parent_components hParent
          simp [hComponents]
        exact (createDirAll_onFiles parent).bind fun _ =>
          (acked_only.mpr trivial).bind fun again => settleDir_onFiles again
    · exact settleDir_onFiles _
termination_by path.components.length

/-- A provider that works on files only. -/
structure FilesystemCapability.OnFiles (fs : FilesystemCapability) : Prop where
  readFile : ∀ path offset maxBytes, (fs.readFile path offset maxBytes).Only HostAct.OnFiles
  writeFile : ∀ path content createDirs, (fs.writeFile path content createDirs).Only HostAct.OnFiles
  listDir : ∀ path, (fs.listDir path).Only HostAct.OnFiles
  strReplace : ∀ path oldStr newStr, (fs.strReplace path oldStr newStr).Only HostAct.OnFiles

theorem reading_only {α : Type} {P : HostAct → Prop} {read : Reader α} {complaint args : String}
    {go : α → HostProg ToolOutcome} (h : ∀ req, (go req).Only P) :
    (Tool.reading read complaint args go).Only P := by
  rw [Tool.reading]
  split
  · exact h _
  · exact Prog.only_done _

theorem readFile_onFiles (path : PathBuf) (offset maxBytes : Option Nat) :
    (LocalFilesystem.readFile path offset maxBytes).Only HostAct.OnFiles := by
  rw [LocalFilesystem.readFile]
  have hEnd (n : Nat) : (Prog.perform (.readToEnd n) >>= fun h => orFail h.bytes >>= fun buf =>
      pure (⟨display path, String.ofList (Utf8.lossy buf),
        (maxBytes.map fun m => decide (m ≤ buf.length)).getD false⟩ : ReadFileResult) :
      HostProg ReadFileResult).Only HostAct.OnFiles :=
    .perform trivial fun _ => (orFail_only _).bind fun _ => Prog.only_done _
  split
  · refine (acked_only.mpr trivial).bind fun opened => (orFail_only _).bind fun _ => ?_
    cases offset with
    | none => exact hEnd _
    | some off => exact ⟨trivial, fun _ => (orFail_only _).bind fun _ => hEnd _⟩
  · exact .perform trivial fun _ => (orFail_only _).bind fun _ => Prog.only_done _

theorem writeFile_onFiles (path : PathBuf) (content : String) (createDirs : Bool) :
    (LocalFilesystem.writeFile path content createDirs).Only HostAct.OnFiles := by
  have hWrite : ((HostAct.write path content).acked >>= orFail).Only HostAct.OnFiles :=
    (acked_only.mpr trivial).bind fun _ => orFail_only _
  rw [LocalFilesystem.writeFile]
  split
  · cases path.parent with
    | none => exact hWrite
    | some parent => exact (createDirAll_onFiles parent).bind fun _ => hWrite
  · exact hWrite

theorem strReplace_onFiles (path : PathBuf) (oldStr newStr : String) :
    (LocalFilesystem.strReplace path oldStr newStr).Only HostAct.OnFiles := by
  refine .perform trivial fun _ => (orFail_only _).bind fun content => ?_
  split
  · exact Prog.only_fail _
  · exact (acked_only.mpr trivial).bind fun _ => (orFail_only _).bind fun _ =>
      (acked_only.mpr trivial).bind fun _ => (orFail_only _).bind fun _ => withDiff_only _ _
  · exact Prog.only_fail _

theorem localFilesystem_onFiles : localFilesystem.OnFiles where
  readFile := readFile_onFiles
  writeFile := writeFile_onFiles
  listDir _ := .perform trivial fun _ => (orFail_only _).bind fun _ => Prog.only_done _
  strReplace := strReplace_onFiles

theorem ifAllowed_only {α : Type} {P : HostAct → Prop} {access : String} {path : PathBuf}
    {decision : PermissionDecision} {go : HostProg α} (h : go.Only P) :
    (ifAllowed access path decision go).Only P := by
  rw [ifAllowed]
  split
  · exact Prog.only_fail _
  · exact h

theorem filesystem_onFiles (tier : SandboxTier) : tier.filesystem.OnFiles := by
  cases tier with
  | trusted => exact localFilesystem_onFiles
  | sandboxed policy =>
    obtain ⟨hRead, hWrite, hList, hReplace⟩ := localFilesystem_onFiles
    exact ⟨fun _ _ _ => ifAllowed_only (hRead _ _ _), fun _ _ _ => ifAllowed_only (hWrite _ _ _),
      fun _ => ifAllowed_only (hList _), fun _ _ _ => ifAllowed_only (hReplace _ _ _)⟩

theorem withinScope_only {α : Type} {P : HostAct → Prop} {scope : WorkspaceScope} {rel name : String}
    {render : α → Value} {p : PathBuf → HostProg α} (h : ∀ path, (p path).Only P) :
    (withinScope scope rel fun path => outcomeOf name render (p path)).Only P := by
  rw [withinScope]
  split
  · exact Prog.only_done _
  · refine (h _).attempt.bind fun r => ?_
    cases r <;> exact Prog.only_done _

section Shells

variable {P : HostAct → Prop}

theorem localShell_only (sh : LocalShell) {req : ShellRequest} (hRun : P (.run req))
    (hVars : P .getVars) (hSpawn : ∀ command cwd env timeout, P (.spawn command cwd env timeout)) :
    (sh.run req).Only P := by
  refine Prog.Only.perform hRun fun _ => ?_
  cases sh.cwd req with
  | error e => exact Prog.only_fail _
  | ok cwd =>
    refine Prog.Only.perform hVars fun _ => Prog.Only.perform (hSpawn _ _ _ _) fun h => ?_
    split
    · exact Prog.only_done _
    · exact Prog.only_fail _
    · exact Prog.only_done _

theorem runShell_only {tier : SandboxTier} {workspaceRoot : PathBuf} {req : ShellRequest}
    (hRun : P (.run req)) (hVars : P .getVars)
    (hSpawn : ∀ command cwd env timeout, P (.spawn command cwd env timeout)) :
    (runShellTool (tier.shell workspaceRoot) req).Only P := by
  have hShell : ((tier.shell workspaceRoot).run req).Only P := by
    cases tier with
    | trusted => exact localShell_only _ hRun hVars hSpawn
    | sandboxed policy =>
      rw [SandboxTier.shell, policyShell_run]
      exact localShell_only _ hRun hVars hSpawn
  refine hShell.attempt.bind fun r => ?_
  cases r <;> exact Prog.only_done _

theorem runTerminal_only {workspaceRoot : PathBuf} {req : TerminalArgs}
    (hStart : ∀ cwd shell cols rows, P (.startPty cwd shell cols rows))
    (hWrite : ∀ text, P (.writePty text)) (hCollect : ∀ secs, P (.collectPty secs))
    (hStop : P .stopPty) : (runTerminalTool workspaceRoot req).Only P := by
  refine (acked_only.mpr (hStart _ _ _ _)).bind fun started => ?_
  cases started with
  | error e => exact Prog.only_done _
  | ok _ =>
    refine (acked_only.mpr (hWrite _)).bind fun written => ?_
    cases written with
    | error e => exact Prog.only_done _
    | ok _ =>
      refine Prog.Only.perform (hCollect _) fun collected => Prog.Only.perform hStop fun _ => ?_
      cases collected.shown with
      | none => exact Prog.only_done _
      | some bytes => exact Prog.only_done _

end Shells

theorem runShell_untouched (req : ShellRequest) :
    (runShellTool (tier.shell workspaceRoot) req).Only fun x => x.touched = [] :=
  runShell_only rfl rfl fun _ _ _ _ => rfl

theorem runTerminal_untouched (req : TerminalArgs) :
    (runTerminalTool workspaceRoot req).Only fun x => x.touched = [] :=
  runTerminal_only (fun _ _ _ _ => rfl) (fun _ => rfl) (fun _ => rfl) rfl

theorem handle_runs {tool : Tool} {r : Except String ToolOutcome} {req : ShellRequest} {h : Host}
    (hRun : Prog.Yields (tool.handle readers tier workspaceRoot args) tr r) (hMem : (.run req, h) ∈ tr) :
    tool = .runShell ∧ readers.shell args = .ok req := by
  have hFiles := filesystem_onFiles tier
  have hNever {p : HostProg ToolOutcome} (hp : p.Only HostAct.OnFiles) (hRun : Prog.Yields p tr r) :
      False := hp.yields hRun _ hMem
  cases tool with
  | runShell =>
    obtain ⟨req', hParsed, hGo⟩ | ⟨-, rfl⟩ := reading_yields hRun
    · have hOnly : (runShellTool (tier.shell workspaceRoot) req').Only
          fun x => ∀ req, x = .run req → req = req' :=
        runShell_only (fun _ h => (HostAct.run.inj h).symm) (fun _ h => (by cases h))
          fun _ _ _ _ _ h => (by cases h)
      obtain rfl := hOnly.yields hGo _ hMem req rfl
      exact ⟨rfl, hParsed⟩
    · cases hMem
  | readFile => exact (hNever (reading_only fun _ => withinScope_only fun _ => hFiles.readFile _ _ _) hRun).elim
  | writeFile => exact (hNever (reading_only fun _ => withinScope_only fun _ => hFiles.writeFile _ _ _) hRun).elim
  | strReplace => exact (hNever (reading_only fun _ => withinScope_only fun _ => hFiles.strReplace _ _ _) hRun).elim
  | listDir => exact (hNever (reading_only fun _ => withinScope_only fun _ => hFiles.listDir _) hRun).elim
  | notify | requestApproval => exact (hNever (reading_only fun _ => Prog.only_done _) hRun).elim
  | runTerminal =>
    have hOnly : (Tool.runTerminal.handle readers tier workspaceRoot args).Only
        fun x => ∀ req, x ≠ .run req :=
      reading_only fun _ => runTerminal_only (fun _ _ _ _ _ h => (by cases h)) (fun _ _ h => (by cases h))
        (fun _ _ h => (by cases h)) fun _ h => (by cases h)
    exact absurd rfl (hOnly.yields hRun _ hMem req)

/-- What has to be allowed to a write beside its path. -/
def WriteClear (G : PathBuf → Prop) (req : WriteFileRequest) (path : PathBuf) (tr : HostTrace) : Prop :=
  (req.createDirs = true → ∀ above, path.parent = some above → above ≠ .empty → G above) ∧
    ∀ e ∈ tr, ∀ below above, G below → Upward e below above → G above

/-- What `str_replace` does to the host is allowed. -/
def ReplaceClear (R G : PathBuf → Prop) (req : StrReplaceRequest) (path : PathBuf) (tr : HostTrace) :
    Prop :=
  R path ∧ ∀ host content, (.readToString path, host) ∈ tr → host.text = .ok content →
    countMatches req.oldStr content = 1 → G (path.withExtension LocalFilesystem.replaceExtension)

/-- What a tool does to the host is allowed, shells and terminals apart. -/
def Clear (R G : PathBuf → Prop) (readers : Readers) (tier : SandboxTier) (workspaceRoot : PathBuf)
    (args : String) (tr : HostTrace) : Tool → Prop
  | .readFile => ∀ req path,
      Reached readers.readFile (·.path) ⟨workspaceRoot⟩ (tier.mayRead ·) args req path → R path
  | .listDir => ∀ req path,
      Reached readers.listDir id ⟨workspaceRoot⟩ (tier.mayRead ·) args req path → R path
  | .writeFile => ∀ req path,
      Reached readers.writeFile (·.path) ⟨workspaceRoot⟩ (tier.mayWrite ·) args req path →
        WriteClear G req path tr
  | .strReplace => ∀ req path,
      Reached readers.strReplace (·.path) ⟨workspaceRoot⟩ (tier.mayWrite ·) args req path →
        ReplaceClear R G req path tr
  | _ => True

theorem handle_allowed {tool : Tool} {r : Except String ToolOutcome}
    (hG : ∀ rel path, WorkspaceScope.resolve ⟨workspaceRoot⟩ rel = .ok path →
      tier.mayWrite path = true → G path)
    (h : Prog.Yields (tool.handle readers tier workspaceRoot args) tr r) :
    AllAllowed R G tr ↔ Clear R G readers tier workspaceRoot args tr tool := by
  cases tool with
  | readFile =>
    refine fileTool_allowed (fun _ path _ => R path) (fun req path r hResolved hGo => ?_) h
    refine (gated_yields (fun tier => tier.filesystem.readFile path req.offset req.maxBytes)
      (·.mayRead path) ⟨rfl, rfl⟩ (fun policy => ⟨_, _, rfl, checkRead_allowed⟩) hGo).imp_left ?_
    exact fun ⟨hMay, r', hLocal⟩ => ⟨hMay, readFile_allowed hLocal⟩
  | listDir =>
    refine fileTool_allowed (fun _ path _ => R path) (fun req path r hResolved hGo => ?_) h
    refine (gated_yields (fun tier => tier.filesystem.listDir path)
      (·.mayRead path) ⟨rfl, rfl⟩ (fun policy => ⟨_, _, rfl, checkRead_allowed⟩) hGo).imp_left ?_
    exact fun ⟨hMay, r', hLocal⟩ => ⟨hMay, listDir_allowed hLocal⟩
  | writeFile =>
    refine fileTool_allowed (WriteClear G) (fun req path r hResolved hGo => ?_) h
    refine (gated_yields (fun tier => tier.filesystem.writeFile path req.content req.createDirs)
      (·.mayWrite path) ⟨rfl, rfl⟩ (fun policy => ⟨_, _, rfl, checkWrite_allowed⟩) hGo).imp_left ?_
    exact fun ⟨hMay, r', hLocal⟩ => ⟨hMay, writeFile_allowed (hG _ _ hResolved hMay) hLocal⟩
  | strReplace =>
    refine fileTool_allowed (ReplaceClear R G) (fun req path r hResolved hGo => ?_) h
    refine (gated_yields (fun tier => tier.filesystem.strReplace path req.oldStr req.newStr)
      (·.mayWrite path) ⟨rfl, rfl⟩ (fun policy => ⟨_, _, rfl, checkWrite_allowed⟩) hGo).imp_left ?_
    exact fun ⟨hMay, r', hLocal⟩ => ⟨hMay, strReplace_allowed (hG _ _ hResolved hMay) hLocal⟩
  | runShell => exact iff_of_true (allAllowed_of_only (reading_only runShell_untouched) h) trivial
  | runTerminal => exact iff_of_true (allAllowed_of_only (reading_only runTerminal_untouched) h) trivial
  | notify | requestApproval =>
    exact iff_of_true (allAllowed_of_only (reading_only fun _ => Prog.only_done _) h) trivial

end

end Cronymax.Capability
