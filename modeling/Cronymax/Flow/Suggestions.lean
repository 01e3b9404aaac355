import Cronymax.Flow.Document

/-! Concurrent requests for one document.  A suggestion reads the current text and submits the edited
copy later; the lock of the document is held in the submit only. -/

namespace Cronymax.Flow.Document

open Atomic Pool

variable {ι : Type}

/-- A request for the document, by its arguments. -/
inductive Request where
  /-- `DocumentSuggestionApply`. -/
  | suggestionApply (blockId suggestion : List Char)
  /-- `DocumentSubmit`. -/
  | submit (content : List Char)
deriving DecidableEq

def Request.prog (name : String) (faults : Faults) : Request → DocProg WriteResult
  | .suggestionApply blockId suggestion => Document.suggestionApply faults name blockId suggestion 5000
  | .submit content => Document.submit faults name content 5000

/-- The request may leave something else in the block. -/
def Request.Replaces (blockId suggestion : List Char) : Request → Prop
  | .suggestionApply b _ => b = blockId
  | .submit content => bodyOf blockId content ≠ some (suggestionBody suggestion)

/-- Requests for one document, as they come in. -/
structure Clients (ι : Type) where
  name : String
  requests : ι → Request
  faults : ι → Faults
  start : Files

namespace Clients

variable (c : Clients ι)

def pool : Pool ι Access Files DocumentError WriteResult where
  state := c.start
  prog i := (c.requests i).prog c.name (c.faults i)

abbrev Event (ι : Type) := ι × Access × Files

/-- A submit that succeeds: the request is acknowledged. -/
def Acknowledges (e : Event ι) : Prop := ∃ content, e.2.1 = .submit content none

/-- An acknowledged access that may leave something else in the block. -/
def Changes (blockId suggestion : List Char) (e : Event ι) : Prop :=
  Acknowledges e ∧ (c.requests e.1).Replaces blockId suggestion

/-- The files after these accesses. -/
def files (es : List (Event ι)) : Files := Prog.after c.start (es.map (·.2))

/-- Whatever was acknowledged stays until the block is changed again. -/
def Kept (es : List (Event ι)) : Prop :=
  ∀ pre e post blockId suggestion, es = pre ++ e :: post → Acknowledges e →
    c.requests e.1 = .suggestionApply blockId suggestion →
    (∀ later ∈ post, ¬c.Changes blockId suggestion later) →
    (c.files es).current.bind (bodyOf blockId) = some (suggestionBody suggestion)

/-- The revision of the last submission that has succeeded. -/
def currentRevision (es : List (Event ι)) : UInt32 :=
  es.foldl (fun rev e =>
    match e.2.1 with
    | .submit _ none => e.2.2.nextRevision
    | _ => rev) c.start.latestRevision

/-- The revision of an acknowledged suggestion is the one behind the revision that it read. -/
def Derived (es : List (Event ι)) : Prop :=
  ∀ pre i f mid e post, es = pre ++ (i, .read, f) :: (mid ++ e :: post) → e.1 = i →
    Acknowledges e → e.2.2.nextRevision.toNat = (c.currentRevision pre).toNat + 1

/-- No acknowledged suggestion is lost, and every acknowledged revision follows from the one before. -/
def SuggestionsSafe (turns : List ι) [DecidableEq ι] : Prop :=
  (∀ es, es <+: c.pool.events turns → c.Kept es) ∧ c.Derived (c.pool.events turns)

/-- A submission that failed has left the document behind its history. -/
def behind (es : List (Event ι)) : Bool :=
  es.foldl (fun b e =>
    match e.2.1 with
    | .read => b
    | .submit _ none => false
    | .submit _ (some fault) => b || fault.afterSnapshot) false

/-- When a request that is acknowledged reads, the document is not behind its history, and nothing comes
to the history before it writes. -/
def Undisturbed (es : List (Event ι)) : Prop :=
  ∀ pre i f mid e post, es = pre ++ (i, .read, f) :: (mid ++ e :: post) → e.1 = i →
    Acknowledges e → behind pre = false ∧ ∀ between ∈ mid, between.2.1.takesSnapshot = false

/-- The number of the revision that an acknowledged suggestion makes is one of 32 bits. -/
def Numbered (es : List (Event ι)) : Prop :=
  ∀ pre i f mid e post, es = pre ++ (i, .read, f) :: (mid ++ e :: post) → e.1 = i → Acknowledges e →
    c.start.latestRevision.toNat + (pre ++ mid).countP (·.2.1.takesSnapshot) + 1 < 2 ^ 32

/-- No acknowledged suggestion has a marker line in it. -/
def AllPlain (es : List (Event ι)) : Prop :=
  ∀ e ∈ es, Acknowledges e → ∀ blockId suggestion,
    c.requests e.1 = .suggestionApply blockId suggestion → Plain suggestion

end Clients

theorem foldl_max (a : Nat) (l : List Nat) : l.foldl max a = max a (l.foldl max 0) := by
  induction l generalizing a with
  | nil => simp
  | cons b l ih =>
    rw [List.foldl_cons, List.foldl_cons, ih (max a b), ih (max 0 b)]
    omega

theorem toNat_latestRevision (f : Files) :
    f.latestRevision.toNat = (f.history.map (·.1.toNat)).foldl max 0 := by
  suffices h : ∀ latest : UInt32, (f.history.foldl (fun latest e => if e.1 > latest then e.1 else latest)
      latest).toNat = (f.history.map (·.1.toNat)).foldl max latest.toNat from h 0
  induction f.history with
  | nil => exact fun _ => rfl
  | cons e history ih =>
    intro latest
    rw [List.foldl_cons, ih, List.map_cons, List.foldl_cons]
    congr 1
    split_ifs with hLess
    · exact (max_eq_right (UInt32.le_of_lt hLess)).symm
    · exact (max_eq_left (UInt32.not_lt.mp hLess)).symm

theorem latestRevision_snapshot (f : Files) (current : Option (List Char)) (content : List Char) :
    (Files.latestRevision ⟨current, (f.nextRevision, content) :: f.history⟩).toNat =
      min (f.latestRevision.toNat + 1) (2 ^ 32 - 1) := by
  have hNext : f.nextRevision.toNat = (f.latestRevision.toNat + 1) % 2 ^ 32 := UInt32.toNat_add _ _
  have hBound := f.latestRevision.toNat_lt
  rw [toNat_latestRevision, List.map_cons, List.foldl_cons, foldl_max, ← toNat_latestRevision]
  dsimp only
  omega

theorem apply_calm {x : Access} (h : x.takesSnapshot = false) (f : Files) : Acts.apply x f = f := by
  cases x with
  | read => rfl
  | submit content fault =>
    cases fault with
    | none => cases h
    | some e =>
      have hNot : e.afterSnapshot = false := h
      exact if_neg (by rw [hNot]; exact Bool.false_ne_true)

theorem latestRevision_apply (x : Access) (f : Files) : (Acts.apply x f).latestRevision.toNat =
    min (f.latestRevision.toNat + if x.takesSnapshot then 1 else 0) (2 ^ 32 - 1) := by
  cases hTakes : x.takesSnapshot with
  | false =>
    have hBound := f.latestRevision.toNat_lt
    rw [apply_calm hTakes, if_neg (by simp)]
    omega
  | true =>
    rw [if_pos rfl]
    cases x with
    | read => cases hTakes
    | submit content fault =>
      cases fault with
      | none => exact latestRevision_snapshot f _ content
      | some e =>
        rw [show Acts.apply (Access.submit content (some e)) f =
          { f with history := (f.nextRevision, content) :: f.history } from if_pos hTakes]
        exact latestRevision_snapshot f _ content

theorem latestRevision_after (f : Files) (tr : List (Access × Files)) :
    (Prog.after f tr).latestRevision.toNat =
      min (f.latestRevision.toNat + tr.countP (·.1.takesSnapshot)) (2 ^ 32 - 1) := by
  induction tr generalizing f with
  | nil =>
    have hBound := f.latestRevision.toNat_lt
    rw [Prog.after_nil, List.countP_nil]
    omega
  | cons e tr ih =>
    rw [Prog.after_cons, ih, latestRevision_apply, List.countP_cons]
    omega

theorem after_calm {f : Files} {tr : List (Access × Files)}
    (h : ∀ e ∈ tr, e.1.takesSnapshot = false) : Prog.after f tr = f := by
  induction tr with
  | nil => rfl
  | cons e tr ih =>
    rw [Prog.after_cons, apply_calm (h e List.mem_cons_self),
      ih fun e' he' => h e' (List.mem_cons_of_mem _ he')]

theorem current_apply {x : Access} (h : ∀ content, x ≠ .submit content none) (f : Files) :
    (Acts.apply x f).current = f.current := by
  cases x with
  | read => rfl
  | submit content fault =>
    cases fault with
    | none => exact absurd rfl (h content)
    | some e =>
      simp only [Acts.apply]
      split
      · rfl
      · rfl

namespace Clients

variable (c : Clients ι)

theorem files_append (es es' : List (Event ι)) :
    c.files (es ++ es') = Prog.after (c.files es) (es'.map (·.2)) := by
  rw [files, List.map_append, Prog.after_append, files]

variable {c} in
theorem files_of_chained {pre post : List (Event ι)} {e : Event ι}
    (hc : Prog.Chained c.start ((pre ++ e :: post).map (·.2))) : e.2.2 = c.files pre := by
  rw [List.map_append, List.map_cons] at hc
  exact hc.state

variable {c} in
theorem latestRevision_files (es : List (Event ι)) : (c.files es).latestRevision.toNat =
    min (c.start.latestRevision.toNat + es.countP (·.2.1.takesSnapshot)) (2 ^ 32 - 1) := by
  rw [files, latestRevision_after, List.countP_map]
  rfl

variable {c} in
theorem currentRevision_spec {es : List (Event ι)} (hc : Prog.Chained c.start (es.map (·.2)))
    (hFits : (c.files es).latestRevision.toNat + 1 < 2 ^ 32) :
    (c.currentRevision es).toNat ≤ (c.files es).latestRevision.toNat ∧
      (behind es = false ↔ (c.files es).latestRevision.toNat = (c.currentRevision es).toNat) := by
  induction es using List.reverseRecOn with
  | nil => exact ⟨le_refl _, fun _ => rfl, fun _ => rfl⟩
  | append_singleton es e ih =>
    have hState : e.2.2 = c.files es := files_of_chained hc
    rw [List.map_append] at hc
    obtain ⟨i, x, f⟩ := e
    have hLatest : (c.files (es ++ [(i, x, f)])).latestRevision.toNat =
        min ((c.files es).latestRevision.toNat + if x.takesSnapshot then 1 else 0) (2 ^ 32 - 1) := by
      rw [files_append]
      exact latestRevision_apply x (c.files es)
    rw [hLatest] at hFits
    obtain ⟨hLe, hIff⟩ := ih (Prog.chained_append.mp hc).1 (by omega)
    rw [hLatest, currentRevision, behind, List.foldl_concat, List.foldl_concat, ← behind,
      ← currentRevision]
    cases x with
    | read =>
      have hSame : min ((c.files es).latestRevision.toNat + 0) (2 ^ 32 - 1) =
          (c.files es).latestRevision.toNat := by omega
      rw [show (if Access.read.takesSnapshot then 1 else 0) = 0 from rfl, hSame]
      exact ⟨hLe, hIff⟩
    | submit content fault =>
      cases fault with
      | none =>
        have hNext : f.nextRevision.toNat = (f.latestRevision.toNat + 1) % 2 ^ 32 := UInt32.toNat_add _ _
        rw [show f = c.files es from hState] at hNext ⊢
        rw [show (if (Access.submit content none).takesSnapshot then 1 else 0) = 1 from rfl] at hFits ⊢
        rw [hNext]
        exact ⟨by omega, fun _ => by omega, fun _ => rfl⟩
      | some e =>
        simp only [Access.takesSnapshot] at hFits ⊢
        by_cases hAfter : e.afterSnapshot = true
        · simp only [hAfter, Bool.or_true, if_true] at hFits ⊢
          refine ⟨by omega, fun h => ?_, fun h => ?_⟩
          · cases h
          · omega
        · simp only [hAfter, Bool.or_false, Bool.false_eq_true, if_false, Nat.add_zero] at hFits ⊢
          have hSame : min (c.files es).latestRevision.toNat (2 ^ 32 - 1) =
              (c.files es).latestRevision.toNat := by omega
          rw [hSame]
          exact ⟨hLe, hIff⟩

variable {c} in
theorem derived_iff {es : List (Event ι)} (hc : Prog.Chained c.start (es.map (·.2))) :
    c.Derived es ↔ Undisturbed es ∧ c.Numbered es := by
  have hEach : ∀ pre i f mid e post, es = pre ++ (i, .read, f) :: (mid ++ e :: post) →
      (e.2.2.nextRevision.toNat = (c.currentRevision pre).toNat + 1 ↔
        (behind pre = false ∧ ∀ between ∈ mid, between.2.1.takesSnapshot = false) ∧
        c.start.latestRevision.toNat + (pre ++ mid).countP (·.2.1.takesSnapshot) + 1 < 2 ^ 32) := by
    rintro pre i f mid e post rfl
    have hAll : pre ++ (i, Access.read, f) :: (mid ++ e :: post) =
        (pre ++ (i, Access.read, f) :: mid) ++ e :: post := by simp
    have hPre : Prog.Chained c.start (pre.map (·.2)) := by
      rw [List.map_append] at hc
      exact (Prog.chained_append.mp hc).1
    rw [hAll] at hc
    have hCount : mid.countP (·.2.1.takesSnapshot) = 0 ↔
        ∀ between ∈ mid, between.2.1.takesSnapshot = false := by
      rw [List.countP_eq_zero]
      simp
    have hBefore := latestRevision_files (c := c) pre
    have hLatest : e.2.2.latestRevision.toNat = min (c.start.latestRevision.toNat +
        (pre.countP (·.2.1.takesSnapshot) + mid.countP (·.2.1.takesSnapshot))) (2 ^ 32 - 1) := by
      rw [files_of_chained hc, latestRevision_files, List.countP_append,
        List.countP_cons_of_neg Bool.false_ne_true]
    have hNext : e.2.2.nextRevision.toNat = (e.2.2.latestRevision.toNat + 1) % 2 ^ 32 :=
      UInt32.toNat_add _ _
    have hSpec := currentRevision_spec hPre
    rw [hNext, hLatest, ← hCount, List.countP_append]
    constructor
    · intro hSame
      obtain ⟨hLe, hIff⟩ := hSpec (by omega)
      exact ⟨⟨hIff.mpr (by omega), by omega⟩, by omega⟩
    · rintro ⟨⟨hBehind, hNone⟩, hFits⟩
      have hSame := (hSpec (by omega)).2.mp hBehind
      omega
  exact ⟨fun h => ⟨fun pre i f mid e post hEs hi hAck =>
        ((hEach pre i f mid e post hEs).mp (h pre i f mid e post hEs hi hAck)).1,
      fun pre i f mid e post hEs hi hAck =>
        ((hEach pre i f mid e post hEs).mp (h pre i f mid e post hEs hi hAck)).2⟩,
    fun h pre i f mid e post hEs hi hAck => (hEach pre i f mid e post hEs).mpr
      ⟨h.1 pre i f mid e post hEs hi hAck, h.2 pre i f mid e post hEs hi hAck⟩⟩

theorem yields_submit {faults : Faults} {name : String} {content : List Char} {ms : Nat}
    {tr : List (Access × Files)} {r : Except DocumentError WriteResult}
    (h : Prog.Yields (Document.submit faults name content ms) tr r) :
    (tr = [] ∧ ∀ w, r ≠ .ok w) ∨ ∃ f, tr = [(.submit content faults.submit, f)] ∧
      (faults.submit = none ↔ ∃ w, r = .ok w) := by
  unfold Document.submit at h
  split at h
  · obtain ⟨rfl, rfl⟩ := Prog.yields_fail.mp h
    exact .inl ⟨rfl, by simp⟩
  · obtain ⟨f, rest, rfl, hRest⟩ := Prog.yields_act.mp h
    refine .inr ⟨f, ?_⟩
    split at hRest
    · rename_i hFault
      obtain ⟨rfl, rfl⟩ := Prog.yields_fail.mp hRest
      simp [hFault]
    · rename_i hFault
      obtain ⟨rfl, rfl⟩ := Prog.yields_done.mp hRest
      simp [hFault]

theorem yields_suggestionApply {faults : Faults} {name : String} {blockId suggestion : List Char}
    {ms : Nat} {tr : List (Access × Files)} {r : Except DocumentError WriteResult}
    (h : Prog.Yields (suggestionApply faults name blockId suggestion ms) tr r) :
    ((∀ w, r ≠ .ok w) ∧ (tr = [] ∨ ∃ f, tr = [(.read, f)])) ∨ ∃ f md new f', f.current = some md ∧
      applyBlockSuggestion md blockId suggestion = some new ∧
      tr = [(.read, f), (.submit new faults.submit, f')] ∧
      (faults.submit = none ↔ ∃ w, r = .ok w) := by
  unfold suggestionApply readCurrent at h
  split at h
  · rw [Prog.fail_bind] at h
    obtain ⟨rfl, rfl⟩ := Prog.yields_fail.mp h
    exact .inl ⟨by simp, .inl rfl⟩
  · rw [Prog.act_bind] at h
    obtain ⟨f, rest, rfl, hRest⟩ := Prog.yields_act.mp h
    split at hRest
    · rw [Prog.fail_bind] at hRest
      obtain ⟨rfl, rfl⟩ := Prog.yields_fail.mp hRest
      exact .inl ⟨by simp, .inr ⟨f, rfl⟩⟩
    · rw [Prog.done_bind] at hRest
      split at hRest
      · obtain ⟨rfl, rfl⟩ := Prog.yields_fail.mp hRest
        exact .inl ⟨by simp, .inr ⟨f, rfl⟩⟩
      · rename_i md hMd
        split at hRest
        · obtain ⟨rfl, rfl⟩ := Prog.yields_fail.mp hRest
          exact .inl ⟨by simp, .inr ⟨f, rfl⟩⟩
        · rename_i new hNew
          rcases yields_submit hRest with ⟨rfl, hFailed⟩ | ⟨f', rfl, hOk⟩
          · exact .inl ⟨hFailed, .inr ⟨f, rfl⟩⟩
          · exact .inr ⟨f, md, new, f', hMd, hNew, rfl, hOk⟩

variable [DecidableEq ι] {c}

theorem acknowledged_read {turns : List ι} {pre post : List (Event ι)} {e : Event ι}
    {blockId suggestion : List Char} (hEs : c.pool.events turns = pre ++ e :: post)
    (hAck : Acknowledges e) (hRequest : c.requests e.1 = .suggestionApply blockId suggestion) :
    ∃ before f mid md new, pre = before ++ (e.1, .read, f) :: mid ∧ f.current = some md ∧
      applyBlockSuggestion md blockId suggestion = some new ∧ e.2.1 = .submit new none := by
  obtain ⟨i, x, g⟩ := e
  obtain ⟨content, rfl⟩ := hAck
  obtain ⟨rest, r, -, hYields⟩ := Pool.share_completes turns c.pool i
  rw [hEs, share_append, share_cons, if_pos rfl] at hYields
  have hProg : c.pool.prog i = suggestionApply (c.faults i) c.name blockId suggestion 5000 := by
    show (c.requests i).prog c.name (c.faults i) = _
    rw [hRequest]
    rfl
  rw [hProg] at hYields
  cases hShare : share i pre with
  | nil =>
    rw [hShare] at hYields
    rcases yields_suggestionApply hYields with ⟨-, h | ⟨f, h⟩⟩ | ⟨f, md, new, f', -, -, h, -⟩
    · cases h
    · cases h
    · cases h
  | cons first own =>
    rw [hShare] at hYields
    rcases yields_suggestionApply hYields with ⟨-, h | ⟨f, h⟩⟩ | ⟨f, md, new, f', hMd, hNew, h, -⟩
    · cases h
    · simp at h
    · cases own with
      | cons second own => simp at h
      | nil =>
        simp only [List.cons_append, List.nil_append, List.cons.injEq, Prod.mk.injEq,
          Access.submit.injEq] at h
        obtain ⟨rfl, ⟨⟨rfl, -⟩, -⟩, -⟩ := h
        obtain ⟨before, mid, rfl, -, -⟩ := share_eq_cons hShare
        exact ⟨before, f, mid, md, content, rfl, hMd, hNew, rfl⟩

theorem acknowledged_fresh {turns : List ι} (hCalm : Undisturbed (c.pool.events turns))
    {pre post : List (Event ι)} {e : Event ι} {blockId suggestion : List Char}
    (hEs : c.pool.events turns = pre ++ e :: post) (hAck : Acknowledges e)
    (hRequest : c.requests e.1 = .suggestionApply blockId suggestion) :
    ∃ md new, (c.files pre).current = some md ∧
      applyBlockSuggestion md blockId suggestion = some new ∧ e.2.1 = .submit new none := by
  obtain ⟨before, f, mid, md, new, rfl, hMd, hNew, hSubmit⟩ := acknowledged_read hEs hAck hRequest
  refine ⟨md, new, ?_, hNew, hSubmit⟩
  have hc := Pool.events_chained turns c.pool
  rw [hEs, List.append_assoc, List.cons_append] at hc
  have hMid := (hCalm before e.1 f mid e post (by rw [hEs]; simp) rfl hAck).2
  have hRead : f = c.files before := files_of_chained hc
  have hSame : c.files (before ++ (e.1, .read, f) :: mid) = c.files before := by
    rw [files_append]
    refine after_calm fun e' he' => ?_
    obtain ⟨between, hBetween, rfl⟩ := List.mem_map.mp he'
    rcases List.mem_cons.mp hBetween with rfl | hBetween
    · rfl
    · exact hMid between hBetween
  rw [hSame, ← hRead, hMd]

theorem acknowledged_submit {turns : List ι} {pre post : List (Event ι)} {e : Event ι}
    {text : List Char} (hEs : c.pool.events turns = pre ++ e :: post) (hAck : Acknowledges e)
    (hRequest : c.requests e.1 = .submit text) : e.2.1 = .submit text none := by
  obtain ⟨i, x, g⟩ := e
  obtain ⟨content, rfl⟩ := hAck
  obtain ⟨rest, r, -, hYields⟩ := Pool.share_completes turns c.pool i
  have hProg : c.pool.prog i = Document.submit (c.faults i) c.name text 5000 := by
    show (c.requests i).prog c.name (c.faults i) = _
    rw [hRequest]
    rfl
  rw [hProg] at hYields
  have hMem : (Access.submit content none, g) ∈ share i (c.pool.events turns) :=
    mem_share.mpr (by rw [hEs]; simp)
  rcases yields_submit hYields with ⟨h, -⟩ | ⟨f, h, -⟩
  · rw [(List.append_eq_nil_iff.mp h).1] at hMem
    cases hMem
  · have hOnly : (Access.submit content none, g) ∈ [(Access.submit text (c.faults i).submit, f)] := by
      rw [← h]
      exact List.mem_append_left _ hMem
    simp only [List.mem_singleton, Prod.mk.injEq, Access.submit.injEq] at hOnly
    rw [hOnly.1.1]

theorem body_step {turns : List ι} (hCalm : Undisturbed (c.pool.events turns))
    (hPlain : c.AllPlain (c.pool.events turns)) {pre post : List (Event ι)} {e : Event ι}
    (hEs : c.pool.events turns = pre ++ e :: post) {blockId suggestion : List Char}
    (hNot : ¬c.Changes blockId suggestion e)
    (hBody : (c.files pre).current.bind (bodyOf blockId) = some (suggestionBody suggestion)) :
    (c.files (pre ++ [e])).current.bind (bodyOf blockId) = some (suggestionBody suggestion) := by
  have hFiles : c.files (pre ++ [e]) = Acts.apply e.2.1 (c.files pre) := by
    rw [files_append]
    rfl
  by_cases hAck : Acknowledges e
  · have hOther : ¬(c.requests e.1).Replaces blockId suggestion := fun h => hNot ⟨hAck, h⟩
    cases hRequest : c.requests e.1 with
    | suggestionApply b other =>
      obtain ⟨md, new, hMd, hNew, hSubmit⟩ := acknowledged_fresh hCalm hEs hAck hRequest
      have hMem : e ∈ c.pool.events turns := by
        rw [hEs]
        simp
      rw [hRequest] at hOther
      rw [hMd, Option.bind_some] at hBody
      rw [hFiles, hSubmit]
      show bodyOf blockId new = _
      rw [bodyOf_frame hNew (hPlain e hMem hAck b other hRequest) (Ne.symm hOther), hBody]
    | submit text =>
      rw [hRequest] at hOther
      rw [hFiles, acknowledged_submit hEs hAck hRequest]
      exact not_not.mp hOther
  · rw [hFiles, current_apply fun content h => hAck ⟨content, h⟩]
    exact hBody

theorem kept_of_undisturbed {turns : List ι} (hCalm : Undisturbed (c.pool.events turns))
    (hPlain : c.AllPlain (c.pool.events turns)) {es : List (Event ι)}
    (hEs : es <+: c.pool.events turns) : c.Kept es := by
  rintro pre e post blockId suggestion rfl hAck hRequest hNot
  induction post using List.reverseRecOn with
  | nil =>
    obtain ⟨rest, hRest⟩ := hEs
    have hAt : c.pool.events turns = pre ++ e :: rest := by
      rw [← hRest]
      simp
    obtain ⟨md, new, -, hNew, hSubmit⟩ := acknowledged_fresh hCalm hAt hAck hRequest
    have hMem : e ∈ c.pool.events turns := by
      rw [hAt]
      simp
    rw [files_append, show ([e].map (·.2)) = [e.2] from rfl, Prog.after_cons, hSubmit]
    exact (bodyOf_applied hNew).mpr (hPlain e hMem hAck blockId suggestion hRequest)
  | append_singleton post last ih =>
    have hSplit : pre ++ e :: (post ++ [last]) = pre ++ e :: post ++ [last] := by simp
    rw [hSplit] at hEs ⊢
    have hBody := ih ((List.prefix_append _ _).trans hEs) fun later hLater =>
      hNot later (List.mem_append_left _ hLater)
    obtain ⟨rest, hRest⟩ := hEs
    have hAt : c.pool.events turns = (pre ++ e :: post) ++ last :: rest := by
      rw [← hRest]
      simp
    exact body_step hCalm hPlain hAt (hNot last (by simp)) hBody

theorem plain_of_kept {turns : List ι} (hKept : ∀ es, es <+: c.pool.events turns → c.Kept es) :
    c.AllPlain (c.pool.events turns) := by
  intro e hMem hAck blockId suggestion hRequest
  obtain ⟨pre, post, hEs⟩ := List.append_of_mem hMem
  obtain ⟨before, f, mid, md, new, -, -, hNew, hSubmit⟩ := acknowledged_read hEs hAck hRequest
  have hPrefix : pre ++ [e] <+: c.pool.events turns := ⟨post, by rw [hEs]; simp⟩
  have hBody := hKept _ hPrefix pre e [] blockId suggestion rfl hAck hRequest (by simp)
  rw [files_append, show ([e].map (·.2)) = [e.2] from rfl, Prog.after_cons, hSubmit] at hBody
  exact (bodyOf_applied hNew).mp hBody

/-- Suggestions are safe in a run if and only if each one is submitted undisturbed, under a number that is not
used up, and has no marker line. -/
theorem suggestions_safe_iff (c : Clients ι) (turns : List ι) :
    c.SuggestionsSafe turns ↔ (Undisturbed (c.pool.events turns) ∧ c.Numbered (c.pool.events turns)) ∧
      c.AllPlain (c.pool.events turns) := by
  have hDerived := derived_iff (Pool.events_chained turns c.pool)
  constructor
  · rintro ⟨hKept, hNext⟩
    exact ⟨hDerived.mp hNext, plain_of_kept hKept⟩
  · rintro ⟨hCalm, hPlain⟩
    exact ⟨fun es hEs => kept_of_undisturbed hCalm.1 hPlain hEs, hDerived.mpr hCalm⟩

section Examples

def twoBlocks : List Char :=
  "<!-- block: aaaaaaaa -->\nold\n\n<!-- block: bbbbbbbb -->\nold\n".toList

def twoClients : Clients (Fin 2) where
  name := "spec"
  requests := fun i =>
    if i = 0 then .suggestionApply "aaaaaaaa".toList "new".toList
    else .suggestionApply "bbbbbbbb".toList "new".toList
  faults := fun _ => {}
  start := { current := some twoBlocks, history := [(1, twoBlocks)] }

def edited (blockId : String) : List Char :=
  (applyBlockSuggestion twoBlocks blockId.toList "new".toList).getD []

/-- Both requests read before either writes, and the later one undoes the block of the earlier. -/
theorem suggestion_lost :
    (∀ i, ∃ w, ((twoClients.pool.play [0, 1, 0, 1]).prog i).result = some (.ok w)) ∧
      ¬twoClients.SuggestionsSafe [0, 1, 0, 1] := by
  refine ⟨Fin.forall_fin_two.mpr ⟨⟨⟨2⟩, rfl⟩, ⟨⟨3⟩, rfl⟩⟩, fun h => ?_⟩
  · have hNot : ¬twoClients.Changes "aaaaaaaa".toList "new".toList
        (1, .submit (edited "bbbbbbbb") none,
          ⟨some (edited "aaaaaaaa"), [(2, edited "aaaaaaaa"), (1, twoBlocks)]⟩) := by
      rintro ⟨-, h⟩
      have hSame : "bbbbbbbb".toList = "aaaaaaaa".toList := h
      exact absurd hSame (by decide)
    have hBody := h.1 _ (List.prefix_refl _)
      [(0, .read, twoClients.start), (1, .read, twoClients.start)]
      (0, .submit (edited "aaaaaaaa") none, twoClients.start)
      [(1, .submit (edited "bbbbbbbb") none,
        ⟨some (edited "aaaaaaaa"), [(2, edited "aaaaaaaa"), (1, twoBlocks)]⟩)]
      "aaaaaaaa".toList "new".toList rfl ⟨_, rfl⟩ rfl (by simpa using hNot)
    have hLost : bodyOf "aaaaaaaa".toList (edited "bbbbbbbb") = some ["old".toList] := by decide
    have hFinal : bodyOf "aaaaaaaa".toList (edited "bbbbbbbb") =
        some (suggestionBody "new".toList) := hBody
    rw [hLost] at hFinal
    exact absurd hFinal (by decide)

end Examples

end Clients

end Cronymax.Flow.Document
