import Cronymax.Llm.Sse
import Cronymax.Text.Lines

/-! The reading of what `go test -json` prints: one event a line, of packages that run beside each other.
The output of a test is kept under its name until a test of that name fails, whatever its package is, and
so a failure is told with the output of its own test only where no other test of that name has printed
anything since the failure before. -/

namespace Cronymax.Capability

open Authority (Value)
open Llm (isWhitespace)

inductive RunnerKind where
  | jest
  | vitest
  | pytest
  | goTest

structure TestFailure where
  name : String
  message : String
deriving DecidableEq

structure TestRunnerResult where
  suite : String
  runner : RunnerKind
  total : UInt32
  passed : UInt32
  failed : UInt32
  skipped : UInt32
  durationMs : UInt64
  failures : List TestFailure
  coverage : Option Float

/-- The variables of the loop over the lines. -/
structure GoProgress where
  passed : UInt32
  failed : UInt32
  skipped : UInt32
  failures : List TestFailure
  failureOutputs : Table String (List String)

/-- `v[key]`, which is null where there is none. -/
def index (v : Value) (key : String) : Value := (v.get key).getD .null

namespace GoProgress

def start : GoProgress := ⟨0, 0, 0, [], ∅⟩

variable (s : GoProgress)

/-- What the reader makes of one line. -/
def readValue (v : Value) : GoProgress :=
  let action := (index v "Action").asStr.getD ""
  let testName := (index v "Test").asStr.getD ""
  if testName = "" then s
  else if action = "pass" then { s with passed := s.passed + 1 }
  else if action = "fail" then
    let message := ((s.failureOutputs.lookup testName).map String.join).getD ""
    { s with
      failed := s.failed + 1
      failures := s.failures ++ [⟨testName, message⟩]
      failureOutputs := s.failureOutputs.erase testName }
  else if action = "skip" then { s with skipped := s.skipped + 1 }
  else if action = "output" then
    match (index v "Output").asStr with
    | some output =>
      let outputs := (s.failureOutputs.lookup testName).getD []
      { s with failureOutputs := s.failureOutputs.insert testName (outputs ++ [output]) }
    | none => s
  else s

/-- `fromStr` is `serde_json::from_str`. -/
def readLine (fromStr : List Char → Option Value) (line : List Char) : GoProgress :=
  let line := (line.dropWhile isWhitespace).rdropWhile isWhitespace
  if line = [] then s
  else
    match fromStr line with
    | some v => s.readValue v
    | none => s

end GoProgress

/-- `utf8Error` is the message of the standard library. -/
def parseGoTestOutput (fromStr : List Char → Option Value) (utf8Error : List UInt8 → String)
    (stdout : List UInt8) (elapsedMs : Nat) : Except String TestRunnerResult :=
  match Utf8.text? stdout with
  | none => .error ("go test output is not UTF-8: " ++ utf8Error stdout)
  | some text =>
    let s := (Text.lines text).foldl (fun s line => s.readLine fromStr line) GoProgress.start
    .ok {
      suite := "go test"
      runner := .goTest
      total := s.passed + s.failed + s.skipped
      passed := s.passed
      failed := s.failed
      skipped := s.skipped
      durationMs := UInt64.ofNat elapsedMs
      failures := s.failures
      coverage := none }

/-- What a test does. -/
inductive TestAction where
  | output (text : String)
  | pass
  | fail
  | skip
  | other (name : String)
deriving DecidableEq

namespace TestAction

def name : TestAction → String
  | output _ => "output"
  | pass => "pass"
  | fail => "fail"
  | skip => "skip"
  | other name => name

def isOutput : TestAction → Bool
  | output _ => true
  | _ => false

/-- The test has ended. -/
def isEnd : TestAction → Bool
  | pass | fail | skip => true
  | _ => false

def text : TestAction → String
  | output text => text
  | _ => ""

end TestAction

/-- A line of `go test -json`, as far as the reader looks at it. -/
structure TestEvent where
  package : String
  test : String
  action : TestAction
deriving DecidableEq

/-- The value says the event. -/
structure Encodes (v : Value) (e : TestEvent) : Prop where
  action : (index v "Action").asStr = some e.action.name
  package : (index v "Package").asStr = some e.package
  test : (index v "Test").asStr.getD "" = e.test
  output : ∀ text, e.action = .output text → (index v "Output").asStr = some text
  other : ∀ name, e.action = .other name → name ∉ ["pass", "fail", "skip", "output"]

/-- The line is the JSON of the event. -/
def Prints (fromStr : List Char → Option Value) (line : List Char) (e : TestEvent) : Prop :=
  (line.dropWhile isWhitespace).rdropWhile isWhitespace ≠ [] ∧
    ∃ v, fromStr ((line.dropWhile isWhitespace).rdropWhile isWhitespace) = some v ∧ Encodes v e

/-- The outputs and ends of one test. -/
def ownEvents (events : List TestEvent) (package test : String) : List TestEvent :=
  events.filter fun e => e.package = package ∧ e.test = test ∧ (e.action.isOutput ∨ e.action.isEnd)

/-- Each test prints, and then ends once. -/
def WellFormed (events : List TestEvent) : Prop :=
  ∀ package test, test ≠ "" → ownEvents events package test = [] ∨
    ∃ outputs last, ownEvents events package test = outputs ++ [last] ∧
      (∀ o ∈ outputs, o.action.isOutput = true) ∧ last.action.isEnd = true

/-- How many tests ended so. -/
def ended (events : List TestEvent) (action : TestAction) : Nat :=
  ((events.filter fun e => e.test ≠ "" ∧ e.action = action).map fun e => (e.package, e.test)).toFinset.card

/-- The outputs of one test. -/
def ownOutputs (events : List TestEvent) (package test : String) : List TestEvent :=
  events.filter fun e => e.package = package ∧ e.test = test ∧ e.action.isOutput

/-- The failures, each with the output of its own test. -/
def ownFailures (events : List TestEvent) : List TestFailure :=
  (events.filter fun e => e.test ≠ "" ∧ e.action = .fail).map fun e =>
    ⟨e.test, String.join ((ownOutputs events e.package e.test).map (·.action.text))⟩

/-- The report counts every test, and tells each failure with the output of its test. -/
structure Reports (events : List TestEvent) (r : TestRunnerResult) : Prop where
  passed : r.passed.toNat = ended events .pass
  failed : r.failed.toNat = ended events .fail
  skipped : r.skipped.toNat = ended events .skip
  total : r.total.toNat = ended events .pass + ended events .fail + ended events .skip
  failures : r.failures = ownFailures events

/-- Since the failure before of a test of the same name, or since the start, only the test that fails has
printed anything under its name. -/
def Attributed (events : List TestEvent) : Prop :=
  ∀ before o between e after, events = before ++ o :: (between ++ e :: after) →
    e.action = .fail → e.test ≠ "" → o.test = e.test →
    (∀ x ∈ between, ¬(x.test = e.test ∧ x.action = .fail)) →
    o.package = e.package ∨ o.action.text = ""

namespace TestEvent

/-- The test is counted, and its end is reported. -/
def Ends (e : TestEvent) (action : TestAction) : Prop := e.test ≠ "" ∧ e.action = action

instance (e : TestEvent) (action : TestAction) : Decidable (e.Ends action) :=
  inferInstanceAs (Decidable (_ ∧ _))

end TestEvent

/-- The output under a name, since a test of the name has failed. -/
def pending (name : String) (events : List TestEvent) : List TestEvent :=
  (events.reverse.takeWhile fun e => ¬(e.test = name ∧ e.action = .fail)).reverse.filter fun e =>
    e.test = name ∧ e.action.isOutput

theorem pending_concat (name : String) (events : List TestEvent) (e : TestEvent) :
    pending name (events ++ [e]) =
      if e.test = name ∧ e.action = .fail then []
      else pending name events ++ if e.test = name ∧ e.action.isOutput then [e] else [] := by
  unfold pending
  rw [List.reverse_append, List.reverse_singleton, List.singleton_append, List.takeWhile_cons]
  split_ifs <;> simp_all

/-- The failures that the reader tells. -/
def told (before : List TestEvent) : List TestEvent → List TestFailure
  | [] => []
  | e :: events =>
    (if e.Ends .fail then [⟨e.test, String.join ((pending e.test before).map (·.action.text))⟩] else []) ++
      told (before ++ [e]) events

/-- What the variables hold after some events. -/
structure Holds (before : List TestEvent) (s : GoProgress) : Prop where
  passed : s.passed = UInt32.ofNat (before.countP fun e => e.Ends .pass)
  failed : s.failed = UInt32.ofNat (before.countP fun e => e.Ends .fail)
  skipped : s.skipped = UInt32.ofNat (before.countP fun e => e.Ends .skip)
  outputs : ∀ name, name ≠ "" →
    (s.failureOutputs.lookup name).getD [] = (pending name before).map (·.action.text)

theorem holds_start : Holds [] GoProgress.start := ⟨rfl, rfl, rfl, fun _ _ => rfl⟩

theorem Holds.concat {before : List TestEvent} {s t : GoProgress} (h : Holds before s) (e : TestEvent)
    (hPassed : t.passed = s.passed + if e.Ends .pass then 1 else 0)
    (hFailed : t.failed = s.failed + if e.Ends .fail then 1 else 0)
    (hSkipped : t.skipped = s.skipped + if e.Ends .skip then 1 else 0)
    (hOutputs : ∀ name, name ≠ "" → (t.failureOutputs.lookup name).getD [] =
      if e.test = name ∧ e.action = .fail then []
      else (s.failureOutputs.lookup name).getD [] ++
        if e.test = name ∧ e.action.isOutput then [e.action.text] else []) :
    Holds (before ++ [e]) t := by
  have hCount (action : TestAction) {old new : UInt32}
      (hOld : old = UInt32.ofNat (before.countP fun e => e.Ends action))
      (hNew : new = old + if e.Ends action then 1 else 0) :
      new = UInt32.ofNat ((before ++ [e]).countP fun e => e.Ends action) := by
    rw [hNew, hOld, List.countP_append, UInt32.ofNat_add, List.countP_singleton]
    by_cases hEnds : e.Ends action <;> simp [hEnds]
  refine ⟨hCount _ h.passed hPassed, hCount _ h.failed hFailed, hCount _ h.skipped hSkipped, fun name hName => ?_⟩
  rw [hOutputs name hName, h.outputs name hName, pending_concat]
  split_ifs <;> simp

theorem Holds.readLine {fromStr : List Char → Option Value} {before : List TestEvent} {s : GoProgress}
    (h : Holds before s) {line : List Char} {e : TestEvent} (hPrints : Prints fromStr line e) :
    Holds (before ++ [e]) (s.readLine fromStr line) ∧
      (s.readLine fromStr line).failures = s.failures ++ told before [e] := by
  obtain ⟨hSome, v, hParsed, hEncodes⟩ := hPrints
  have hLine : s.readLine fromStr line = s.readValue v := by
    rw [GoProgress.readLine, if_neg hSome, hParsed]
  rw [hLine, GoProgress.readValue, hEncodes.action, hEncodes.test, Option.getD_some, told, told, List.append_nil]
  by_cases hTest : e.test = ""
  · have hEnds (action : TestAction) : ¬e.Ends action := fun hEnds => hEnds.1 hTest
    rw [if_pos hTest]
    refine ⟨h.concat e ?_ ?_ ?_ fun name hName => ?_, by simp [hEnds]⟩
    · simp [hEnds]
    · simp [hEnds]
    · simp [hEnds]
    · have hOther : e.test ≠ name := fun hSame => hName (hSame.symm.trans hTest)
      simp [hOther]
  · rw [if_neg hTest]
    cases hAction : e.action with
    | pass =>
      refine ⟨h.concat e ?_ ?_ ?_ fun name _ => ?_, ?_⟩ <;>
        simp [TestAction.name, TestAction.isOutput, TestEvent.Ends, hAction, hTest]
    | skip =>
      refine ⟨h.concat e ?_ ?_ ?_ fun name _ => ?_, ?_⟩ <;>
        simp [TestAction.name, TestAction.isOutput, TestEvent.Ends, hAction, hTest]
    | fail =>
      have hMessage : ((s.failureOutputs.lookup e.test).map String.join).getD "" =
          String.join ((pending e.test before).map (·.action.text)) := by
        rw [← h.outputs e.test hTest]
        cases s.failureOutputs.lookup e.test <;> rfl
      refine ⟨h.concat e ?_ ?_ ?_ fun name _ => ?_, ?_⟩
      · simp [TestAction.name, TestEvent.Ends, hAction]
      · simp [TestAction.name, TestEvent.Ends, hAction, hTest]
      · simp [TestAction.name, TestEvent.Ends, hAction]
      · by_cases hName : e.test = name
        · simp [TestAction.name, hAction, hName, Finmap.lookup_erase]
        · simp [TestAction.name, TestAction.isOutput, hAction, hName, Finmap.lookup_erase_ne (Ne.symm hName)]
      · simp [TestAction.name, TestEvent.Ends, hAction, hTest, hMessage]
    | output text =>
      rw [hEncodes.output text hAction]
      refine ⟨h.concat e ?_ ?_ ?_ fun name _ => ?_, ?_⟩
      · simp [TestAction.name, TestEvent.Ends, hAction]
      · simp [TestAction.name, TestEvent.Ends, hAction]
      · simp [TestAction.name, TestEvent.Ends, hAction]
      · by_cases hName : e.test = name
        · subst hName
          simp [TestAction.name, TestAction.isOutput, TestAction.text, hAction, Finmap.lookup_insert]
        · simp [TestAction.name, hAction, hName, Finmap.lookup_insert_of_ne _ (Ne.symm hName)]
      · simp [TestAction.name, TestEvent.Ends, hAction]
    | other name =>
      have hOther := hEncodes.other name hAction
      simp only [List.mem_cons, List.not_mem_nil, or_false, not_or] at hOther
      obtain ⟨hPass, hFail, hSkip, hOutput⟩ := hOther
      refine ⟨h.concat e ?_ ?_ ?_ fun name _ => ?_, ?_⟩ <;>
        simp [TestAction.name, TestAction.isOutput, TestEvent.Ends, hAction, hPass, hFail, hSkip, hOutput]

theorem Holds.run {fromStr : List Char → Option Value} {lines : List (List Char)} {events : List TestEvent}
    (hPrints : List.Forall₂ (Prints fromStr) lines events) {before : List TestEvent} {s : GoProgress}
    (h : Holds before s) :
    Holds (before ++ events) (lines.foldl (fun s line => s.readLine fromStr line) s) ∧
      (lines.foldl (fun s line => s.readLine fromStr line) s).failures = s.failures ++ told before events := by
  induction hPrints generalizing before s with
  | nil => exact ⟨by simpa using h, by simp [told]⟩
  | cons hLine hLines ih =>
    rename_i line e lines events
    obtain ⟨hHolds, hFailures⟩ := h.readLine hLine
    obtain ⟨hRest, hTold⟩ := ih hHolds
    refine ⟨by simpa using hRest, ?_⟩
    rw [List.foldl_cons, hTold, hFailures, told, told, told, List.append_nil, List.append_assoc]

/-- The output of these events. -/
def textOf (events : List TestEvent) : List Char := events.flatMap fun e => e.action.text.toList

theorem toList_join (texts : List String) : (String.join texts).toList = texts.flatMap String.toList := by
  have hFold (acc : String) : (texts.foldl (· ++ ·) acc).toList = acc.toList ++ texts.flatMap String.toList := by
    induction texts generalizing acc with
    | nil => simp
    | cons text texts ih => rw [List.foldl_cons, ih]; simp
  exact (hFold "").trans (List.nil_append _)

theorem join_inj {l l' : List TestEvent} :
    String.join (l.map (·.action.text)) = String.join (l'.map (·.action.text)) ↔ textOf l = textOf l' := by
  rw [← String.toList_inj, toList_join, toList_join, List.flatMap_map, List.flatMap_map]
  rfl

theorem textOf_append (l l' : List TestEvent) : textOf (l ++ l') = textOf l ++ textOf l' := List.flatMap_append

theorem textOf_filter_iff {p : TestEvent → Bool} {l : List TestEvent} :
    textOf (l.filter p) = textOf l ↔ ∀ e ∈ l, p e = true ∨ e.action.text = "" := by
  have hShort (l : List TestEvent) : (textOf (l.filter p)).length ≤ (textOf l).length := by
    induction l with
    | nil => exact Nat.le_refl _
    | cons e l ih =>
      rw [List.filter_cons]
      split <;> simp only [textOf, List.flatMap_cons, List.length_append] at ih ⊢ <;> omega
  induction l with
  | nil => simp
  | cons e l ih =>
    have hCons (l : List TestEvent) : textOf (e :: l) = e.action.text.toList ++ textOf l := rfl
    rw [List.forall_mem_cons, List.filter_cons]
    by_cases hp : p e = true
    · rw [if_pos hp, hCons, hCons, List.append_cancel_left_eq]
      exact ⟨fun h => ⟨.inl hp, ih.mp h⟩, fun h => ih.mpr h.2⟩
    · rw [if_neg hp, hCons]
      constructor
      · intro h
        have hLength := congrArg List.length h
        have hLe := hShort l
        rw [List.length_append] at hLength
        have hEmpty : e.action.text.toList = [] := List.length_eq_zero_iff.mp (by omega)
        rw [hEmpty, List.nil_append] at h
        exact ⟨.inr (String.toList_eq_nil_iff.mp hEmpty), ih.mp h⟩
      · rintro ⟨hText, h⟩
        rw [hText.resolve_left hp, ih.mpr h]
        rfl

theorem told_eq_iff {events : List TestEvent} (message : TestEvent → String) (before : List TestEvent) :
    told before events = ((events.filter fun e => e.Ends .fail).map fun e => ⟨e.test, message e⟩) ↔
      ∀ pre e post, events = pre ++ e :: post → e.Ends .fail →
        String.join ((pending e.test (before ++ pre)).map (·.action.text)) = message e := by
  induction events generalizing before with
  | nil => simp [told]
  | cons e events ih =>
    have hSplits : (∀ pre x post, e :: events = pre ++ x :: post → x.Ends .fail →
          String.join ((pending x.test (before ++ pre)).map (·.action.text)) = message x) ↔
        (e.Ends .fail → String.join ((pending e.test before).map (·.action.text)) = message e) ∧
        ∀ pre x post, events = pre ++ x :: post → x.Ends .fail →
          String.join ((pending x.test (before ++ [e] ++ pre)).map (·.action.text)) = message x := by
      constructor
      · intro h
        refine ⟨fun hEnds => ?_, fun pre x post hSplit hEnds => ?_⟩
        · have hFirst := h [] e events rfl hEnds
          rwa [List.append_nil] at hFirst
        · have hLater := h (e :: pre) x post (by rw [hSplit]; rfl) hEnds
          rwa [← List.singleton_append, ← List.append_assoc] at hLater
      · rintro ⟨hFirst, hLater⟩ pre x post hSplit hEnds
        cases pre with
        | nil =>
          obtain ⟨rfl, -⟩ := List.cons.inj hSplit
          rw [List.append_nil]
          exact hFirst hEnds
        | cons y pre =>
          obtain ⟨rfl, hRest⟩ := List.cons.inj hSplit
          have hAt := hLater pre x post hRest hEnds
          rwa [List.append_assoc, List.singleton_append] at hAt
    rw [hSplits, ← ih, told, List.filter_cons]
    by_cases hEnds : e.Ends .fail
    · simp [hEnds]
    · simp [hEnds]

namespace WellFormed

variable {events pre post : List TestEvent} {e : TestEvent}

theorem split (h : WellFormed events) (hSplit : events = pre ++ e :: post) (hTest : e.test ≠ "")
    (hEnd : e.action.isEnd = true) :
    ownEvents post e.package e.test = [] ∧
      ∀ x ∈ ownEvents pre e.package e.test, x.action.isOutput = true := by
  have hOwn : ownEvents events e.package e.test =
      ownEvents pre e.package e.test ++ e :: ownEvents post e.package e.test := by
    rw [hSplit, ownEvents, List.filter_append, List.filter_cons, if_pos (by simp [hEnd])]
    rfl
  rcases h e.package e.test hTest with hNone | ⟨outputs, last, hShape, hOutputs, -⟩
  · rw [hOwn] at hNone
    simp at hNone
  · have hNot : e ∉ outputs := fun hMem => by
      have hOutput := hOutputs e hMem
      cases hAction : e.action <;> simp [hAction, TestAction.isOutput, TestAction.isEnd] at hOutput hEnd
    rw [hOwn] at hShape
    rcases List.eq_nil_or_concat (ownEvents post e.package e.test) with hNil | ⟨rest, z, hConcat⟩
    · rw [hNil] at hShape ⊢
      obtain ⟨hPre, -⟩ := List.append_inj' hShape rfl
      exact ⟨rfl, hPre ▸ hOutputs⟩
    · rw [hConcat, List.concat_eq_append, ← List.cons_append, ← List.append_assoc] at hShape
      obtain ⟨hOut, -⟩ := List.append_inj' hShape rfl
      exact absurd (hOut ▸ List.mem_append_right _ List.mem_cons_self) hNot

theorem ends_of_fail (h : e.Ends .fail) : e.action.isEnd = true := by rw [h.2]; rfl

theorem ownOutputs_eq (h : WellFormed events) (hSplit : events = pre ++ e :: post) (hEnds : e.Ends .fail) :
    ownOutputs events e.package e.test = ownOutputs pre e.package e.test := by
  obtain ⟨hPost, -⟩ := h.split hSplit hEnds.1 (ends_of_fail hEnds)
  have hNone : ownOutputs post e.package e.test = [] := by
    rw [ownOutputs, List.filter_eq_nil_iff]
    intro x hx hOwn
    rw [decide_eq_true_eq] at hOwn
    exact List.filter_eq_nil_iff.mp hPost x hx (by simp [hOwn])
  have hSelf : ¬e.action.isOutput = true := by rw [hEnds.2]; decide
  rw [hSplit, ownOutputs, List.filter_append, List.filter_cons, if_neg (by simp [hSelf])]
  exact (congrArg _ hNone).trans (List.append_nil _)

theorem other (h : WellFormed events) (hSplit : events = pre ++ e :: post) (hEnds : e.Ends .fail)
    {x : TestEvent} (hx : x ∈ pre) (hFail : x.Ends .fail) (hName : x.test = e.test) :
    x.package ≠ e.package := by
  intro hPackage
  obtain ⟨-, hOutputs⟩ := h.split hSplit hEnds.1 (ends_of_fail hEnds)
  have hOwn : x ∈ ownEvents pre e.package e.test :=
    List.mem_filter.mpr ⟨hx, by simp [hPackage, hName, ends_of_fail hFail]⟩
  have hOutput := hOutputs x hOwn
  rw [hFail.2] at hOutput
  cases hOutput

end WellFormed

/-- Only the test of the failure, or nothing, has been printed under its name since the one before. -/
def Clean (e : TestEvent) (pre : List TestEvent) : Prop :=
  ∀ o ∈ pending e.test pre, o.package = e.package ∨ o.action.text = ""

theorem clean_iff {e : TestEvent} {pre : List TestEvent} : Clean e pre ↔
    textOf ((pending e.test pre).filter fun o => o.package = e.package) = textOf (pending e.test pre) := by
  rw [textOf_filter_iff]
  simp only [decide_eq_true_eq]
  rfl

theorem textOf_ownOutputs {package test : String} {pre : List TestEvent}
    (h : ∀ a f b, pre = a ++ f :: b → f.test = test → f.action = .fail → f.package ≠ package ∧ Clean f a) :
    textOf (ownOutputs pre package test) =
      textOf ((pending test pre).filter fun o => o.package = package) := by
  induction pre using List.reverseRecOn with
  | nil => rfl
  | append_singleton pre x ih =>
    have ih := ih fun a f b hSplit => h a f (b ++ [x]) (by rw [hSplit, List.append_assoc, List.cons_append])
    rw [pending_concat, ownOutputs, List.filter_append, textOf_append]
    by_cases hFail : x.test = test ∧ x.action = .fail
    · obtain ⟨hOther, hClean⟩ := h pre x [] rfl hFail.1 hFail.2
      have hSelf : ¬x.action.isOutput = true := by rw [hFail.2]; decide
      have hNone : textOf ((pending test pre).filter fun o => o.package = package) = [] := by
        refine List.flatMap_eq_nil_iff.mpr fun o ho => ?_
        obtain ⟨hPending, hPackage⟩ := List.mem_filter.mp ho
        rw [decide_eq_true_eq] at hPackage
        have hText := (hClean o (hFail.1 ▸ hPending)).resolve_left fun hSame => hOther (hSame.symm.trans hPackage)
        rw [hText]
        rfl
      rw [if_pos hFail, List.filter_nil]
      refine (congrArg₂ _ (ih.trans hNone) ?_).trans (List.append_nil _)
      simp [hSelf, textOf]
    · rw [if_neg hFail, List.filter_append, textOf_append]
      refine congrArg₂ _ ih ?_
      by_cases hOutput : x.test = test ∧ x.action.isOutput = true
      · by_cases hPackage : x.package = package <;> simp [hOutput, hPackage]
      · simp [hOutput]

theorem messages_iff {events : List TestEvent} (h : WellFormed events) :
    (∀ pre e post, events = pre ++ e :: post → e.Ends .fail →
      String.join ((pending e.test pre).map (·.action.text)) =
        String.join ((ownOutputs events e.package e.test).map (·.action.text))) ↔
    ∀ pre e post, events = pre ++ e :: post → e.Ends .fail → Clean e pre := by
  have hEarlier {pre post : List TestEvent} {e : TestEvent} (hSplit : events = pre ++ e :: post)
      (hEnds : e.Ends .fail)
      (hBefore : ∀ a f b, pre = a ++ f :: b → f.test = e.test → f.action = .fail → Clean f a) :
      textOf (ownOutputs events e.package e.test) =
        textOf ((pending e.test pre).filter fun o => o.package = e.package) := by
    rw [h.ownOutputs_eq hSplit hEnds]
    refine textOf_ownOutputs fun a f b hPre hName hFail => ⟨?_, hBefore a f b hPre hName hFail⟩
    refine h.other hSplit hEnds ?_ ⟨fun hNone => hEnds.1 (hName.symm.trans hNone), hFail⟩ hName
    rw [hPre]
    exact List.mem_append_right _ List.mem_cons_self
  constructor
  · intro hMessages pre
    -- by the length of what is before: the failures before are clean
    induction hLength : pre.length using Nat.strong_induction_on generalizing pre with
    | _ n ih =>
      intro e post hSplit hEnds
      rw [clean_iff, ← hEarlier hSplit hEnds fun a f b hPre hName hFail => ?_]
      · exact (join_inj.mp (hMessages pre e post hSplit hEnds)).symm
      · refine ih a.length ?_ a rfl f (b ++ e :: post) ?_ ⟨fun hNone => hEnds.1 (hName.symm.trans hNone), hFail⟩
        · rw [← hLength, hPre, List.length_append, List.length_cons]
          omega
        · rw [hSplit, hPre, List.append_assoc, List.cons_append]
  · intro hClean pre e post hSplit hEnds
    refine join_inj.mpr ?_
    rw [hEarlier hSplit hEnds fun a f b hPre hName hFail => ?_]
    · exact (clean_iff.mp (hClean pre e post hSplit hEnds)).symm
    · refine hClean a f (b ++ e :: post) ?_ ⟨fun hNone => hEnds.1 (hName.symm.trans hNone), hFail⟩
      rw [hSplit, hPre, List.append_assoc, List.cons_append]

theorem mem_pending {name : String} {pre : List TestEvent} {o : TestEvent} :
    o ∈ pending name pre ↔ (o.test = name ∧ o.action.isOutput = true) ∧
      ∃ a b, pre = a ++ o :: b ∧ ∀ x ∈ b, ¬(x.test = name ∧ x.action = .fail) := by
  induction pre using List.reverseRecOn with
  | nil => simp [pending]
  | append_singleton pre e ih =>
    rw [pending_concat]
    constructor
    · intro h
      split_ifs at h with hFail hOutput
      · cases h
      · rcases List.mem_append.mp h with h | h
        · obtain ⟨hOwn, a, b, rfl, hFree⟩ := ih.mp h
          refine ⟨hOwn, a, b ++ [e], by simp, fun x hx => ?_⟩
          rcases List.mem_append.mp hx with hx | hx
          · exact hFree x hx
          · rwa [List.mem_singleton.mp hx]
        · rw [List.mem_singleton.mp h]
          exact ⟨hOutput, pre, [], rfl, fun x hx => by cases hx⟩
      · rw [List.append_nil] at h
        obtain ⟨hOwn, a, b, rfl, hFree⟩ := ih.mp h
        refine ⟨hOwn, a, b ++ [e], by simp, fun x hx => ?_⟩
        rcases List.mem_append.mp hx with hx | hx
        · exact hFree x hx
        · rwa [List.mem_singleton.mp hx]
    · rintro ⟨hOwn, a, b, hSplit, hFree⟩
      rcases List.eq_nil_or_concat b with rfl | ⟨b, z, rfl⟩
      · obtain ⟨rfl, hLast⟩ := List.append_inj' hSplit rfl
        obtain rfl := List.singleton_inj.mp hLast
        have hNot : ¬(e.test = name ∧ e.action = .fail) := fun hFail => by
          rw [hFail.2] at hOwn
          cases hOwn.2
        rw [if_neg hNot, if_pos hOwn]
        exact List.mem_append_right _ List.mem_cons_self
      · rw [List.concat_eq_append, ← List.cons_append, ← List.append_assoc] at hSplit
        obtain ⟨rfl, hLast⟩ := List.append_inj' hSplit rfl
        obtain rfl := List.singleton_inj.mp hLast
        rw [if_neg (hFree e (by simp))]
        refine List.mem_append_left _ (ih.mpr ⟨hOwn, a, b, rfl, fun x hx => hFree x ?_⟩)
        rw [List.concat_eq_append]
        exact List.mem_append_left _ hx

theorem attributed_iff {events : List TestEvent} : Attributed events ↔
    ∀ pre e post, events = pre ++ e :: post → e.Ends .fail → Clean e pre := by
  constructor
  · intro h pre e post hSplit hEnds o ho
    obtain ⟨⟨hName, -⟩, a, b, rfl, hFree⟩ := mem_pending.mp ho
    exact h a o b e post (by rw [hSplit, List.append_assoc, List.cons_append]) hEnds.2 hEnds.1 hName hFree
  · intro h before o between e after hSplit hFail hTest hName hFree
    by_cases hOutput : o.action.isOutput = true
    · refine h (before ++ o :: between) e after ?_ ⟨hTest, hFail⟩ o (mem_pending.mpr ?_)
      · rw [hSplit, List.append_assoc, List.cons_append]
      · exact ⟨⟨hName, hOutput⟩, before, between, rfl, hFree⟩
    · cases hAction : o.action <;> simp [hAction, TestAction.isOutput, TestAction.text] at hOutput ⊢

theorem nodup_of_splits {α β : Type*} {p : α → Bool} {key : α → β} {l : List α}
    (h : ∀ pre e post, l = pre ++ e :: post → p e = true → key e ∉ (post.filter p).map key) :
    ((l.filter p).map key).Nodup := by
  induction l with
  | nil => exact List.nodup_nil
  | cons e l ih =>
    have ih := ih fun pre x post hSplit => h (e :: pre) x post (by rw [hSplit, List.cons_append])
    rw [List.filter_cons]
    split
    · rename_i hp
      exact List.nodup_cons.mpr ⟨h [] e l rfl hp, ih⟩
    · exact ih

theorem ended_eq {events : List TestEvent} (h : WellFormed events) {action : TestAction}
    (hEnd : action.isEnd = true) : ended events action = events.countP fun e => e.Ends action := by
  have hNodup : ((events.filter fun e => e.test ≠ "" ∧ e.action = action).map fun e =>
      (e.package, e.test)).Nodup := by
    refine nodup_of_splits fun pre e post hSplit hEnds hMem => ?_
    rw [decide_eq_true_eq] at hEnds
    obtain ⟨hPost, -⟩ := h.split hSplit hEnds.1 (hEnds.2 ▸ hEnd)
    obtain ⟨x, hx, hKey⟩ := List.mem_map.mp hMem
    obtain ⟨hx, hxEnds⟩ := List.mem_filter.mp hx
    rw [decide_eq_true_eq] at hxEnds
    obtain ⟨hPackage, hTest⟩ := Prod.mk.inj hKey
    exact List.filter_eq_nil_iff.mp hPost x hx (by simp [hPackage, hTest, hxEnds.2, hEnd])
  rw [ended, List.toFinset_card_of_nodup hNodup, List.length_map, List.countP_eq_length_filter]
  rfl

theorem parseGoTestOutput_told (fromStr : List Char → Option Value) (utf8Error : List UInt8 → String)
    {text : List Char} {events : List TestEvent} (hPrints : List.Forall₂ (Prints fromStr) (Text.lines text) events)
    (elapsedMs : Nat) :
    ∃ r, parseGoTestOutput fromStr utf8Error (Utf8.encode text) elapsedMs = .ok r ∧ r.failures = told [] events := by
  obtain ⟨-, hTold⟩ := holds_start.run hPrints
  exact ⟨_, by rw [parseGoTestOutput, Utf8.text?_encode], hTold⟩

/-- The report is right about just those streams of fewer than 2^32 tests in which no other test has printed
anything under the name of one that fails. -/
theorem reports_iff (fromStr : List Char → Option Value) (utf8Error : List UInt8 → String) {text : List Char}
    {events : List TestEvent} (hPrints : List.Forall₂ (Prints fromStr) (Text.lines text) events)
    (hWell : WellFormed events) (elapsedMs : Nat) :
    ∃ r, parseGoTestOutput fromStr utf8Error (Utf8.encode text) elapsedMs = .ok r ∧
      (Reports events r ↔
        Attributed events ∧ ended events .pass + ended events .fail + ended events .skip < 2 ^ 32) := by
  obtain ⟨hHolds, hTold⟩ := holds_start.run hPrints
  rw [List.nil_append] at hHolds
  refine ⟨_, by rw [parseGoTestOutput, Utf8.text?_encode], ?_⟩
  have hFailures : told [] events = ownFailures events ↔ Attributed events := by
    rw [attributed_iff, ← messages_iff hWell]
    exact told_eq_iff _ []
  have hPassed := hHolds.passed
  have hFailed := hHolds.failed
  have hSkipped := hHolds.skipped
  rw [← ended_eq hWell rfl] at hPassed hFailed hSkipped
  constructor
  · rintro ⟨-, -, -, hTotal, hTells⟩
    refine ⟨hFailures.mp (hTold.symm.trans hTells), ?_⟩
    rw [← hTotal]
    exact UInt32.toNat_lt _
  · rintro ⟨hAttributed, hFew⟩
    have hCount {n : UInt32} {c : Nat} (hn : n = UInt32.ofNat c) (hc : c < 2 ^ 32) : n.toNat = c := by
      rw [hn, UInt32.toNat_ofNat_of_lt' hc]
    refine ⟨hCount hPassed (by omega), hCount hFailed (by omega), hCount hSkipped (by omega), ?_,
      hTold.trans (hFailures.mpr hAttributed)⟩
    refine hCount ?_ hFew
    rw [UInt32.ofNat_add, UInt32.ofNat_add, ← hPassed, ← hFailed, ← hSkipped]

section Examples

def goJson (e : TestEvent) : List Char × Value :=
  (("\x7b\"Action\":\"" ++ e.action.name ++ "\",\"Package\":\"" ++ e.package ++ "\",\"Test\":\"" ++
      e.test ++ "\",\"Output\":\"" ++ e.action.text ++ "\"\x7d").toList,
    .object [("Action", .string e.action.name), ("Package", .string e.package), ("Test", .string e.test),
      ("Output", .string e.action.text)])

/-- `serde_json::from_str` on the lines of some events. -/
def goParse (events : List TestEvent) (line : List Char) : Option Value := (events.map goJson).lookup line

def goText (events : List TestEvent) : List Char := Text.terminated (events.map fun e => (goJson e).1)

def bothFail : List TestEvent :=
  [⟨"a", "TestRun", .output "A"⟩, ⟨"b", "TestRun", .output "B"⟩, ⟨"a", "TestRun", .fail⟩,
    ⟨"b", "TestRun", .fail⟩]

theorem bothFail_wellFormed : WellFormed bothFail := by
  intro package test hTest
  by_cases hName : "TestRun" = test
  · subst hName
    by_cases ha : "a" = package
    · subst ha
      exact .inr ⟨[⟨"a", "TestRun", .output "A"⟩], ⟨"a", "TestRun", .fail⟩, by decide, by decide, rfl⟩
    · by_cases hb : "b" = package
      · subst hb
        exact .inr ⟨[⟨"b", "TestRun", .output "B"⟩], ⟨"b", "TestRun", .fail⟩, by decide, by decide, rfl⟩
      · exact .inl (by simp [ownEvents, bothFail, ha, hb])
  · exact .inl (by simp [ownEvents, bothFail, hName])

theorem encodes_goJson {e : TestEvent} (h : ∀ name, e.action ≠ .other name) : Encodes (goJson e).2 e where
  action := rfl
  package := rfl
  test := rfl
  output := by
    intro text hText
    rw [goJson, hText]
    rfl
  other := fun name hName => absurd hName (h name)

theorem goJson_trimmed (e : TestEvent) :
    ((goJson e).1.dropWhile isWhitespace).rdropWhile isWhitespace = (goJson e).1 := by
  have hOpen : ¬isWhitespace '\x7b' = true := by decide
  have hClose : ¬isWhitespace '\x7d' = true := by decide
  obtain ⟨middle, hText⟩ : ∃ middle, (goJson e).1 = '\x7b' :: (middle ++ ['\x7d']) := by
    simp only [goJson, String.toList_append, String.reduceToList]
    rw [List.append_cons _ '\"' ['\x7d']]
    exact ⟨_, rfl⟩
  rw [hText, List.dropWhile_cons_of_neg hOpen, ← List.cons_append, List.rdropWhile_concat_neg _ _ _ hClose]

theorem bothFail_prints :
    List.Forall₂ (Prints (goParse bothFail)) (Text.lines (goText bothFail)) bothFail := by
  have hLines : Text.lines (goText bothFail) = bothFail.map fun e => (goJson e).1 := by
    simp only [goText, bothFail, goJson, List.map_cons, List.map_nil, String.toList_append, TestAction.name,
      TestAction.text, String.reduceToList, List.cons_append, List.nil_append]
    decide
  have hParse : ∀ e ∈ bothFail, goParse bothFail (goJson e).1 = some (goJson e).2 := by
    simp only [goParse, bothFail, goJson, List.map_cons, List.map_nil, String.toList_append, TestAction.name,
      TestAction.text, String.reduceToList, List.cons_append, List.nil_append, List.forall_mem_cons]
    exact ⟨rfl, rfl, rfl, rfl, List.forall_mem_nil _⟩
  have hEncodes : ∀ e ∈ bothFail, Encodes (goJson e).2 e := fun e he => by
    refine encodes_goJson fun name hName => ?_
    simp only [bothFail, List.mem_cons, List.not_mem_nil, or_false] at he
    rcases he with rfl | rfl | rfl | rfl <;> cases hName
  rw [hLines]
  refine List.forall₂_map_left_iff.mpr (List.forall₂_same.mpr fun e he => ?_)
  rw [Prints, goJson_trimmed]
  refine ⟨?_, _, hParse e he, hEncodes e he⟩
  simp only [goJson, String.toList_append, String.reduceToList, List.cons_append, ne_eq, reduceCtorEq, not_false_eq_true]

/-- Two failing tests whose outputs are interleaved. -/
theorem bothFail_report : ∃ r, parseGoTestOutput (goParse bothFail) (fun _ => "") (Utf8.encode (goText bothFail)) 0 =
    .ok r ∧ (Reports bothFail r ↔ Attributed bothFail ∧
      ended bothFail .pass + ended bothFail .fail + ended bothFail .skip < 2 ^ 32) :=
  reports_iff _ _ bothFail_prints bothFail_wellFormed 0

/-- The first failure has the output of both tests, and the second one has none. -/
theorem bothFail_told : List.Forall₂ (Prints (goParse bothFail)) (Text.lines (goText bothFail)) bothFail ∧
    WellFormed bothFail ∧
    ∃ r, parseGoTestOutput (goParse bothFail) (fun _ => "") (Utf8.encode (goText bothFail)) 0 = .ok r ∧
      r.failures = [⟨"TestRun", "AB"⟩, ⟨"TestRun", ""⟩] ∧ ¬Reports bothFail r := by
  obtain ⟨r, hParse, hTold⟩ := parseGoTestOutput_told (goParse bothFail) (fun _ => "") bothFail_prints 0
  have hFailures : told [] bothFail = [⟨"TestRun", "AB"⟩, ⟨"TestRun", ""⟩] := by decide
  refine ⟨bothFail_prints, bothFail_wellFormed, r, hParse, hTold.trans hFailures, fun hReports => ?_⟩
  have hOwn := (hTold.trans hFailures).symm.trans hReports.failures
  exact absurd hOwn (by decide)

end Examples

end Cronymax.Capability
