import Mathlib.Data.List.Basic
import Mathlib.Tactic.Tauto

/-! Histories: the calls that a system receives one after the other.  `play` is the state that a
history leaves, and `Each` says that every call of a history meets a condition in the state that it
finds. -/

namespace Atomic.History

variable {σ C : Type*} (step : σ → C → σ)

/-- The state after these calls. -/
def play (s : σ) (cs : List C) : σ := cs.foldl step s

/-- Every call of the run meets the condition where it is made. -/
def Each (P : σ → C → Prop) : σ → List C → Prop
  | _, [] => True
  | s, c :: cs => P s c ∧ Each P (step s c) cs

instance Each.decidable (P : σ → C → Prop) [∀ s c, Decidable (P s c)] :
    ∀ (s : σ) (cs : List C), Decidable (Each step P s cs)
  | _, [] => isTrue trivial
  | s, c :: cs =>
    have := Each.decidable P (step s c) cs
    inferInstanceAs (Decidable (P s c ∧ Each step P (step s c) cs))

variable {step} {P : σ → C → Prop} {s : σ}

@[simp] theorem play_nil : play step s [] = s := rfl

@[simp] theorem play_cons (c : C) (cs : List C) : play step s (c :: cs) = play step (step s c) cs :=
  rfl

@[simp] theorem play_append (cs cs' : List C) :
    play step s (cs ++ cs') = play step (play step s cs) cs' := by
  simp [play, List.foldl_append]

theorem each_append {cs cs' : List C} :
    Each step P s (cs ++ cs') ↔ Each step P s cs ∧ Each step P (play step s cs) cs' := by
  induction cs generalizing s with
  | nil => simp [Each]
  | cons c cs ih => simp only [List.cons_append, Each, ih, play_cons, and_assoc]

theorem invariant {I : List C → σ → Prop} (hStart : I [] s)
    (hStep : ∀ done t c, I done t → P t c → I (done ++ [c]) (step t c)) {cs : List C}
    (hEach : Each step P s cs) : I cs (play step s cs) := by
  suffices h : ∀ (rest done : List C) (t : σ), I done t → Each step P t rest →
      I (done ++ rest) (play step t rest) by
    simpa using h cs [] s hStart hEach
  intro rest
  induction rest with
  | nil =>
    intro done t hI _
    simpa using hI
  | cons c rest ih =>
    intro done t hI hEach
    have := ih (done ++ [c]) (step t c) (hStep done t c hI hEach.1) hEach.2
    simpa using this

theorem preserves {I : σ → Prop} (hStep : ∀ t c, I t → P t c → I (step t c)) {cs : List C}
    (hEach : Each step P s cs) (hs : I s) : I (play step s cs) :=
  invariant (I := fun _ t => I t) hs (fun _ t c => hStep t c) hEach

theorem each_congr {Q : σ → C → Prop} {I : σ → Prop} (hs : I s)
    (hStep : ∀ t c, I t → P t c → I (step t c)) (hIff : ∀ t c, I t → (P t c ↔ Q t c)) (cs : List C) :
    Each step P s cs ↔ Each step Q s cs := by
  induction cs generalizing s with
  | nil => exact Iff.rfl
  | cons c cs ih =>
    constructor
    · rintro ⟨hP, hEach⟩
      exact ⟨(hIff s c hs).mp hP, (ih (hStep s c hs hP)).mp hEach⟩
    · rintro ⟨hQ, hEach⟩
      have hP := (hIff s c hs).mpr hQ
      exact ⟨hP, (ih (hStep s c hs hP)).mpr hEach⟩

theorem each_congr_of_each {Q R : σ → C → Prop} (hIff : ∀ t c, P t c → (Q t c ↔ R t c)) {cs : List C}
    (hEach : Each step P s cs) : Each step Q s cs ↔ Each step R s cs := by
  induction cs generalizing s with
  | nil => exact Iff.rfl
  | cons c cs ih => exact and_congr (hIff s c hEach.1) (ih hEach.2)

theorem written_iff {β : Type*} {view : σ → List β} {out : C → List β} (cs : List C) :
    (∀ done rest, cs = done ++ rest → view (play step s done) = view s ++ done.flatMap out) ↔
      Each step (fun t c => view (step t c) = view t ++ out c) s cs := by
  induction cs generalizing s with
  | nil =>
    refine iff_of_true (fun done rest h => ?_) trivial
    obtain ⟨rfl, -⟩ := List.append_eq_nil_iff.mp h.symm
    simp
  | cons c cs ih =>
    constructor
    · intro h
      have hFirst : view (step s c) = view s ++ out c := by simpa using h [c] cs rfl
      refine ⟨hFirst, ih.mp fun done rest hSplit => ?_⟩
      have hRest := h (c :: done) rest (by rw [hSplit, List.cons_append])
      rw [hFirst, List.append_assoc]
      exact hRest
    · rintro ⟨hFirst, hEach⟩ done rest hSplit
      cases done with
      | nil => simp
      | cons c' done =>
        obtain ⟨rfl, hRest⟩ := List.cons.inj hSplit
        rw [play_cons, ih.mpr hEach done rest hRest, hFirst, List.append_assoc]
        rfl

theorem each_and {Q : σ → C → Prop} (cs : List C) :
    Each step (fun t c => P t c ∧ Q t c) s cs ↔ Each step P s cs ∧ Each step Q s cs := by
  induction cs generalizing s with
  | nil => simp [Each]
  | cons c cs ih =>
    simp only [Each, ih]
    tauto

/-- What follows, call by call, from an invariant that the calls keep. -/
theorem each_of_invariant {Q : σ → C → Prop} {I : σ → Prop}
    (hStep : ∀ t c, I t → P t c → I (step t c) ∧ Q t c) {cs : List C} (hEach : Each step P s cs)
    (hs : I s) : Each step Q s cs := by
  induction cs generalizing s with
  | nil => trivial
  | cons c cs ih =>
    obtain ⟨hNext, hQ⟩ := hStep s c hs hEach.1
    exact ⟨hQ, ih hEach.2 hNext⟩

/-- Some call of the run does. -/
def Any (step : σ → C → σ) (P : σ → C → Prop) : σ → List C → Prop
  | _, [] => False
  | s, c :: cs => P s c ∨ Any step P (step s c) cs

theorem any_of_turn {Q : σ → Prop} {R : σ → C → Prop}
    (hStep : ∀ t c, P t c → ¬Q t → Q (step t c) → R t c) {cs : List C} (hEach : Each step P s cs)
    (hs : ¬Q s) (hEnd : Q (play step s cs)) : Any step R s cs := by
  induction cs generalizing s with
  | nil => exact absurd hEnd hs
  | cons c cs ih =>
    by_cases hQ : Q (step s c)
    · exact .inl (hStep s c hEach.1 hs hQ)
    · exact .inr (ih hEach.2 hQ hEnd)

theorem each_of_mem {cs : List C} (h : ∀ s, ∀ c ∈ cs, P s c) : Each step P s cs := by
  induction cs generalizing s with
  | nil => trivial
  | cons c cs ih => exact ⟨h s c List.mem_cons_self, ih fun t d hd => h t d (List.mem_cons_of_mem c hd)⟩

theorem each_true (cs : List C) : Each step (fun _ _ => True) s cs := by
  induction cs generalizing s with
  | nil => trivial
  | cons c cs ih => exact ⟨trivial, ih⟩

end Atomic.History
