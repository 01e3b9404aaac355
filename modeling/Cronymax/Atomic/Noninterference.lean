import Cronymax.Atomic.History

/-! Noninterference.  The calls of a system have owners, and each owner sees a part of the state.  No owner
is disturbed if after every part of a history it sees what it would see after its own calls alone. -/

namespace Atomic.Noninterference

open History (play Each)

variable {σ C E V : Type*} [DecidableEq E] (step : σ → C → σ) (owner : C → E) (view : E → σ → V)

/-- The calls of one owner. -/
def own (A : E) (cs : List C) : List C := cs.filter (owner · = A)

/-- No call of another owner changes what this one sees. -/
def Undisturbed (s : σ) (cs : List C) : Prop :=
  ∀ done rest, cs = done ++ rest →
    ∀ A, view A (play step s done) = view A (play step s (own owner A done))

/-- One step of the run with the calls of others left out. -/
def follow (A : E) (t : σ) (c : C) : σ := if owner c = A then step t c else t

variable {step owner view}

theorem follow_own {A : E} {t : σ} {c : C} (h : owner c = A) : follow step owner A t c = step t c :=
  if_pos h

theorem follow_other {A : E} {t : σ} {c : C} (h : owner c ≠ A) : follow step owner A t c = t :=
  if_neg h

theorem play_own_cons (A : E) (t : σ) (c : C) (cs : List C) :
    play step t (own owner A (c :: cs)) = play step (follow step owner A t c) (own owner A cs) := by
  unfold own
  by_cases h : owner c = A
  · rw [List.filter_cons_of_pos (by simpa using h), follow_own h]
    rfl
  · rw [List.filter_cons_of_neg (by simpa using h), follow_other h]

section

variable {P : σ → C → Prop} (R : E → σ → σ → Prop)
  (hView : ∀ A s t, R A s t → view A s = view A t)
  (hMine : ∀ s t c, R (owner c) s t → P s c → R (owner c) (step s c) (step t c))
  (hOther : ∀ A s t c, owner c ≠ A → R A s t → P s c → R A (step s c) t)
  (hMust : ∀ s c (t : E → σ), (∀ A, R A s (t A)) →
    (∀ A, view A (step s c) = view A (follow step owner A (t A) c)) → P s c)

include hView hMine hOther hMust

theorem alike_iff (cs : List C) : ∀ (s : σ) (t : E → σ), (∀ A, R A s (t A)) →
    ((∀ done rest, cs = done ++ rest →
        ∀ A, view A (play step s done) = view A (play step (t A) (own owner A done))) ↔
      Each step P s cs) := by
  induction cs with
  | nil =>
    refine fun s t hR => iff_of_true (fun done rest hSplit A => ?_) trivial
    obtain ⟨rfl, -⟩ := List.append_eq_nil_iff.mp hSplit.symm
    exact hView A s (t A) (hR A)
  | cons c cs ih =>
    intro s t hR
    have hNext : P s c → ∀ A, R A (step s c) (follow step owner A (t A) c) := by
      intro hP A
      by_cases hOwn : owner c = A
      · rw [follow_own hOwn]
        subst hOwn
        exact hMine s _ c (hR _) hP
      · rw [follow_other hOwn]
        exact hOther A s (t A) c hOwn (hR A) hP
    constructor
    · intro hAlike
      have hP : P s c := hMust s c t hR fun A => by
        have hOne := hAlike [c] cs rfl A
        rwa [play_own_cons] at hOne
      refine ⟨hP, (ih _ _ (hNext hP)).mp fun done rest hSplit A => ?_⟩
      have hMore := hAlike (c :: done) rest (by rw [hSplit, List.cons_append]) A
      rwa [play_own_cons] at hMore
    · rintro ⟨hP, hEach⟩ done rest hSplit A
      cases done with
      | nil => exact hView A s (t A) (hR A)
      | cons c' done =>
        obtain ⟨rfl, hRest⟩ := List.cons.inj hSplit
        rw [play_own_cons]
        exact (ih _ _ (hNext hP)).mpr hEach done rest hRest A

theorem undisturbed_iff {s : σ} (hStart : ∀ A, R A s s) (cs : List C) :
    Undisturbed step owner view s cs ↔ Each step P s cs :=
  alike_iff R hView hMine hOther hMust cs s (fun _ => s) hStart

end

end Atomic.Noninterference

namespace Atomic.Isolation

variable {σ C ω : Type*} (step : σ → C → ω × σ) (mine : C → Bool)

/-- What the calls of a run are answered. -/
def answers : σ → List C → List ω
  | _, [] => []
  | s, c :: cs =>
    if mine c then (step s c).1 :: answers (step s c).2 cs else answers (step s c).2 cs

@[simp] theorem answers_nil (s : σ) : answers step mine s [] = [] := rfl

variable {step mine} {s t : σ} {c : C}

theorem answers_mine (h : mine c) (cs : List C) :
    answers step mine s (c :: cs) = (step s c).1 :: answers step mine (step s c).2 cs := by
  simp [answers, h]

theorem answers_other (h : ¬mine c) (cs : List C) :
    answers step mine s (c :: cs) = answers step mine (step s c).2 cs := by
  simp [answers, h]

theorem answers_eq_own_of_each {P : σ → C → Prop} {R : σ → σ → Prop} {cs : List C}
    (hMine : ∀ s t c, P s c → mine c → R s t →
      (step s c).1 = (step t c).1 ∧ R (step s c).2 (step t c).2)
    (hOther : ∀ s t c, P s c → ¬mine c → R s t → R (step s c).2 t) (hR : R s t)
    (hEach : History.Each (fun s c => (step s c).2) P s cs) :
    answers step mine s cs = answers step mine t (cs.filter mine) := by
  induction cs generalizing s t with
  | nil => rfl
  | cons c cs ih =>
    obtain ⟨hP, hEach⟩ := hEach
    by_cases h : mine c
    · obtain ⟨hAnswer, hNext⟩ := hMine s t c hP h hR
      rw [List.filter_cons_of_pos h, answers_mine h, answers_mine h, hAnswer, ih hNext hEach]
    · rw [List.filter_cons_of_neg h, answers_other h, ih (hOther s t c hP h hR) hEach]

theorem answers_eq_own {R : σ → σ → Prop} {cs : List C}
    (hMine : ∀ s t, ∀ c ∈ cs, mine c → R s t → (step s c).1 = (step t c).1 ∧ R (step s c).2 (step t c).2)
    (hOther : ∀ s t, ∀ c ∈ cs, ¬mine c → R s t → R (step s c).2 t) (hR : R s t) :
    answers step mine s cs = answers step mine t (cs.filter mine) :=
  answers_eq_own_of_each (P := fun _ c => c ∈ cs) hMine hOther hR (History.each_of_mem fun _ _ hc => hc)

end Atomic.Isolation
