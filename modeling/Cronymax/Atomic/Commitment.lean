import Cronymax.Atomic.Monitor

/-! Programs that commit to an action.  A program is bound to act when every execution performs such an
action; it may act at most once; and it becomes bound only by steps that admit it. -/

namespace Atomic

universe u

namespace Prog

variable {A B σ τ ε ε' α β : Type u}

/-- Every end comes after an access of this kind. -/
def Bound (P : A → Prop) : Prog A σ ε α → Prop
  | .done _ => False
  | .fail _ => False
  | .act x next => P x ∨ ∀ s, (next s).Bound P

/-- After an action in `P` the program performs no other. -/
def Once (P : A → Prop) : Prog A σ ε α → Prop
  | .done _ => True
  | .fail _ => True
  | .act x next => ∀ s, (next s).Once P ∧ (P x → (next s).Only fun y => ¬P y)

/-- The access that binds the program to one of this kind meets such a state. -/
def BindsBy (P : A → Prop) (Q : A → σ → Prop) : Prog A σ ε α → Prop
  | .done _ => True
  | .fail _ => True
  | .act x next =>
    ∀ s, (next s).BindsBy P Q ∧ ((next s).Bound P → (Prog.act x next).Bound P ∨ Q x s)

/-- The program never fails. -/
def Total : Prog A σ ε α → Prop
  | .done _ => True
  | .fail _ => False
  | .act _ next => ∀ s, (next s).Total

variable {P : A → Prop} {Q : A → σ → Prop} {p : Prog A σ ε α} {f : α → Prog A σ ε β}

theorem total_attempt (p : Prog A σ ε α) : p.attempt.Total := by
  induction p with
  | done a => trivial
  | fail e => trivial
  | act x next ih => exact ih

theorem Total.bind (hp : p.Total) (hf : ∀ a, (f a).Total) : (p >>= f).Total := by
  induction p with
  | done a => exact hf a
  | fail e => exact hp
  | act x next ih => exact fun s => ih s (hp s)

theorem Total.within {g : A → B} {view : τ → σ} {m : ε → ε'} (h : p.Total) :
    (p.within g view m).Total := by
  induction p with
  | done a => trivial
  | fail e => exact h
  | act x next ih => exact fun t => ih (view t) (h (view t))

theorem Total.yields (hp : p.Total) {tr : List (A × σ)} {r : Except ε α} (h : Yields p tr r) :
    ∃ a, r = .ok a := by
  induction h with
  | done a => exact ⟨a, rfl⟩
  | fail e => exact hp.elim
  | act tail ih => exact ih (hp _)

theorem Total.yields_bind (hp : p.Total) {tr : List (A × σ)} {r : Except ε β}
    (h : Yields (p >>= f) tr r) :
    ∃ a tr1 tr2, tr = tr1 ++ tr2 ∧ Yields p tr1 (.ok a) ∧ Yields (f a) tr2 r := by
  obtain hBoth | ⟨e, -, hFail⟩ := Prog.yields_bind.mp h
  · exact hBoth
  · obtain ⟨a, hOk⟩ := hp.yields hFail
    cases hOk

theorem Total.returns {M : Type*} {W : Watch M A σ} {R : Except ε α → M → Prop} {m : M} (hp : p.Total)
    (h : p.Meets W R m) : p.Meets W (Returns fun a m => R (.ok a) m) m := by
  induction p generalizing m with
  | done a => exact h
  | fail e => exact hp.elim
  | act x next ih => exact fun s hs => ⟨(h s hs).1, ih s (hp s) (h s hs).2⟩

theorem Bound.bind (hp : p.Total) (hf : ∀ a, (f a).Bound P) : (p >>= f).Bound P := by
  induction p with
  | done a => exact hf a
  | fail e => exact hp.elim
  | act x next ih => exact .inr fun s => ih s (hp s)

theorem not_bound_act {x : A} {next : σ → Prog A σ ε α} (hx : ¬P x) (s : σ)
    (hNext : ¬(next s).Bound P) : ¬(Prog.act x next).Bound P :=
  fun hBound => hBound.elim hx fun h => hNext (h s)

section Idle

variable [Nonempty σ]

theorem Only.not_bound_bind (hp : p.Only fun x => ¬P x) (hf : ∀ a, ¬(f a).Bound P) :
    ¬(p >>= f).Bound P := by
  induction p with
  | done a => exact hf a
  | fail e => exact id
  | act x next ih =>
    obtain ⟨s⟩ := ‹Nonempty σ›
    exact not_bound_act hp.1 s (ih s (hp.2 s))

theorem Only.not_bound (hp : p.Only fun x => ¬P x) : ¬p.Bound P := by
  induction p with
  | done a => exact id
  | fail e => exact id
  | act x next ih =>
    obtain ⟨s⟩ := ‹Nonempty σ›
    exact not_bound_act hp.1 s (ih s (hp.2 s))

end Idle

theorem Only.once (hp : p.Only fun x => ¬P x) : p.Once P := by
  induction p with
  | done a => trivial
  | fail e => trivial
  | act x next ih => exact fun s => ⟨ih s (hp.2 s), fun hx => absurd hx hp.1⟩

theorem Only.once_bind (hp : p.Only fun x => ¬P x) (hf : ∀ a, (f a).Once P) : (p >>= f).Once P := by
  induction p with
  | done a => exact hf a
  | fail e => trivial
  | act x next ih => exact fun s => ⟨ih s (hp.2 s), fun hx => absurd hx hp.1⟩

theorem once_perform {x : A} {f : σ → Prog A σ ε α} (hf : ∀ s, (f s).Only fun y => ¬P y) :
    (Prog.perform x >>= f).Once P :=
  fun s => ⟨(hf s).once, fun _ => hf s⟩

theorem Only.bindsBy [Nonempty σ] (hp : p.Only fun x => ¬P x) : p.BindsBy P Q := by
  induction p with
  | done a => trivial
  | fail e => trivial
  | act x next ih =>
    exact fun s => ⟨ih s (hp.2 s), fun h => absurd h (hp.2 s).not_bound⟩

theorem Bound.bindsBy [Nonempty σ] (hp : p.Bound P) (hOnce : p.Once P) : p.BindsBy P Q := by
  induction p with
  | done a => trivial
  | fail e => trivial
  | act x next ih =>
    refine fun s => ⟨?_, fun _ => .inl hp⟩
    obtain hx | hAll := hp
    · exact Only.bindsBy ((hOnce s).2 hx)
    · exact ih s (hAll s) (hOnce s).1

theorem Only.bindsBy_bind [Nonempty σ] (hp : p.Only fun x => ¬P x) (hf : ∀ a, (f a).BindsBy P Q)
    (hOpen : ∀ a, ¬(f a).Bound P) : (p >>= f).BindsBy P Q := by
  induction p with
  | done a => exact hf a
  | fail e => trivial
  | act x next ih =>
    exact fun s => ⟨ih s (hp.2 s), fun h => absurd h ((hp.2 s).not_bound_bind hOpen)⟩

end Prog

end Atomic
