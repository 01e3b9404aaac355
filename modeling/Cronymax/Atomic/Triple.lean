import Cronymax.Atomic.Program

/-! Programs that run alone, with pre- and postconditions.  A triple says what a run from a state
that meets the precondition leaves, and what it returns if it returns without an error; the rules
compose triples along a program.  `Goes` says of a single run what it leaves, its trace included. -/

namespace Atomic.Prog

universe u

variable {A σ ε α β γ : Type u} [Acts A σ] {P R E : σ → Prop} {Q : α → σ → Prop}

/-- From such a state the program ends in such a one, or fails in such a one. -/
def Triple (P : σ → Prop) (p : Prog A σ ε α) (Q : α → σ → Prop) (E : σ → Prop) : Prop :=
  ∀ s, P s → match p.run s with
    | (.ok a, t) => Q a t
    | (.error _, t) => E t

namespace Triple

theorem done {a : α} (h : ∀ s, P s → Q a s) : Triple P (.done a : Prog A σ ε α) Q E := h

theorem fail {e : ε} (h : ∀ s, P s → E s) : Triple P (.fail e : Prog A σ ε α) Q E := h

theorem act {x : A} {next : σ → Prog A σ ε α}
    (h : ∀ s, P s → Triple (· = Acts.apply x s) (next s) Q E) : Triple P (.act x next) Q E :=
  fun s hs => h s hs _ rfl

theorem perform {x : A} {f : σ → Prog A σ ε α}
    (h : ∀ s, P s → Triple (· = Acts.apply x s) (f s) Q E) : Triple P (Prog.perform x >>= f) Q E :=
  .act h

theorem bind {p : Prog A σ ε α} {f : α → Prog A σ ε β} {Q' : β → σ → Prop} (hp : Triple P p Q E)
    (hf : ∀ a, Triple (Q a) (f a) Q' E) : Triple P (p >>= f) Q' E := by
  intro s hs
  have hFirst := hp s hs
  rw [run_bind]
  cases hRun : p.run s with
  | mk r t =>
    rw [hRun] at hFirst
    cases r with
    | ok a => exact hf a t hFirst
    | error e => exact hFirst

theorem mono {p : Prog A σ ε α} {P' E' : σ → Prop} {Q' : α → σ → Prop} (h : Triple P p Q E)
    (hP : ∀ s, P' s → P s) (hQ : ∀ a s, Q a s → Q' a s) (hE : ∀ s, E s → E' s) :
    Triple P' p Q' E' := by
  intro s hs
  have hRun := h s (hP s hs)
  cases hEnd : p.run s with
  | mk r t =>
    rw [hEnd] at hRun
    cases r with
    | ok a => exact hQ a t hRun
    | error e => exact hE t hRun

theorem attempt {p : Prog A σ ε α} (h : Triple P p Q E) :
    Triple P p.attempt (fun r t => match r with
      | .ok a => Q a t
      | .error _ => E t) E := by
  intro s hs
  have hRun := h s hs
  rw [run_attempt]
  cases hEnd : p.run s with
  | mk r t =>
    rw [hEnd] at hRun
    cases r <;> exact hRun

end Triple

variable {I : σ → Prop} {K : α → Prop}

/-- The program keeps `I`, also where it fails, and returns what meets `K`. -/
abbrev Keeps (I : σ → Prop) (p : Prog A σ ε α) (K : α → Prop) : Prop :=
  Triple I p (fun a s => I s ∧ K a) I

namespace Keeps

theorem done {a : α} (h : K a) : Keeps I (.done a : Prog A σ ε α) K := fun _ hs => ⟨hs, h⟩

theorem fail {e : ε} : Keeps I (.fail e : Prog A σ ε α) K := fun _ hs => hs

theorem act {x : A} {next : σ → Prog A σ ε α} (hx : ∀ s, I s → I (Acts.apply x s))
    (h : ∀ s, I s → Keeps I (next s) K) : Keeps I (.act x next) K :=
  fun s hs => h s hs _ (hx s hs)

theorem perform {x : A} {f : σ → Prog A σ ε α} (hx : ∀ s, I s → I (Acts.apply x s))
    (h : ∀ s, I s → Keeps I (f s) K) : Keeps I (Prog.perform x >>= f) K :=
  .act hx h

theorem bind {p : Prog A σ ε α} {f : α → Prog A σ ε β} {L : β → Prop} (hp : Keeps I p K)
    (hf : ∀ a, K a → Keeps I (f a) L) : Keeps I (p >>= f) L :=
  Triple.bind hp fun a _ ⟨hs, ha⟩ => hf a ha _ hs

theorem attempt {p : Prog A σ ε α} (h : Keeps I p K) : Keeps I p.attempt fun _ => True :=
  (Triple.attempt h).mono (fun _ hs => hs) (fun r t hr => ⟨by cases r <;> first | exact hr.1 | exact hr,
    trivial⟩) fun _ hs => hs

theorem attempted {p : Prog A σ ε α} (h : Keeps I p K) :
    Triple I p.attempt (fun _ => I) fun _ => False := by
  intro s hs
  have hRun := h s hs
  rw [run_attempt]
  cases hEnd : p.run s with
  | mk r t =>
    rw [hEnd] at hRun
    cases r with
    | ok a => exact hRun.1
    | error e => exact hRun

theorem of_only {p : Prog A σ ε α} {C : A → Prop} (hp : p.Only C)
    (hC : ∀ x, C x → ∀ s, I s → I (Acts.apply x s)) : Keeps I p fun _ => True := by
  induction p with
  | done a => exact .done trivial
  | fail e => exact .fail
  | act x next ih => exact .act (hC x hp.1) fun s _ => ih s (hp.2 s)

theorem collect {f : β → Prog A σ ε (List γ)} {L : γ → Prop} (bs : List β)
    (h : ∀ b ∈ bs, Keeps I (f b) fun cs => ∀ c ∈ cs, L c) :
    Keeps I (Prog.collect f bs) fun cs => ∀ c ∈ cs, L c := by
  induction bs with
  | nil => exact .done fun c hc => nomatch hc
  | cons b bs ih =>
    refine bind (h b List.mem_cons_self) fun first hFirst => ?_
    refine bind (ih fun b' hb' => h b' (List.mem_cons_of_mem _ hb')) fun rest hRest => ?_
    refine .done fun c hc => ?_
    rcases List.mem_append.mp hc with hc | hc
    · exact hFirst c hc
    · exact hRest c hc

end Keeps

/-- What the run from one state leaves: its trace, its result and its last state. -/
def Goes (p : Prog A σ ε α) (s : σ) (R : List (A × σ) → Except ε α → σ → Prop) : Prop :=
  R (p.trace s) (p.run s).1 (p.run s).2

namespace Goes

theorem mono {p : Prog A σ ε α} {s : σ} {R R' : List (A × σ) → Except ε α → σ → Prop} (h : Goes p s R)
    (hR : ∀ tr r t, R tr r t → R' tr r t) : Goes p s R' := hR _ _ _ h

theorem perform {x : A} {f : σ → Prog A σ ε α} {s : σ}
    {R : List (A × σ) → Except ε α → σ → Prop}
    (h : Goes (f s) (Acts.apply x s) fun tr => R ((x, s) :: tr)) : Goes (Prog.perform x >>= f) s R := h

end Goes

end Atomic.Prog
