import Cronymax.Atomic.Program

/-! Programs that are watched while their environment acts.  A watch has a state that every action
moves on, an assumption about each action and the state in which it is performed, and a demand that
the action has to meet while the assumptions have been met.  `Meets` is the weakest precondition of a
program for a watch, and `Meets.sound` brings it to every execution. -/

namespace Atomic

universe u v

theorem split_cases {α : Type u} {t rest pre post : List α} {a m : α} (h : t ++ a :: rest = pre ++ m :: post) :
    (∃ mid, t = pre ++ m :: mid ∧ post = mid ++ a :: rest) ∨
      (pre = t ∧ m = a ∧ post = rest) ∨
      ∃ mid, pre = t ++ a :: mid ∧ rest = mid ++ m :: post := by
  obtain ⟨mid, hPre, hRest⟩ | ⟨mid, hT, hRest⟩ := List.append_eq_append_iff.mp h
  · cases mid with
    | nil =>
      obtain ⟨rfl, rfl⟩ := List.cons.inj hRest
      exact .inr (.inl ⟨by simpa using hPre, rfl, rfl⟩)
    | cons b mid =>
      obtain ⟨rfl, hTail⟩ := List.cons.inj hRest
      exact .inr (.inr ⟨mid, hPre, hTail⟩)
  · cases mid with
    | nil =>
      obtain ⟨rfl, rfl⟩ := List.cons.inj hRest
      exact .inr (.inl ⟨by simpa using hT.symm, rfl, rfl⟩)
    | cons b mid =>
      obtain ⟨rfl, hTail⟩ := List.cons.inj hRest
      exact .inl ⟨mid, hT, hTail⟩

/-- A watch over the actions in `A` on the state `σ`. -/
structure Watch (M : Type v) (A σ : Type u) where
  assumes : M → A → σ → Prop
  demands : M → A → σ → Prop
  next : M → A → σ → M

namespace Watch

variable {M : Type v} {A σ : Type u} (W : Watch M A σ)

/-- The memory of a watch after a trace. -/
def after (m : M) (tr : List (A × σ)) : M := tr.foldl (fun m e => W.next m e.1 e.2) m

/-- The condition holds of every event of the trace, with the memory it meets. -/
def Along (P : M → A → σ → Prop) : M → List (A × σ) → Prop
  | _, [] => True
  | m, (x, s) :: tr => P m x s ∧ Along P (W.next m x s) tr

@[simp] theorem after_nil (m : M) : W.after m [] = m := rfl

@[simp] theorem after_cons (m : M) (x : A) (s : σ) (tr : List (A × σ)) :
    W.after m ((x, s) :: tr) = W.after (W.next m x s) tr := rfl

theorem after_append (m : M) (tr tr' : List (A × σ)) :
    W.after m (tr ++ tr') = W.after (W.after m tr) tr' :=
  List.foldl_append

variable {W} {P : M → A → σ → Prop} {m : M} {tr tr' : List (A × σ)}

theorem along_append : W.Along P m (tr ++ tr') ↔ W.Along P m tr ∧ W.Along P (W.after m tr) tr' := by
  induction tr generalizing m with
  | nil => simp [Along]
  | cons e tr ih =>
    obtain ⟨x, s⟩ := e
    simp only [List.cons_append, Along, ih, after_cons, and_assoc]

theorem Along.at {pre post : List (A × σ)} {x : A} {s : σ}
    (h : W.Along P m (pre ++ (x, s) :: post)) : P (W.after m pre) x s :=
  (along_append.mp h).2.1

theorem Along.forall {Q : A → σ → Prop} (h : W.Along P m tr) (hP : ∀ m x s, P m x s → Q x s) :
    ∀ e ∈ tr, Q e.1 e.2 := by
  induction tr generalizing m with
  | nil => simp
  | cons e tr ih =>
    intro e' he'
    obtain rfl | he' := List.mem_cons.mp he'
    · exact hP _ _ _ h.1
    · exact ih h.2 e' he'

theorem along_of_forall (h : ∀ m, ∀ e ∈ tr, P m e.1 e.2) : W.Along P m tr := by
  induction tr generalizing m with
  | nil => trivial
  | cons e tr ih =>
    exact ⟨h m e List.mem_cons_self, ih fun m e' he' => h m e' (List.mem_cons_of_mem _ he')⟩

/-- The same watch with other demands. -/
def demanding (W : Watch M A σ) (demands : M → A → σ → Prop) : Watch M A σ := { W with demands }

theorem along_demanding {demands : M → A → σ → Prop} :
    (W.demanding demands).Along P m tr ↔ W.Along P m tr := by
  induction tr generalizing m with
  | nil => exact Iff.rfl
  | cons e tr ih => exact and_congr_right fun _ => ih

def undisturbed {δ : Type v} [Acts A σ] (view : σ → δ) : Watch δ A σ where
  assumes d _ s := view s = d
  demands _ _ _ := True
  next _ x s := view (Acts.apply x s)

section Undisturbed

variable {δ : Type v} [Acts A σ] {view : σ → δ} {d : δ}

theorem undisturbed_after (hKeep : ∀ e ∈ tr, view (Acts.apply e.1 e.2) = view e.2)
    (h : (undisturbed view).Along (undisturbed view).assumes d tr) :
    (undisturbed view).after d tr = d := by
  induction tr generalizing d with
  | nil => rfl
  | cons e tr ih =>
    obtain ⟨hHere, hRest⟩ := h
    have hNext : view (Acts.apply e.1 e.2) = d := (hKeep e List.mem_cons_self).trans hHere
    rw [← hNext]
    exact ih (fun e' he' => hKeep e' (List.mem_cons_of_mem _ he')) hRest

theorem undisturbed_of_chained {s : σ} (h : Prog.Chained s tr) :
    (undisturbed view).Along (undisturbed view).assumes (view s) tr := by
  induction tr generalizing s with
  | nil => trivial
  | cons e tr ih =>
    obtain ⟨rfl, hRest⟩ := h
    exact ⟨rfl, ih hRest⟩

theorem undisturbed_after_of_chained {s : σ} (h : Prog.Chained s tr) :
    (undisturbed view).after (view s) tr = view (Prog.after s tr) := by
  induction tr generalizing s with
  | nil => rfl
  | cons e tr ih =>
    obtain ⟨rfl, hRest⟩ := h
    exact ih hRest

end Undisturbed

end Watch

namespace Prog

variable {M : Type v} {A B σ τ ε ε' α β : Type u}

/-- As long as the assumptions of the watch are met, the program meets its demands and ends as `Q` asks,
whatever the environment does. -/
def Meets (W : Watch M A σ) : Prog A σ ε α → (Except ε α → M → Prop) → M → Prop
  | .done a, Q, m => Q (.ok a) m
  | .fail e, Q, m => Q (.error e) m
  | .act x next, Q, m =>
    ∀ s, W.assumes m x s → W.demands m x s ∧ (next s).Meets W Q (W.next m x s)

/-- The program returns such a result. -/
def Returns (P : α → M → Prop) : Except ε α → M → Prop
  | .ok a, m => P a m
  | .error _, _ => False

variable {W : Watch M A σ} {Q : Except ε α → M → Prop} {m : M}

@[simp] theorem meets_done {a : α} : (.done a : Prog A σ ε α).Meets W Q m ↔ Q (.ok a) m := Iff.rfl

@[simp] theorem meets_fail {e : ε} : (.fail e : Prog A σ ε α).Meets W Q m ↔ Q (.error e) m := Iff.rfl

namespace Meets

theorem mono {p : Prog A σ ε α} {Q' : Except ε α → M → Prop} (h : p.Meets W Q m)
    (hQ : ∀ r m, Q r m → Q' r m) : p.Meets W Q' m := by
  induction p generalizing m with
  | done a => exact hQ _ m h
  | fail e => exact hQ _ m h
  | act x next ih => exact fun s hs => ⟨(h s hs).1, ih s (h s hs).2⟩

theorem perform {x : A} {f : σ → Prog A σ ε α}
    (h : ∀ s, W.assumes m x s → W.demands m x s ∧ (f s).Meets W Q (W.next m x s)) :
    (Prog.perform x >>= f).Meets W Q m := h

theorem bind {p : Prog A σ ε α} {f : α → Prog A σ ε β} {R : Except ε β → M → Prop}
    (hp : p.Meets W Q m) (hOk : ∀ a m, Q (.ok a) m → (f a).Meets W R m)
    (hError : ∀ e m, Q (.error e) m → R (.error e) m) : (p >>= f).Meets W R m := by
  induction p generalizing m with
  | done a => exact hOk a m hp
  | fail e => exact hError e m hp
  | act x next ih => exact fun s hs => ⟨(hp s hs).1, ih s (hp s hs).2⟩

theorem andThen {p : Prog A σ ε α} {f : α → Prog A σ ε β} {P : α → M → Prop}
    {R : Except ε β → M → Prop} (hp : p.Meets W (Returns P) m)
    (hf : ∀ a m, P a m → (f a).Meets W R m) : (p >>= f).Meets W R m :=
  hp.bind hf fun _ _ hFalse => hFalse.elim

theorem attempt {p : Prog A σ ε α} {R : Except ε (Except ε α) → M → Prop} (h : p.Meets W Q m)
    (hQ : ∀ r m, Q r m → R (.ok r) m) : p.attempt.Meets W R m := by
  induction p generalizing m with
  | done a => exact hQ _ m h
  | fail e => exact hQ _ m h
  | act x next ih => exact fun s hs => ⟨(h s hs).1, ih s (h s hs).2⟩

/-- A program all of whose actions meet the demands and keep an invariant of the watch. -/
theorem of_only {p : Prog A σ ε α} {C : A → Prop} {I : M → Prop} (hp : p.Only C)
    (hC : ∀ x, C x → ∀ m s, I m → W.assumes m x s → W.demands m x s ∧ I (W.next m x s)) (hm : I m) :
    p.Meets W (fun _ m' => I m') m := by
  induction p generalizing m with
  | done a => exact hm
  | fail e => exact hm
  | act x next ih =>
    intro s hAssumes
    obtain ⟨hDemands, hNext⟩ := hC x hp.1 m s hm hAssumes
    exact ⟨hDemands, ih s (hp.2 s) hNext⟩

theorem sound_start {p : Prog A σ ε α} (h : p.Meets W Q m) {tr rest : List (A × σ)}
    {r : Except ε α} (hp : Yields p (tr ++ rest) r) (hAssumes : W.Along W.assumes m tr) :
    W.Along W.demands m tr := by
  induction tr generalizing p m with
  | nil => trivial
  | cons e tr ih =>
    cases hp with
    | act tail => exact ⟨(h _ hAssumes.1).1, ih (h _ hAssumes.1).2 tail hAssumes.2⟩

theorem sound {p : Prog A σ ε α} (h : p.Meets W Q m) {tr : List (A × σ)} {r : Except ε α}
    (hp : Yields p tr r) (hAssumes : W.Along W.assumes m tr) :
    W.Along W.demands m tr ∧ Q r (W.after m tr) := by
  induction hp generalizing m with
  | done a => exact ⟨trivial, h⟩
  | fail e => exact ⟨trivial, h⟩
  | act tail ih =>
    obtain ⟨hDemands, hNext⟩ := h _ hAssumes.1
    obtain ⟨hRest, hEnd⟩ := ih hNext hAssumes.2
    exact ⟨⟨hDemands, hRest⟩, hEnd⟩

end Meets

/-- The program as a part of a larger one. -/
def within (f : A → B) (view : τ → σ) (g : ε → ε') : Prog A σ ε α → Prog B τ ε' α
  | .done a => .done a
  | .fail e => .fail (g e)
  | .act x next => .act (f x) fun t => (next (view t)).within f view g

variable {f : A → B} {view : τ → σ} {g : ε → ε'}

@[simp] theorem within_done (a : α) :
    (.done a : Prog A σ ε α).within f view g = .done a := rfl

@[simp] theorem within_fail (e : ε) :
    (.fail e : Prog A σ ε α).within f view g = .fail (g e) := rfl

@[simp] theorem within_act (x : A) (next : σ → Prog A σ ε α) :
    (Prog.act x next).within f view g =
      .act (f x) fun t => (next (view t)).within f view g := rfl

theorem within_bind (p : Prog A σ ε α) (k : α → Prog A σ ε β) :
    (p >>= k).within f view g = p.within f view g >>= fun a => (k a).within f view g := by
  induction p with
  | done a => rfl
  | fail e => rfl
  | act x next ih => exact congrArg (Prog.act (f x)) (funext fun t => ih (view t))

theorem Meets.within {W : Watch M A σ} {V : Watch M B τ} {p : Prog A σ ε α}
    {Q : Except ε α → M → Prop} {R : Except ε' α → M → Prop} {m : M} (h : p.Meets W Q m)
    (hAssumes : ∀ m x t, V.assumes m (f x) t → W.assumes m x (view t))
    (hDemands : ∀ m x t, W.demands m x (view t) → V.demands m (f x) t)
    (hNext : ∀ m x t, V.next m (f x) t = W.next m x (view t))
    (hQ : ∀ r m, Q r m → R (r.mapError g) m) : (p.within f view g).Meets V R m := by
  induction p generalizing m with
  | done a => exact hQ _ m h
  | fail e => exact hQ _ m h
  | act x next ih =>
    intro t ht
    obtain ⟨hHere, hRest⟩ := h (view t) (hAssumes m x t ht)
    refine ⟨hDemands m x t hHere, ?_⟩
    rw [hNext]
    exact ih (view t) hRest

theorem yields_within {p : Prog A σ ε α} {tr : List (B × τ)} {r : Except ε' α}
    (h : Yields (p.within f view g) tr r) : ∃ tr' r', Yields p tr' r' ∧ r = r'.mapError g := by
  induction p generalizing tr with
  | done a =>
    cases h
    exact ⟨[], _, .done a, rfl⟩
  | fail e =>
    cases h
    exact ⟨[], _, .fail e, rfl⟩
  | act x next ih =>
    cases h with
    | act tail =>
      obtain ⟨tr', r', hYields, rfl⟩ := ih _ tail
      exact ⟨_, r', .act hYields, rfl⟩

theorem Only.within {C : B → Prop} {p : Prog A σ ε α} (h : p.Only fun x => C (f x)) :
    (p.within f view g).Only C := by
  induction p with
  | done a => trivial
  | fail e => trivial
  | act x next ih => exact ⟨h.1, fun t => ih (view t) (h.2 (view t))⟩

end Prog

end Atomic
