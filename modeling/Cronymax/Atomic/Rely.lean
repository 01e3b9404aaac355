import Cronymax.Atomic.Program

/-! Programs that rely on a condition of the states that their actions find.  `Achieves G p Q`
speaks of every execution, in whatever environment, that finds `G` at each action: it ends well,
with a trace and a result that satisfy `Q`.  The rules compose such facts along a program;
`Achieves.run` applies them to the sequential run. -/

namespace Atomic.Prog

universe u

variable {A σ ε α β γ : Type u} {G : σ → Prop}

/-- Whatever states of this kind it meets, the program returns such a result. -/
def Achieves (G : σ → Prop) (p : Prog A σ ε α) (Q : List (A × σ) → α → Prop) : Prop :=
  ∀ tr r, Yields p tr r → (∀ e ∈ tr, G e.2) → ∃ a, r = .ok a ∧ Q tr a

theorem Achieves.done {a : α} {Q : List (A × σ) → α → Prop} (h : Q [] a) :
    Achieves G (.done a : Prog A σ ε α) Q := by
  intro tr r hy _
  obtain ⟨rfl, rfl⟩ := yields_done.mp hy
  exact ⟨a, rfl, h⟩

theorem Achieves.act {x : A} {next : σ → Prog A σ ε α} {Q : List (A × σ) → α → Prop}
    (h : ∀ s, G s → Achieves G (next s) fun tr => Q ((x, s) :: tr)) :
    Achieves G (.act x next) Q := by
  intro tr r hy hG
  obtain ⟨s, tr', rfl, hTail⟩ := yields_act.mp hy
  exact h s (hG _ List.mem_cons_self) tr' r hTail fun e he => hG e (List.mem_cons_of_mem _ he)

theorem Achieves.perform {x : A} {f : σ → Prog A σ ε α} {Q : List (A × σ) → α → Prop}
    (h : ∀ s, G s → Achieves G (f s) fun tr => Q ((x, s) :: tr)) :
    Achieves G (Prog.perform x >>= f) Q :=
  .act h

theorem Achieves.mono {p : Prog A σ ε α} {P Q : List (A × σ) → α → Prop}
    (h : Achieves G p P) (hPQ : ∀ tr a, P tr a → Q tr a) : Achieves G p Q := by
  intro tr r hy hG
  obtain ⟨a, ha, hP⟩ := h tr r hy hG
  exact ⟨a, ha, hPQ tr a hP⟩

theorem Achieves.weaken {G' : σ → Prop} {p : Prog A σ ε α} {Q : List (A × σ) → α → Prop}
    (h : Achieves G p Q) (hG : ∀ s, G' s → G s) : Achieves G' p Q :=
  fun tr r hy hTrace => h tr r hy fun e he => hG e.2 (hTrace e he)

theorem Achieves.bind {p : Prog A σ ε α} {f : α → Prog A σ ε β} {P : List (A × σ) → α → Prop}
    {Q : List (A × σ) → β → Prop} (hp : Achieves G p P)
    (hf : ∀ tr a, P tr a → Achieves G (f a) fun tr' => Q (tr ++ tr')) :
    Achieves G (p >>= f) Q := by
  intro tr r hy hG
  rcases yields_bind.mp hy with ⟨a, tr1, tr2, rfl, h1, h2⟩ | ⟨e, rfl, h1⟩
  · obtain ⟨a', ha, hP⟩ := hp tr1 _ h1 fun e he => hG e (List.mem_append_left _ he)
    cases ha
    exact hf tr1 a hP tr2 r h2 fun e he => hG e (List.mem_append_right _ he)
  · obtain ⟨_, ha, _⟩ := hp tr _ h1 hG
    cases ha

theorem Only.attempt_achieves {P : A → Prop} {p : Prog A σ ε α} (hp : p.Only P) :
    Achieves G p.attempt fun tr _ => ∀ e ∈ tr, P e.1 := by
  intro tr r hy _
  obtain ⟨r', rfl, h⟩ := yields_attempt.mp hy
  exact ⟨r', rfl, hp.yields h⟩

theorem Achieves.collect {P : β → List (A × σ) → List γ → Prop}
    {Q : List β → List (A × σ) → List γ → Prop} (hNil : Q [] [] [])
    (hCons : ∀ b bs tr tr' r r', P b tr r → Q bs tr' r' → Q (b :: bs) (tr ++ tr') (r ++ r'))
    {f : β → Prog A σ ε (List γ)} (bs : List β) (h : ∀ b ∈ bs, Achieves G (f b) (P b)) :
    Achieves G (Prog.collect f bs) (Q bs) := by
  induction bs with
  | nil => exact .done hNil
  | cons b bs ih =>
    refine (h b (by simp)).bind fun tr1 first h1 => ?_
    refine (ih fun b' hb' => h b' (List.mem_cons_of_mem _ hb')).bind fun tr2 rest h2 => ?_
    exact .done (by simpa using hCons b bs tr1 tr2 first rest h1 h2)

theorem Achieves.collect_view {δ η : Type*} {view : List (A × σ) → List δ} {key : γ → η}
    (hNil : view [] = []) (hAppend : ∀ tr tr', view (tr ++ tr') = view tr ++ view tr')
    {f : β → Prog A σ ε (List γ)} {D : β → List δ} {K : β → List η} (bs : List β)
    (h : ∀ b ∈ bs, Achieves G (f b) fun tr r => view tr = D b ∧ r.map key = K b) :
    Achieves G (Prog.collect f bs) fun tr r =>
      view tr = bs.flatMap D ∧ r.map key = bs.flatMap K :=
  Achieves.collect (Q := fun bs tr r => view tr = bs.flatMap D ∧ r.map key = bs.flatMap K)
    ⟨hNil, rfl⟩ (fun b bs tr tr' r r' h1 h2 => ⟨by rw [hAppend, h1.1, h2.1, List.flatMap_cons],
      by rw [List.map_append, h1.2, h2.2, List.flatMap_cons]⟩) bs h

/-- Every execution of `p` that ends well, in whatever environment, satisfies `Q`. -/
def Ensures (Q : List (A × σ) → α → Prop) (p : Prog A σ ε α) : Prop :=
  ∀ tr a, Yields p tr (.ok a) → Q tr a

theorem Ensures.done {a : α} {Q : List (A × σ) → α → Prop} (h : Q [] a) :
    Ensures Q (.done a : Prog A σ ε α) := by
  intro tr r hy
  obtain ⟨rfl, hr⟩ := yields_done.mp hy
  cases hr
  exact h

theorem Ensures.perform {x : A} {f : σ → Prog A σ ε α} {Q : List (A × σ) → α → Prop}
    (h : ∀ s, Ensures (fun tr => Q ((x, s) :: tr)) (f s)) : Ensures Q (Prog.perform x >>= f) := by
  intro tr r hy
  obtain ⟨s, tr', rfl, hTail⟩ := yields_act.mp hy
  exact h s tr' r hTail

theorem Ensures.bind {p : Prog A σ ε α} {f : α → Prog A σ ε β} {P : List (A × σ) → α → Prop}
    {Q : List (A × σ) → β → Prop} (hp : Ensures P p)
    (hf : ∀ tr a, P tr a → Ensures (fun tr' => Q (tr ++ tr')) (f a)) : Ensures Q (p >>= f) := by
  intro tr r hy
  rcases yields_bind.mp hy with ⟨a, tr1, tr2, rfl, h1, h2⟩ | ⟨e, he, _⟩
  · exact hf tr1 a (hp tr1 a h1) tr2 r h2
  · cases he

theorem Ensures.mono {p : Prog A σ ε α} {P Q : List (A × σ) → α → Prop} (h : Ensures P p)
    (hPQ : ∀ tr a, P tr a → Q tr a) : Ensures Q p :=
  fun tr a hy => hPQ tr a (h tr a hy)

theorem Ensures.trivial {p : Prog A σ ε α} : Ensures (fun _ _ => True) p := fun _ _ _ => True.intro

theorem Ensures.collect {Q : List (A × σ) → List γ → Prop} (hNil : Q [] [])
    (hAppend : ∀ tr tr' r r', Q tr r → Q tr' r' → Q (tr ++ tr') (r ++ r'))
    {f : β → Prog A σ ε (List γ)} (bs : List β) (h : ∀ b ∈ bs, Ensures Q (f b)) :
    Ensures Q (Prog.collect f bs) := by
  induction bs with
  | nil => exact .done hNil
  | cons b bs ih =>
    refine (h b (by simp)).bind fun tr1 first h1 => ?_
    refine (ih fun b' hb' => h b' (List.mem_cons_of_mem _ hb')).bind fun tr2 rest h2 => ?_
    exact .done (by simpa using hAppend tr1 tr2 first rest h1 h2)

/-- The program makes no other accesses as long as it meets such states. -/
def OnlyUnder (G : σ → Prop) (P : A → Prop) : Prog A σ ε α → Prop
  | .done _ => True
  | .fail _ => True
  | .act x next => P x ∧ ∀ s, G s → (next s).OnlyUnder G P

section OnlyUnder

variable {P : A → Prop}

theorem Only.under {p : Prog A σ ε α} (hp : p.Only P) : p.OnlyUnder G P := by
  induction p with
  | done a => trivial
  | fail e => trivial
  | act x next ih => exact ⟨hp.1, fun s _ => ih s (hp.2 s)⟩

theorem OnlyUnder.perform {x : A} {f : σ → Prog A σ ε α} (hx : P x)
    (hf : ∀ s, G s → (f s).OnlyUnder G P) : (Prog.perform x >>= f).OnlyUnder G P :=
  ⟨hx, hf⟩

theorem OnlyUnder.bind {p : Prog A σ ε α} {f : α → Prog A σ ε β} (hp : p.OnlyUnder G P)
    (hf : ∀ a, (f a).OnlyUnder G P) : (p >>= f).OnlyUnder G P := by
  induction p with
  | done a => exact hf a
  | fail e => trivial
  | act x next ih => exact ⟨hp.1, fun s hs => ih s (hp.2 s hs)⟩

end OnlyUnder

section Run

variable [Acts A σ]

theorem OnlyUnder.run_preserves {P : A → Prop} {p : Prog A σ ε α} (hp : p.OnlyUnder G P)
    {I : σ → Prop} (hStep : ∀ x, P x → ∀ t, G t → I t → G (Acts.apply x t) ∧ I (Acts.apply x t))
    {s : σ} (hG : G s) (hs : I s) : I (p.run s).2 := by
  induction p generalizing s with
  | done a => exact hs
  | fail e => exact hs
  | act x next ih =>
    obtain ⟨hG', hI'⟩ := hStep x hp.1 s hG hs
    exact ih s (hp.2 s hG) hG' hI'

theorem Chained.forall {s : σ} {tr : List (A × σ)} (hc : Chained s tr)
    (hG : ∀ (x : A) s, G s → G (Acts.apply x s)) (hs : G s) : ∀ e ∈ tr, G e.2 :=
  Sticky.forall (fun e _ => hG e.1 e.2) hc hs

theorem Achieves.run {p : Prog A σ ε α} {Q : List (A × σ) → α → Prop} (h : Achieves G p Q)
    (hG : ∀ (x : A) s, G s → G (Acts.apply x s)) {s : σ} (hs : G s) :
    ∃ a, (p.run s).1 = .ok a ∧ Q (p.trace s) a :=
  h _ _ (trace_yields p s) ((trace_chained p s).forall hG hs)

end Run

end Atomic.Prog
