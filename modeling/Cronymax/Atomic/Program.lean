import Mathlib.Data.List.Basic

/-! Programs over a shared state that act on it in atomic steps.  A program ends with a result or
an error, or performs one action and goes on according to the state in which the action was
performed.  `run` executes a program alone.  `Yields` describes one complete execution of a program
whose environment may change the state between any two of its actions, so that a fact about every
trace that a program yields holds for its sequential runs and for its share of every
interleaving. -/

namespace Atomic

universe u

/-- How an action changes the shared state. -/
class Acts (A : Type u) (σ : outParam (Type u)) where
  apply : A → σ → σ

/-- A program by its accesses to a shared state, each of which may meet another state. -/
inductive Prog (A σ ε α : Type u) : Type u where
  | done (a : α)
  | fail (e : ε)
  | act (x : A) (next : σ → Prog A σ ε α)

namespace Prog

variable {A σ ε α β γ : Type u}

/-- One program after the other. -/
def bind : Prog A σ ε α → (α → Prog A σ ε β) → Prog A σ ε β
  | .done a, f => f a
  | .fail e, _ => .fail e
  | .act x next, f => .act x fun s => (next s).bind f

instance : Monad (Prog A σ ε) where
  pure := .done
  bind := Prog.bind

/-- One access, with the state that it meets. -/
@[grind =] def perform (x : A) : Prog A σ ε σ := .act x .done

/-- A failure becomes a result. -/
@[grind =] def attempt : Prog A σ ε α → Prog A σ ε (Except ε α)
  | .done a => .done (.ok a)
  | .fail e => .done (.error e)
  | .act x next => .act x fun s => (next s).attempt

/-- A program for each member, the results one after the other. -/
@[grind =] def collect (f : β → Prog A σ ε (List γ)) : List β → Prog A σ ε (List γ)
  | [] => pure []
  | b :: bs => do
    let first ← f b
    let rest ← collect f bs
    pure (first ++ rest)

theorem collect_map {δ : Type u} (f : β → Prog A σ ε (List γ)) (g : δ → β) (ds : List δ) :
    collect f (ds.map g) = collect (fun d => f (g d)) ds := by
  induction ds with
  | nil => rfl
  | cons d ds ih => simp only [List.map_cons, collect, ih]

@[simp] theorem pure_eq (a : α) : (pure a : Prog A σ ε α) = .done a := rfl

@[simp] theorem done_bind (a : α) (f : α → Prog A σ ε β) : (.done a >>= f) = f a := rfl

@[simp] theorem fail_bind (e : ε) (f : α → Prog A σ ε β) :
    ((.fail e : Prog A σ ε α) >>= f) = .fail e := rfl

@[simp] theorem act_bind (x : A) (next : σ → Prog A σ ε α) (f : α → Prog A σ ε β) :
    (.act x next >>= f) = .act x fun s => next s >>= f := rfl

@[simp] theorem perform_bind (x : A) (f : σ → Prog A σ ε β) :
    ((perform x : Prog A σ ε σ) >>= f) = .act x f := rfl

instance : LawfulMonad (Prog A σ ε) := by
  refine LawfulMonad.mk' (Prog A σ ε) ?_ (fun _ _ => rfl) ?_
  · intro α p
    induction p with
    | done a => rfl
    | fail e => rfl
    | act x next ih => exact congrArg (Prog.act x) (funext ih)
  · intro α β γ p f g
    induction p with
    | done a => rfl
    | fail e => rfl
    | act x next ih => exact congrArg (Prog.act x) (funext ih)

theorem collect_append (f : β → Prog A σ ε (List γ)) (bs cs : List β) :
    collect f (bs ++ cs) =
      collect f bs >>= fun first => collect f cs >>= fun rest => pure (first ++ rest) := by
  induction bs with
  | nil => exact (bind_pure (collect f cs)).symm
  | cons b bs ih => simp only [List.cons_append, collect, ih, bind_assoc, pure_bind,
      List.append_assoc]

section Run

variable [Acts A σ]

/-- The program runs alone. -/
@[grind =] def run : Prog A σ ε α → σ → Except ε α × σ
  | .done a, s => (.ok a, s)
  | .fail e, s => (.error e, s)
  | .act x next, s => (next s).run (Acts.apply x s)

/-- The accesses of a program that runs alone. -/
@[grind =] def trace : Prog A σ ε α → σ → List (A × σ)
  | .done _, _ => []
  | .fail _, _ => []
  | .act x next, s => (x, s) :: (next s).trace (Acts.apply x s)

/-- The state after a trace. -/
def after (s : σ) (tr : List (A × σ)) : σ := tr.foldl (fun t e => Acts.apply e.1 t) s

@[simp] theorem after_nil (s : σ) : after (A := A) s [] = s := rfl

@[simp] theorem after_cons (s : σ) (e : A × σ) (tr : List (A × σ)) :
    after s (e :: tr) = after (Acts.apply e.1 s) tr := rfl

@[simp] theorem after_append (s : σ) (tr tr' : List (A × σ)) :
    after s (tr ++ tr') = after (after s tr) tr' := by
  simp [after, List.foldl_append]

theorem run_snd (p : Prog A σ ε α) (s : σ) : (p.run s).2 = after s (p.trace s) := by
  induction p generalizing s with
  | done a => rfl
  | fail e => rfl
  | act x next ih => exact ih s _

theorem run_bind (p : Prog A σ ε α) (f : α → Prog A σ ε β) (s : σ) :
    (p >>= f).run s =
      match p.run s with
      | (.ok a, t) => (f a).run t
      | (.error e, t) => (.error e, t) := by
  induction p generalizing s with
  | done a => rfl
  | fail e => rfl
  | act x next ih => exact ih s _

theorem run_bind_of_ok {p : Prog A σ ε α} {s : σ} {a : α} (h : (p.run s).1 = .ok a)
    (f : α → Prog A σ ε β) : (p >>= f).run s = (f a).run (p.run s).2 := by
  rw [run_bind]
  cases hRun : p.run s with
  | mk r t =>
    rw [hRun] at h
    cases h
    rfl

theorem run_bind_of_error {p : Prog A σ ε α} {s : σ} {e : ε} (h : (p.run s).1 = .error e)
    (f : α → Prog A σ ε β) : (p >>= f).run s = (.error e, (p.run s).2) := by
  rw [run_bind]
  cases hRun : p.run s with
  | mk r t =>
    rw [hRun] at h
    cases h
    rfl

theorem run_bind_ok {p : Prog A σ ε α} {f : α → Prog A σ ε β} {s : σ} {b : β}
    (h : ((p >>= f).run s).1 = .ok b) :
    ∃ a, (p.run s).1 = .ok a ∧ (p >>= f).run s = (f a).run (p.run s).2 := by
  cases hRun : (p.run s).1 with
  | ok a => exact ⟨a, rfl, run_bind_of_ok hRun f⟩
  | error e =>
    rw [run_bind_of_error hRun] at h
    cases h

theorem run_attempt (p : Prog A σ ε α) (s : σ) :
    p.attempt.run s = (.ok (p.run s).1, (p.run s).2) := by
  induction p generalizing s with
  | done a => rfl
  | fail e => rfl
  | act x next ih => exact ih s _

theorem trace_bind (p : Prog A σ ε α) (f : α → Prog A σ ε β) (s : σ) :
    (p >>= f).trace s = p.trace s ++
      match p.run s with
      | (.ok a, t) => (f a).trace t
      | (.error _, _) => [] := by
  induction p generalizing s with
  | done a => rfl
  | fail e => rfl
  | act x next ih => exact congrArg ((x, s) :: ·) (ih s _)

theorem trace_bind_of_ok {p : Prog A σ ε α} {s : σ} {a : α} (h : (p.run s).1 = .ok a)
    (f : α → Prog A σ ε β) : (p >>= f).trace s = p.trace s ++ (f a).trace (p.run s).2 := by
  rw [trace_bind]
  cases hRun : p.run s with
  | mk r t =>
    rw [hRun] at h
    cases h
    rfl

theorem trace_bind_of_error {p : Prog A σ ε α} {s : σ} {e : ε} (h : (p.run s).1 = .error e)
    (f : α → Prog A σ ε β) : (p >>= f).trace s = p.trace s := by
  rw [trace_bind]
  cases hRun : p.run s with
  | mk r t =>
    rw [hRun] at h
    cases h
    simp

theorem run_map_snd (p : Prog A σ ε α) (f : α → β) (s : σ) :
    ((p >>= fun a => pure (f a)).run s).2 = (p.run s).2 := by
  rw [run_bind]
  cases p.run s with
  | mk r t => cases r <;> rfl

theorem trace_map (p : Prog A σ ε α) (f : α → β) (s : σ) :
    (p >>= fun a => pure (f a)).trace s = p.trace s := by
  rw [trace_bind]
  cases p.run s with
  | mk r t => cases r <;> exact List.append_nil _

/-- Every access of the trace meets the state that the one before has left. -/
def Chained : σ → List (A × σ) → Prop
  | _, [] => True
  | s, (x, t) :: tr => t = s ∧ Chained (Acts.apply x t) tr

theorem chained_append {s : σ} {tr tr' : List (A × σ)} :
    Chained s (tr ++ tr') ↔ Chained s tr ∧ Chained (after s tr) tr' := by
  induction tr generalizing s with
  | nil => simp [Chained]
  | cons e tr ih =>
    obtain ⟨x, t⟩ := e
    simp only [List.cons_append, Chained, ih, after_cons, and_assoc]
    constructor
    · rintro ⟨rfl, h⟩
      exact ⟨rfl, h⟩
    · rintro ⟨rfl, h⟩
      exact ⟨rfl, h⟩

theorem Chained.state {s t : σ} {pre post : List (A × σ)} {x : A}
    (h : Chained s (pre ++ (x, t) :: post)) : t = after s pre :=
  (chained_append.mp h).2.1

theorem Chained.rest {s : σ} {pre post : List (A × σ)} {e : A × σ}
    (h : Chained s (pre ++ e :: post)) : Chained (Acts.apply e.1 e.2) post ∧
      after s (pre ++ e :: post) = after (Acts.apply e.1 e.2) post := by
  have hState := h.state
  rw [after_append, after_cons, ← hState]
  exact ⟨(chained_append.mp h).2.2, rfl⟩

theorem trace_chained (p : Prog A σ ε α) (s : σ) : Chained s (p.trace s) := by
  induction p generalizing s with
  | done a => trivial
  | fail e => trivial
  | act x next ih => exact ⟨rfl, ih s _⟩

theorem after_preserves {P : σ → Prop} {s : σ} {tr : List (A × σ)}
    (hStep : ∀ e ∈ tr, ∀ t, P t → P (Acts.apply e.1 t)) (hs : P s) : P (after s tr) := by
  induction tr generalizing s with
  | nil => exact hs
  | cons e tr ih =>
    exact ih (fun e' h' => hStep e' (List.mem_cons_of_mem _ h')) (hStep e (by simp) s hs)

theorem Chained.preserves {P : σ → Prop} {s : σ} {tr : List (A × σ)} (hc : Chained s tr)
    (hStep : ∀ e ∈ tr, P e.2 → P (Acts.apply e.1 e.2)) (hs : P s) : P (after s tr) := by
  induction tr generalizing s with
  | nil => exact hs
  | cons e tr ih =>
    obtain ⟨x, t⟩ := e
    obtain ⟨rfl, hc⟩ := hc
    exact ih hc (fun e' h' => hStep e' (List.mem_cons_of_mem _ h')) (hStep _ List.mem_cons_self hs)

/-- Once it holds, it goes on to hold. -/
def Sticky (P : σ → Prop) (tr : List (A × σ)) : Prop := ∀ e ∈ tr, P e.2 → P (Acts.apply e.1 e.2)

theorem Sticky.mono {P : σ → Prop} {tr tr' : List (A × σ)} (h : Sticky P tr) (hSub : tr' ⊆ tr) :
    Sticky P tr' :=
  fun e he => h e (hSub he)

theorem Sticky.forall {P : σ → Prop} {s : σ} {tr : List (A × σ)} (hP : Sticky P tr)
    (hc : Chained s tr) (hs : P s) : ∀ e ∈ tr, P e.2 := by
  induction tr generalizing s with
  | nil => exact fun e he => nomatch he
  | cons e tr ih =>
    obtain ⟨x, t⟩ := e
    obtain ⟨rfl, hc⟩ := hc
    intro e' he'
    rcases List.mem_cons.mp he' with rfl | he'
    · exact hs
    · exact ih (hP.mono (List.subset_cons_self _ _)) hc (hP _ List.mem_cons_self hs) e' he'

theorem Sticky.pairwise {P : σ → Prop} {s : σ} {tr : List (A × σ)} (hP : Sticky P tr)
    (hc : Chained s tr) : tr.Pairwise fun e e' => P e.2 → P e'.2 := by
  induction tr generalizing s with
  | nil => exact .nil
  | cons e tr ih =>
    obtain ⟨x, t⟩ := e
    obtain ⟨rfl, hc⟩ := hc
    have hTail := hP.mono (List.subset_cons_self _ _)
    exact .cons (fun e' he' h => hTail.forall hc (hP _ List.mem_cons_self h) e' he') (ih hTail hc)

theorem Sticky.turning {P : σ → Prop} {s : σ} {tr : List (A × σ)} (hP : Sticky P tr)
    (hc : Chained s tr) (hs : ¬P s) (hEnd : P (after s tr)) :
    ∃ pre e post, tr = pre ++ e :: post ∧ (∀ e' ∈ pre, ¬P (Acts.apply e'.1 e'.2)) ∧
      ¬P e.2 ∧ P (Acts.apply e.1 e.2) ∧ ∀ e' ∈ post, P e'.2 := by
  induction tr generalizing s with
  | nil => exact absurd hEnd hs
  | cons e tr ih =>
    obtain ⟨x, t⟩ := e
    obtain ⟨rfl, hc⟩ := hc
    have hTail := hP.mono (List.subset_cons_self _ _)
    by_cases hTurn : P (Acts.apply x t)
    · exact ⟨[], (x, t), tr, rfl, by simp, hs, hTurn, hTail.forall hc hTurn⟩
    · obtain ⟨pre, e, post, rfl, hPre, h⟩ := ih hTail hc hTurn hEnd
      refine ⟨(x, t) :: pre, e, post, rfl, fun e' he' => ?_, h⟩
      rcases List.mem_cons.mp he' with rfl | he'
      · exact hTurn
      · exact hPre e' he'

end Run

/-- A program whose accesses meet these states has this result, whoever changes the state in between. -/
inductive Yields : Prog A σ ε α → List (A × σ) → Except ε α → Prop where
  | done (a : α) : Yields (.done a) [] (.ok a)
  | fail (e : ε) : Yields (.fail e) [] (.error e)
  | act {x : A} {next : σ → Prog A σ ε α} {s : σ} {tr : List (A × σ)} {r : Except ε α}
      (tail : Yields (next s) tr r) : Yields (.act x next) ((x, s) :: tr) r

@[simp] theorem yields_done {a : α} {tr : List (A × σ)} {r : Except ε α} :
    Yields (.done a) tr r ↔ tr = [] ∧ r = .ok a :=
  ⟨fun h => by cases h; exact ⟨rfl, rfl⟩, fun ⟨h1, h2⟩ => h1 ▸ h2 ▸ .done a⟩

@[simp] theorem yields_fail {e : ε} {tr : List (A × σ)} {r : Except ε α} :
    Yields (.fail e : Prog A σ ε α) tr r ↔ tr = [] ∧ r = .error e :=
  ⟨fun h => by cases h; exact ⟨rfl, rfl⟩, fun ⟨h1, h2⟩ => h1 ▸ h2 ▸ .fail e⟩

theorem yields_act {x : A} {next : σ → Prog A σ ε α} {tr : List (A × σ)} {r : Except ε α} :
    Yields (.act x next) tr r ↔ ∃ s tr', tr = (x, s) :: tr' ∧ Yields (next s) tr' r := by
  constructor
  · intro h
    cases h with
    | act tail => exact ⟨_, _, rfl, tail⟩
  · rintro ⟨s, tr', rfl, h⟩
    exact .act h

theorem yields_perform {x : A} {f : σ → Prog A σ ε α} {tr : List (A × σ)} {r : Except ε α} :
    Yields (perform x >>= f) tr r ↔ ∃ s tr', tr = (x, s) :: tr' ∧ Yields (f s) tr' r :=
  yields_act

theorem yields_bind {p : Prog A σ ε α} {f : α → Prog A σ ε β} {tr : List (A × σ)}
    {r : Except ε β} :
    Yields (p >>= f) tr r ↔
      (∃ a tr1 tr2, tr = tr1 ++ tr2 ∧ Yields p tr1 (.ok a) ∧ Yields (f a) tr2 r) ∨
      ∃ e, r = .error e ∧ Yields p tr (.error e) := by
  induction p generalizing tr with
  | done a => simp
  | fail e => simp; tauto
  | act x next ih =>
    rw [act_bind, yields_act]
    constructor
    · rintro ⟨s, tr', rfl, h⟩
      rcases (ih s).mp h with ⟨a, tr1, tr2, rfl, h1, h2⟩ | ⟨e, rfl, h1⟩
      · exact .inl ⟨a, (x, s) :: tr1, tr2, rfl, .act h1, h2⟩
      · exact .inr ⟨e, rfl, .act h1⟩
    · rintro (⟨a, tr1, tr2, rfl, h1, h2⟩ | ⟨e, rfl, h1⟩)
      · obtain ⟨s, tr', rfl, tail⟩ := yields_act.mp h1
        exact ⟨s, tr' ++ tr2, rfl, (ih s).mpr (.inl ⟨a, tr', tr2, rfl, tail, h2⟩)⟩
      · obtain ⟨s, tr', rfl, tail⟩ := yields_act.mp h1
        exact ⟨s, tr', rfl, (ih s).mpr (.inr ⟨e, rfl, tail⟩)⟩

theorem yields_attempt {p : Prog A σ ε α} {tr : List (A × σ)}
    {r : Except ε (Except ε α)} :
    Yields p.attempt tr r ↔ ∃ r', r = .ok r' ∧ Yields p tr r' := by
  induction p generalizing tr with
  | done a => simp [attempt]; tauto
  | fail e => simp [attempt]; tauto
  | act x next ih =>
    simp only [attempt, yields_act, ih]
    tauto

theorem trace_yields [Acts A σ] (p : Prog A σ ε α) (s : σ) : Yields p (p.trace s) (p.run s).1 := by
  induction p generalizing s with
  | done a => exact .done a
  | fail e => exact .fail e
  | act x next ih => exact .act (ih s _)

theorem exists_yields [Nonempty σ] (p : Prog A σ ε α) : ∃ tr r, Yields p tr r := by
  induction p with
  | done a => exact ⟨[], _, .done a⟩
  | fail e => exact ⟨[], _, .fail e⟩
  | act x next ih =>
    obtain ⟨s⟩ := ‹Nonempty σ›
    obtain ⟨tr, r, h⟩ := ih s
    exact ⟨_, r, .act h⟩

/-- The accesses of a program that meets these states. -/
def facing : Prog A σ ε α → List σ → List (A × σ)
  | .act x next, s :: ss => (x, s) :: (next s).facing ss
  | _, _ => []

theorem exists_yields_facing [Nonempty σ] (p : Prog A σ ε α) (ss : List σ) :
    ∃ rest r, Yields p (p.facing ss ++ rest) r := by
  induction ss generalizing p with
  | nil =>
    obtain ⟨tr, r, h⟩ := p.exists_yields
    cases p <;> exact ⟨tr, r, h⟩
  | cons s ss ih =>
    cases p with
    | done a => exact ⟨[], _, .done a⟩
    | fail e => exact ⟨[], _, .fail e⟩
    | act x next =>
      obtain ⟨rest, r, h⟩ := ih (next s)
      exact ⟨rest, r, .act h⟩

/-- The program makes no other accesses. -/
def Only (P : A → Prop) : Prog A σ ε α → Prop
  | .done _ => True
  | .fail _ => True
  | .act x next => P x ∧ ∀ s, (next s).Only P

variable {P : A → Prop}

@[simp] theorem only_done (a : α) : (.done a : Prog A σ ε α).Only P := trivial

@[simp] theorem only_fail (e : ε) : (.fail e : Prog A σ ε α).Only P := trivial

@[simp] theorem only_act {x : A} {next : σ → Prog A σ ε α} :
    (Prog.act x next).Only P ↔ P x ∧ ∀ s, (next s).Only P := Iff.rfl

@[simp] theorem only_perform {x : A} : (perform x : Prog A σ ε σ).Only P ↔ P x := by
  simp [perform]

theorem Only.perform {x : A} {f : σ → Prog A σ ε α} (hx : P x) (hf : ∀ s, (f s).Only P) :
    (Prog.perform x >>= f).Only P :=
  ⟨hx, hf⟩

theorem Only.bind {p : Prog A σ ε α} {f : α → Prog A σ ε β} (hp : p.Only P)
    (hf : ∀ a, (f a).Only P) : (p >>= f).Only P := by
  induction p with
  | done a => exact hf a
  | fail e => trivial
  | act x next ih => exact ⟨hp.1, fun s => ih s (hp.2 s)⟩

theorem Only.attempt {p : Prog A σ ε α} (hp : p.Only P) : p.attempt.Only P := by
  induction p with
  | done a => trivial
  | fail e => trivial
  | act x next ih => exact ⟨hp.1, fun s => ih s (hp.2 s)⟩

theorem Only.collect {f : β → Prog A σ ε (List γ)} (bs : List β)
    (hf : ∀ b ∈ bs, (f b).Only P) : (Prog.collect f bs).Only P := by
  induction bs with
  | nil => trivial
  | cons b bs ih =>
    have hRest := ih fun b' hb' => hf b' (List.mem_cons_of_mem _ hb')
    exact (hf b List.mem_cons_self).bind fun _ => hRest.bind fun _ => trivial

theorem Only.yields {p : Prog A σ ε α} (hp : p.Only P) {tr : List (A × σ)} {r : Except ε α}
    (h : Yields p tr r) : ∀ e ∈ tr, P e.1 := by
  induction h with
  | done a => simp
  | fail e => simp
  | act tail ih =>
    intro e he
    rcases List.mem_cons.mp he with rfl | he
    · exact hp.1
    · exact ih (hp.2 _) e he

theorem Only.trace [Acts A σ] {p : Prog A σ ε α} (hp : p.Only P) (s : σ) :
    ∀ e ∈ p.trace s, P e.1 :=
  hp.yields (trace_yields p s)

theorem Only.run_preserves [Acts A σ] {p : Prog A σ ε α} (hp : p.Only P) {I : σ → Prop} {s : σ}
    (hStep : ∀ x, P x → ∀ t, I t → I (Acts.apply x t)) (hs : I s) : I (p.run s).2 := by
  rw [run_snd]
  exact after_preserves (fun e he t ht => hStep e.1 (hp.trace s e he) t ht) hs

theorem Only.trace_preserves [Acts A σ] {p : Prog A σ ε α} (hp : p.Only P) {I : σ → Prop} {s : σ}
    (hStep : ∀ x, P x → ∀ t, I t → I (Acts.apply x t)) (hs : I s) : ∀ e ∈ p.trace s, I e.2 := by
  induction p generalizing s with
  | done a => exact fun e he => nomatch he
  | fail e => exact fun e he => nomatch he
  | act x next ih =>
    intro e he
    rcases List.mem_cons.mp he with rfl | he
    · exact hs
    · exact ih s (hp.2 s) (hStep x hp.1 s hs) e he

theorem only_of_forall (p : Prog A σ ε α) (h : ∀ x, P x) : p.Only P := by
  induction p with
  | done a => trivial
  | fail e => trivial
  | act x next ih => exact ⟨h x, ih⟩

theorem Only.mono {Q : A → Prop} {p : Prog A σ ε α} (hp : p.Only P) (h : ∀ x, P x → Q x) :
    p.Only Q := by
  induction p with
  | done a => trivial
  | fail e => trivial
  | act x next ih => exact ⟨h x hp.1, fun s => ih s (hp.2 s)⟩

end Prog

end Atomic
