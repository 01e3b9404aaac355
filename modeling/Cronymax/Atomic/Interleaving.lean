import Cronymax.Atomic.Program

/-! Interleavings of programs over a shared state.  A schedule names the thread that performs its
next action, turn by turn; every interleaving of the threads' actions is the play of a schedule.
The share of a thread in the events of a play is a trace that its program yields, so that a fact
about the traces of single programs carries over to every interleaving. -/

namespace Atomic

universe u

/-- Threads, named by `ι`, that share a state. -/
structure Pool (ι A σ ε α : Type u) where
  state : σ
  prog : ι → Prog A σ ε α

/-- The result of a program that has ended. -/
def Prog.result {A σ ε α : Type u} : Prog A σ ε α → Option (Except ε α)
  | .done a => some (.ok a)
  | .fail e => some (.error e)
  | .act _ _ => none

theorem Prog.ended_or_acts {A σ ε α : Type u} (p : Prog A σ ε α) :
    (∃ r, p.result = some r) ∨ ∃ x next, p = .act x next := by
  cases p with
  | done a => exact .inl ⟨_, rfl⟩
  | fail e => exact .inl ⟨_, rfl⟩
  | act x next => exact .inr ⟨x, next, rfl⟩

theorem Prog.Yields.result {A σ ε α : Type u} {p : Prog A σ ε α} {r : Except ε α}
    (h : Prog.Yields p [] r) : p.result = some r := by
  cases h <;> rfl

/-- The result after these accesses, if it is reached. -/
def Prog.follow {A σ ε α : Type u} : Prog A σ ε α → List (A × σ) → Option (Except ε α)
  | .done a, _ => some (.ok a)
  | .fail e, _ => some (.error e)
  | .act _ _, [] => none
  | .act _ next, (_, s) :: tr => (next s).follow tr

theorem Prog.Yields.follow {A σ ε α : Type u} {p : Prog A σ ε α} {tr : List (A × σ)}
    {r : Except ε α} (h : Prog.Yields p tr r) (rest : List (A × σ)) :
    p.follow (tr ++ rest) = some r := by
  induction h with
  | done a => rfl
  | fail e => rfl
  | act tail ih => exact ih

/-- The events of one of the programs. -/
@[grind =] def share {ι E : Type u} [DecidableEq ι] (i : ι) (es : List (ι × E)) : List E :=
  (es.filter (·.1 = i)).map (·.2)

section Share

variable {ι E : Type u} [DecidableEq ι]

@[simp] theorem share_nil (i : ι) : share i ([] : List (ι × E)) = [] := rfl

theorem share_cons (i j : ι) (e : E) (es : List (ι × E)) :
    share i ((j, e) :: es) = if j = i then e :: share i es else share i es := by
  by_cases h : j = i <;> simp [share, h]

theorem share_append (i : ι) (es es' : List (ι × E)) :
    share i (es ++ es') = share i es ++ share i es' := by
  simp [share]

theorem mem_share {i : ι} {e : E} {es : List (ι × E)} : e ∈ share i es ↔ (i, e) ∈ es := by
  simp [share]

theorem share_sublist (i : ι) (es : List (ι × E)) : (share i es).Sublist (es.map (·.2)) :=
  List.filter_sublist.map _

theorem share_eq_nil {i : ι} {es : List (ι × E)} : share i es = [] ↔ ∀ e ∈ es, e.1 ≠ i := by
  simp [share]

theorem share_eq_cons {i : ι} {e : E} {tail : List E} {es : List (ι × E)}
    (h : share i es = e :: tail) :
    ∃ pre post, es = pre ++ (i, e) :: post ∧ (∀ e' ∈ pre, e'.1 ≠ i) ∧ share i post = tail := by
  obtain ⟨⟨j, e'⟩, rest, hFilter, rfl, rfl⟩ := List.map_eq_cons_iff.mp h
  obtain ⟨pre, post, rfl, hPre, hAt, rfl⟩ := List.filter_eq_cons_iff.mp hFilter
  obtain rfl : j = i := by simpa using hAt
  exact ⟨pre, post, rfl, fun e he => by simpa using hPre e he, rfl⟩

theorem share_eq_append {i : ι} {e : E} {a b : List E} {es : List (ι × E)}
    (h : share i es = a ++ e :: b) :
    ∃ pre post, es = pre ++ (i, e) :: post ∧ share i pre = a ∧ share i post = b := by
  induction a generalizing es with
  | nil =>
    obtain ⟨pre, post, rfl, hPre, hPost⟩ := share_eq_cons h
    exact ⟨pre, post, rfl, share_eq_nil.mpr hPre, hPost⟩
  | cons e' a ih =>
    obtain ⟨pre, rest, rfl, hPre, hRest⟩ := share_eq_cons h
    obtain ⟨mid, post, rfl, rfl, hPost⟩ := ih hRest
    refine ⟨pre ++ (i, e') :: mid, post, by simp, ?_, hPost⟩
    rw [share_append, share_eq_nil.mpr hPre, share_cons, if_pos rfl, List.nil_append]

theorem share_erase (i j : ι) (es : List (ι × E)) :
    share i (es.filter (·.1 ≠ j)) = if i = j then [] else share i es := by
  unfold share
  rw [List.filter_filter]
  split
  · subst i
    simp
  · rename_i h
    congr 1
    refine List.filter_congr fun e _ => ?_
    by_cases he : e.1 = i <;> simp [he, h]

theorem countP_share_add (P : E → Bool) (j : ι) (es : List (ι × E)) :
    es.countP (fun e => P e.2) =
      (share j es).countP P + (es.filter (·.1 ≠ j)).countP fun e => P e.2 := by
  induction es with
  | nil => rfl
  | cons e es ih =>
    obtain ⟨i, e⟩ := e
    rw [List.countP_cons, ih, share_cons]
    by_cases h : i = j
    · simp [h, List.countP_cons]
      omega
    · simp [h, List.countP_cons]
      omega

theorem length_le_countP_of_share {P : E → Bool} {es : List (ι × E)} {is : List ι}
    (hNodup : is.Nodup) (h : ∀ i ∈ is, ∃ e ∈ share i es, P e = true) :
    is.length ≤ es.countP fun e => P e.2 := by
  induction is generalizing es with
  | nil => exact Nat.zero_le _
  | cons j is ih =>
    obtain ⟨hNot, hNodup⟩ := List.nodup_cons.mp hNodup
    have hFirst : 0 < (share j es).countP P := List.countP_pos_iff.mpr (h j List.mem_cons_self)
    have hRest := @ih (es.filter (·.1 ≠ j)) hNodup fun i hi => by
      have hOther : i ≠ j := fun h => hNot (h ▸ hi)
      simpa only [share_erase, if_neg hOther] using h i (List.mem_cons_of_mem _ hi)
    rw [List.length_cons, countP_share_add P j]
    omega

theorem countP_eq_of_share {P Q : E → Bool} (es : List (ι × E))
    (h : ∀ i, (share i es).countP P = (share i es).countP Q) :
    es.countP (fun e => P e.2) = es.countP fun e => Q e.2 := by
  induction hn : es.length using Nat.strongRecOn generalizing es with
  | _ n ih =>
  cases es with
  | nil => rfl
  | cons e rest =>
    -- the events of the first thread agree by `h`, the others by induction
    rw [countP_share_add P e.1, countP_share_add Q e.1, h e.1]
    congr 1
    have hShort : ((e :: rest).filter (·.1 ≠ e.1)).length < n := by
      have := List.length_filter_le (fun x => decide (x.1 ≠ e.1)) rest
      rw [← hn, List.filter_cons_of_neg (by simp), List.length_cons]
      omega
    refine ih _ hShort _ (fun i => ?_) rfl
    rw [share_erase]
    split
    · rfl
    · exact h i

end Share

namespace Pool

variable {ι A σ ε α : Type u} [DecidableEq ι] [Acts A σ]

/-- The pool after these turns. -/
def play : List ι → Pool ι A σ ε α → Pool ι A σ ε α
  | [], c => c
  | i :: turns, c =>
    match c.prog i with
    | .act x next => play turns ⟨Acts.apply x c.state, Function.update c.prog i (next c.state)⟩
    | _ => play turns c

/-- The accesses that these turns make, in order. -/
@[grind =] def events : List ι → Pool ι A σ ε α → List (ι × A × σ)
  | [], _ => []
  | i :: turns, c =>
    match c.prog i with
    | .act x next =>
      (i, x, c.state) ::
        events turns ⟨Acts.apply x c.state, Function.update c.prog i (next c.state)⟩
    | _ => events turns c

/-- Every program has ended. -/
def Finished (c : Pool ι A σ ε α) : Prop := ∀ i, (c.prog i).result ≠ none

section Turn

variable {c : Pool ι A σ ε α} {i : ι} {r : Except ε α} {x : A} {next : σ → Prog A σ ε α}

theorem turn_idle (h : (c.prog i).result = some r) (turns : List ι) :
    c.play (i :: turns) = c.play turns ∧ c.events (i :: turns) = c.events turns := by
  rw [play, events]
  cases hProg : c.prog i with
  | done a => exact ⟨rfl, rfl⟩
  | fail e => exact ⟨rfl, rfl⟩
  | act x next =>
    rw [hProg] at h
    cases h

theorem turn_act (h : c.prog i = .act x next) (turns : List ι) :
    c.play (i :: turns) =
        play turns ⟨Acts.apply x c.state, Function.update c.prog i (next c.state)⟩ ∧
      c.events (i :: turns) = (i, x, c.state) ::
        events turns ⟨Acts.apply x c.state, Function.update c.prog i (next c.state)⟩ := by
  rw [play, events, h]
  exact ⟨rfl, rfl⟩

end Turn

theorem play_state (turns : List ι) (c : Pool ι A σ ε α) :
    (c.play turns).state = Prog.after c.state ((c.events turns).map (·.2)) := by
  induction turns generalizing c with
  | nil => rfl
  | cons i turns ih =>
    obtain ⟨r, h⟩ | ⟨x, next, h⟩ := (c.prog i).ended_or_acts
    · rw [(turn_idle h turns).1, (turn_idle h turns).2]
      exact ih c
    · rw [(turn_act h turns).1, (turn_act h turns).2]
      exact ih _

theorem play_append (turns turns' : List ι) (c : Pool ι A σ ε α) :
    c.play (turns ++ turns') = (c.play turns).play turns' := by
  induction turns generalizing c with
  | nil => rfl
  | cons i turns ih =>
    rw [List.cons_append]
    obtain ⟨r, h⟩ | ⟨x, next, h⟩ := (c.prog i).ended_or_acts
    · rw [(turn_idle h _).1, (turn_idle h _).1]
      exact ih c
    · rw [(turn_act h _).1, (turn_act h _).1]
      exact ih _

theorem events_append (turns turns' : List ι) (c : Pool ι A σ ε α) :
    c.events (turns ++ turns') = c.events turns ++ (c.play turns).events turns' := by
  induction turns generalizing c with
  | nil => rfl
  | cons i turns ih =>
    rw [List.cons_append]
    obtain ⟨r, h⟩ | ⟨x, next, h⟩ := (c.prog i).ended_or_acts
    · rw [(turn_idle h _).2, (turn_idle h _).2, (turn_idle h _).1]
      exact ih c
    · rw [(turn_act h _).2, (turn_act h _).2, (turn_act h _).1]
      exact congrArg _ (ih _)

theorem play_induction {I : List (ι × A × σ) → Pool ι A σ ε α → Prop} {c : Pool ι A σ ε α}
    (hStart : I [] c) (hStep : ∀ es (d : Pool ι A σ ε α) i x next, d.prog i = .act x next → I es d →
      I (es ++ [(i, x, d.state)])
        ⟨Acts.apply x d.state, Function.update d.prog i (next d.state)⟩)
    (turns : List ι) : I (c.events turns) (c.play turns) := by
  suffices h : ∀ turns es d, I es d → I (es ++ d.events turns) (d.play turns) by
    simpa using h turns [] c hStart
  intro turns
  induction turns with
  | nil =>
    intro es d h
    rw [show d.events [] = [] from rfl, List.append_nil]
    exact h
  | cons i turns ih =>
    intro es d h
    obtain ⟨r, hi⟩ | ⟨x, next, hi⟩ := (d.prog i).ended_or_acts
    · rw [(turn_idle hi turns).1, (turn_idle hi turns).2]
      exact ih es d h
    · rw [(turn_act hi turns).1, (turn_act hi turns).2]
      simpa using ih _ _ (hStep es d i x next hi h)

theorem events_chained (turns : List ι) (c : Pool ι A σ ε α) :
    Prog.Chained c.state ((c.events turns).map (·.2)) := by
  induction turns generalizing c with
  | nil => trivial
  | cons i turns ih =>
    obtain ⟨r, h⟩ | ⟨x, next, h⟩ := (c.prog i).ended_or_acts
    · rw [(turn_idle h turns).2]
      exact ih c
    · rw [(turn_act h turns).2]
      exact ⟨rfl, ih ⟨Acts.apply x c.state, Function.update c.prog i (next c.state)⟩⟩

theorem share_yields (turns : List ι) (c : Pool ι A σ ε α) (i : ι) {tr : List (A × σ)}
    {r : Except ε α} (h : Prog.Yields ((c.play turns).prog i) tr r) :
    Prog.Yields (c.prog i) (share i (c.events turns) ++ tr) r := by
  induction turns generalizing c with
  | nil => exact h
  | cons j turns ih =>
    obtain ⟨r', hj⟩ | ⟨x, next, hj⟩ := (c.prog j).ended_or_acts
    · rw [(turn_idle hj turns).1] at h
      rw [(turn_idle hj turns).2]
      exact ih c h
    · rw [(turn_act hj turns).1] at h
      rw [(turn_act hj turns).2]
      have hTail := ih _ h
      rw [share_cons]
      by_cases hij : j = i
      · subst hij
        simp only [Function.update_self] at hTail
        simp only [if_pos, List.cons_append, hj]
        exact .act hTail
      · simp only [hij, if_false]
        simpa [Function.update_of_ne (Ne.symm hij)] using hTail

theorem yields_of_result {turns : List ι} {c : Pool ι A σ ε α} {i : ι} {r : Except ε α}
    (h : ((c.play turns).prog i).result = some r) :
    Prog.Yields (c.prog i) (share i (c.events turns)) r := by
  have hEnd : Prog.Yields ((c.play turns).prog i) [] r := by
    cases hi : (c.play turns).prog i with
    | done a =>
      rw [hi] at h
      obtain rfl := Option.some.inj h
      exact .done a
    | fail e =>
      rw [hi] at h
      obtain rfl := Option.some.inj h
      exact .fail e
    | act x next =>
      rw [hi] at h
      cases h
  simpa using share_yields turns c i hEnd

theorem share_completes (turns : List ι) (c : Pool ι A σ ε α) (i : ι) :
    ∃ rest r, Prog.Yields ((c.play turns).prog i) rest r ∧
      Prog.Yields (c.prog i) (share i (c.events turns) ++ rest) r := by
  have : Nonempty σ := ⟨c.state⟩
  obtain ⟨rest, r, h⟩ := Prog.exists_yields ((c.play turns).prog i)
  exact ⟨rest, r, h, share_yields turns c i h⟩

theorem events_only {P : A → Prop} {c : Pool ι A σ ε α} (h : ∀ i, (c.prog i).Only P)
    (turns : List ι) : ∀ e ∈ c.events turns, P e.2.1 := by
  intro e he
  obtain ⟨rest, r, -, hYields⟩ := share_completes turns c e.1
  exact (h e.1).yields hYields e.2 (List.mem_append_left _ (mem_share.mpr he))

theorem finished_yields {turns : List ι} {c : Pool ι A σ ε α} (h : (c.play turns).Finished)
    (i : ι) : ∃ r, Prog.Yields (c.prog i) (share i (c.events turns)) r := by
  obtain ⟨r, hr⟩ := Option.ne_none_iff_exists'.mp (h i)
  exact ⟨r, yields_of_result hr⟩

end Pool

end Atomic
