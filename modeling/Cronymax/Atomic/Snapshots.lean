import Cronymax.Atomic.Interleaving

/-! Threads that change a memory in atomic sections and write snapshots of it to a file afterwards.
A thread takes its snapshot in the section that comes right before the write, so the file always
holds the memory as some section has left it: the section whose snapshot is written last, in
whatever order the writes of different threads come. -/

namespace Atomic

universe u

variable {A σ ε α β γ D : Type u} [Acts A σ]

/-- A state of which a part is kept in memory and saved. -/
structure Saving (A σ D : Type u) where
  memory : σ → D
  snapshot : A → Option D

namespace Saving

variable (m : Saving A σ D)

/-- Whatever the program changes it saves before it ends. -/
def SavesLast : D → Prog A σ ε α → Prop
  | _, .done _ => True
  | _, .fail _ => True
  | last, .act x next =>
    (∀ d ∈ m.snapshot x, d = last) ∧ ∀ s, SavesLast (m.memory (Acts.apply x s)) (next s)

/-- The same, wherever the program begins. -/
def Saves (p : Prog A σ ε α) : Prop := ∀ last, m.SavesLast last p

variable {m}

theorem saves_done (a : α) : m.Saves (.done a : Prog A σ ε α) := fun _ => trivial

theorem SavesLast.bind {p : Prog A σ ε α} {f : α → Prog A σ ε β} {last : D}
    (hp : m.SavesLast last p) (hf : ∀ a, m.Saves (f a)) : m.SavesLast last (p >>= f) := by
  induction p generalizing last with
  | done a => exact hf a last
  | fail e => trivial
  | act x next ih => exact ⟨hp.1, fun s => ih s (hp.2 s)⟩

theorem Saves.bind {p : Prog A σ ε α} {f : α → Prog A σ ε β} (hp : m.Saves p)
    (hf : ∀ a, m.Saves (f a)) : m.Saves (p >>= f) :=
  fun last => (hp last).bind hf

theorem Saves.perform {x : A} {f : σ → Prog A σ ε α} (hx : m.snapshot x = none)
    (hf : ∀ s, m.SavesLast (m.memory (Acts.apply x s)) (f s)) : m.Saves (Prog.perform x >>= f) :=
  fun _ => ⟨fun d hd => by simp [hx] at hd, hf⟩

theorem SavesLast.attempt {p : Prog A σ ε α} {last : D} (hp : m.SavesLast last p) :
    m.SavesLast last p.attempt := by
  induction p generalizing last with
  | done a => trivial
  | fail e => trivial
  | act x next ih => exact ⟨hp.1, fun s => ih s (hp.2 s)⟩

theorem Saves.collect {f : β → Prog A σ ε (List γ)} (bs : List β) (hf : ∀ b ∈ bs, m.Saves (f b)) :
    m.Saves (Prog.collect f bs) := by
  induction bs with
  | nil => exact saves_done []
  | cons b bs ih =>
    have hRest := ih fun b' hb' => hf b' (List.mem_cons_of_mem _ hb')
    exact (hf b List.mem_cons_self).bind fun _ => hRest.bind fun _ => saves_done _

theorem saves_of_only {p : Prog A σ ε α} (hp : p.Only fun x => m.snapshot x = none) :
    m.Saves p := by
  intro last
  induction p generalizing last with
  | done a => trivial
  | fail e => trivial
  | act x next ih => exact ⟨fun d hd => by simp [hp.1] at hd, fun s => ih s (hp.2 s) _⟩

/-- A counter of the accesses, with the one that the file shows and those of the copies. -/
structure Versions (ι : Type u) where
  now : Nat
  file : Nat
  seen : ι → Nat

variable {ι : Type u} [DecidableEq ι]

variable (m) in
def Versions.step (v : Versions ι) (e : ι × A × σ) : Versions ι where
  now := v.now + 1
  file := if (m.snapshot e.2.1).isSome then v.seen e.1 else v.file
  seen := Function.update v.seen e.1 (v.now + 1)

variable (m) in
def versions (es : List (ι × A × σ)) : Versions ι :=
  es.foldl (Versions.step m) ⟨0, 0, fun _ => 0⟩

variable (m) in
/-- The events up to the version on disk. -/
def saved (es : List (ι × A × σ)) : List (ι × A × σ) := es.take (m.versions es).file

variable (m) in
/-- The events after the version on disk. -/
def unsaved (es : List (ι × A × σ)) : List (ι × A × σ) := es.drop (m.versions es).file

omit [Acts A σ] in
theorem versions_append (es : List (ι × A × σ)) (e : ι × A × σ) :
    m.versions (es ++ [e]) = Versions.step m (m.versions es) e :=
  List.foldl_append

/-- What is true of a pool after the events `es` from the state `s`. -/
structure Tracks (m : Saving A σ D) (file : σ → D) (s : σ) (es : List (ι × A × σ))
    (c : Pool ι A σ ε α) : Prop where
  state : c.state = Prog.after s (es.map (·.2))
  now : (m.versions es).now = es.length
  bound : (m.versions es).file ≤ es.length ∧ ∀ i, (m.versions es).seen i ≤ es.length
  file : file c.state = m.memory (Prog.after s ((m.saved es).map (·.2)))
  prog : ∀ i, m.SavesLast (m.memory (Prog.after s
    ((es.take ((m.versions es).seen i)).map (·.2)))) (c.prog i)

theorem Tracks.step {file : σ → D} {s : σ} {es : List (ι × A × σ)} {c : Pool ι A σ ε α}
    (h : m.Tracks file s es c) {i : ι} {x : A} {next : σ → Prog A σ ε α}
    (hi : c.prog i = .act x next)
    (hFile : file (Acts.apply x c.state) = (m.snapshot x).getD (file c.state)) :
    m.Tracks file s (es ++ [(i, x, c.state)])
      ⟨Acts.apply x c.state, Function.update c.prog i (next c.state)⟩ := by
  have hProg := h.prog i
  rw [hi] at hProg
  have hState : Acts.apply x c.state = Prog.after s ((es ++ [(i, x, c.state)]).map (·.2)) := by
    rw [List.map_append, Prog.after_append, ← h.state]
    rfl
  refine ⟨hState, ?now, ⟨?fileBound, ?seenBound⟩, ?file, ?prog⟩
  case now =>
    rw [versions_append, Versions.step, h.now, List.length_append]
    rfl
  case fileBound =>
    rw [versions_append, Versions.step, List.length_append]
    have := h.bound.1
    have := h.bound.2 i
    simp only
    split <;> omega
  case seenBound =>
    intro j
    rw [versions_append, Versions.step, List.length_append]
    by_cases hj : j = i
    · subst hj
      simp [h.now]
    · simpa [Function.update_of_ne hj] using Nat.le_succ_of_le (h.bound.2 j)
  case file =>
    rw [hFile, saved, versions_append, Versions.step]
    simp only
    cases hx : m.snapshot x with
    | none =>
      rw [if_neg (by simp), List.take_append_of_le_length h.bound.1]
      exact h.file
    | some d =>
      rw [if_pos (by simp), List.take_append_of_le_length (h.bound.2 i)]
      exact hProg.1 d hx
  case prog =>
    intro j
    rw [versions_append, Versions.step]
    by_cases hj : j = i
    · subst hj
      simp only [Function.update_self]
      rw [h.now, List.take_of_length_le (by simp), ← hState]
      exact hProg.2 c.state
    · simp only [Function.update_of_ne hj]
      rw [List.take_append_of_le_length (h.bound.2 j)]
      exact h.prog j

theorem file_play (file : σ → D) {G : σ → Prop} (hG : ∀ (x : A) s, G s → G (Acts.apply x s))
    (hFile : ∀ (x : A) s, G s → file (Acts.apply x s) = (m.snapshot x).getD (file s))
    {c : Pool ι A σ ε α} (hStart : G c.state) (hRest : file c.state = m.memory c.state)
    (hSaves : ∀ i, m.Saves (c.prog i)) (turns : List ι) :
    file (c.play turns).state =
      m.memory (Prog.after c.state ((m.saved (c.events turns)).map (·.2))) := by
  have hTracks : m.Tracks file c.state [] c :=
    ⟨rfl, rfl, ⟨Nat.le_refl 0, fun _ => Nat.le_refl 0⟩, hRest, fun i => hSaves i _⟩
  have hPlay := Pool.play_induction (I := fun es d => G d.state ∧ m.Tracks file c.state es d)
    ⟨hStart, hTracks⟩ (fun es d i x next hi ⟨hd, h⟩ =>
      ⟨hG x d.state hd, h.step hi (hFile x d.state hd)⟩) turns
  exact hPlay.2.file

end Saving

end Atomic
