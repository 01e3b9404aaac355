import Cronymax.Atomic.History
import Mathlib.Data.List.Nodup

/-! Outboxes: a state that changes under a lock, and events about it that are sent after the lock has
been released.  A mirror of the state that is built from the events is right where no change to a key
is made while an event about the key is still to be sent. -/

namespace Atomic

/-- A state with the events that it has sent and those that are still to be handed on. -/
structure Outbox (σ E : Type*) where
  state : σ
  /-- What each call has still to send. -/
  pending : List (List E)
  log : List E
  announced : List E

namespace Outbox

variable {σ C E K V : Type*}

/-- A call, or one of the pending batches is handed on. -/
inductive Move (C : Type*) where
  | call (c : C)
  | emit (i : Nat)

def start (s : σ) : Outbox σ E := ⟨s, [], [], []⟩

/-- What a move does. -/
def move (act : σ → C → σ × List E) (o : Outbox σ E) : Move C → Outbox σ E
  | .call c =>
    { state := (act o.state c).1
      pending := o.pending ++ [(act o.state c).2]
      log := o.log
      announced := o.announced ++ (act o.state c).2 }
  | .emit i =>
    match o.pending[i]? with
    | some (e :: rest) => { o with pending := o.pending.set i rest, log := o.log ++ [e] }
    | _ => o

/-- No call has anything left to send. -/
def AtRest (o : Outbox σ E) : Prop := ∀ events ∈ o.pending, events = []

end Outbox

/-- What a listener keeps of the events, and what it should agree with. -/
structure Mirror (σ C E K V : Type*) [DecidableEq K] where
  act : σ → C → σ × List E
  key : E → K
  read : σ → K → Option V
  look : Option V → E → Option V
  fits : Option V → E → Prop
  single : ∀ s c, ((act s c).2.map key).Nodup
  told : ∀ s c k, read (act s c).1 k = ((act s c).2.filter (key · = k)).foldl look (read s k)
  fitting : ∀ s c, ∀ e ∈ (act s c).2, fits (read s (key e)) e

namespace Mirror

variable {σ C E K V : Type*} [DecidableEq K] (m : Mirror σ C E K V)

def about (k : K) (es : List E) : List E := es.filter (m.key · = k)

@[simp] theorem about_append (k : K) (es es' : List E) :
    m.about k (es ++ es') = m.about k es ++ m.about k es' := List.filter_append _ _

theorem about_singleton (k : K) (e : E) : m.about k [e] = if m.key e = k then [e] else [] := by
  unfold about
  split <;> simp [*]

theorem about_eq_nil {k : K} {es : List E} (h : ∀ e ∈ es, m.key e ≠ k) : m.about k es = [] := by
  unfold about
  simpa using h

theorem about_act (s : σ) (c : C) (k : K) : (m.about k (m.act s c).2).length ≤ 1 := by
  have hNodup := (m.single s c).filter (· = k)
  rw [List.filter_map] at hNodup
  have hAll : ∀ k' ∈ (m.about k (m.act s c).2).map m.key, k' = k := by
    intro k' hk'
    obtain ⟨e, he, rfl⟩ := List.mem_map.mp hk'
    exact of_decide_eq_true (List.mem_filter.mp he).2
  have hEq := List.eq_replicate_of_mem hAll
  have hNodup' : ((m.about k (m.act s c).2).map m.key).Nodup := hNodup
  rw [hEq, List.nodup_replicate] at hNodup'
  simpa using hNodup'

/-- The events of a key lead from a value to the next, each from the one before. -/
def Follows (v : Option V) : List E → Prop
  | [] => True
  | e :: es => m.fits v e ∧ Follows (m.look v e) es

theorem follows_append {v : Option V} {es es' : List E} :
    m.Follows v (es ++ es') ↔ m.Follows v es ∧ m.Follows (es.foldl m.look v) es' := by
  induction es generalizing v with
  | nil => simp [Follows]
  | cons e es ih => simp only [List.cons_append, Follows, ih, List.foldl_cons, and_assoc]

/-- No event of the call is about a key that has others pending. -/
def Calm (o : Outbox σ E) : Outbox.Move C → Prop
  | .call c => ∀ e ∈ (m.act o.state c).2, m.about (m.key e) o.pending.flatten = []
  | .emit _ => True

/-- What is kept by calm moves. -/
structure Orderly (s : σ) (o : Outbox σ E) : Prop where
  sent : ∀ k, m.about k o.log ++ m.about k o.pending.flatten = m.about k o.announced
  single : ∀ k, (m.about k o.pending.flatten).length ≤ 1
  follows : ∀ k, m.Follows (m.read s k) (m.about k o.announced)
  told : ∀ k, m.read o.state k = (m.about k o.announced).foldl m.look (m.read s k)

variable {m} {s : σ} {o : Outbox σ E}

theorem orderly_start (s : σ) : m.Orderly s (.start s) where
  sent _ := rfl
  single _ := Nat.zero_le _
  follows _ := trivial
  told _ := rfl

theorem Orderly.call (h : m.Orderly s o) {c : C} (hCalm : m.Calm o (.call c)) :
    m.Orderly s (o.move m.act (.call c)) := by
  have hPending (k : K) : m.about k (o.pending ++ [(m.act o.state c).2]).flatten =
      m.about k o.pending.flatten ++ m.about k (m.act o.state c).2 := by
    simp
  -- Either nothing was pending about the key, or the call has nothing to say about it.
  have hCases (k : K) : m.about k o.pending.flatten = [] ∨ m.about k (m.act o.state c).2 = [] := by
    by_cases hSays : ∃ e ∈ (m.act o.state c).2, m.key e = k
    · obtain ⟨e, he, rfl⟩ := hSays
      exact .inl (hCalm e he)
    · exact .inr (m.about_eq_nil fun e he hKey => hSays ⟨e, he, hKey⟩)
  refine ⟨fun k => ?_, fun k => ?_, fun k => ?_, fun k => ?_⟩
  · show m.about k o.log ++ m.about k (o.pending ++ [(m.act o.state c).2]).flatten = _
    rw [hPending, ← List.append_assoc, h.sent]
    exact (m.about_append k _ _).symm
  · show (m.about k (o.pending ++ [(m.act o.state c).2]).flatten).length ≤ 1
    rw [hPending]
    rcases hCases k with hNil | hNil
    · rw [hNil]
      exact m.about_act o.state c k
    · rw [hNil, List.append_nil]
      exact h.single k
  · show m.Follows _ (m.about k (o.announced ++ (m.act o.state c).2))
    rw [about_append, follows_append, ← h.told]
    refine ⟨h.follows k, ?_⟩
    have hOne := m.about_act o.state c k
    rcases hAbout : m.about k (m.act o.state c).2 with _ | ⟨e, _ | ⟨e', rest⟩⟩
    · trivial
    · have hMem : e ∈ m.about k (m.act o.state c).2 := by
        rw [hAbout]
        exact List.mem_singleton_self e
      obtain ⟨he, hKey⟩ := List.mem_filter.mp hMem
      refine ⟨?_, trivial⟩
      rw [← of_decide_eq_true hKey]
      exact m.fitting o.state c e he
    · rw [hAbout] at hOne
      simp at hOne
  · show m.read (m.act o.state c).1 k = _
    rw [m.told, h.told, ← List.foldl_append]
    exact congrArg (List.foldl m.look (m.read s k)) (m.about_append k _ _).symm

theorem flatten_split {l : List (List E)} {i : Nat} {e : E} {rest : List E} (h : l[i]? = some (e :: rest)) :
    ∃ before behind, l.flatten = before ++ e :: behind ∧ (l.set i rest).flatten = before ++ behind := by
  obtain ⟨hLt, hGet⟩ := List.getElem?_eq_some_iff.mp h
  refine ⟨(l.take i).flatten, rest ++ (l.drop (i + 1)).flatten, ?_, ?_⟩
  · conv_lhs => rw [← List.take_append_drop i l, List.drop_eq_getElem_cons hLt, hGet]
    simp
  · rw [List.set_eq_take_append_cons_drop, if_pos hLt]
    simp

theorem Orderly.emit (h : m.Orderly s o) (i : Nat) : m.Orderly s (o.move m.act (.emit i)) := by
  simp only [Outbox.move]
  split
  · rename_i e rest hGet
    obtain ⟨before, behind, hNow, hThen⟩ := flatten_split hGet
    have hAbout (k : K) : m.about k o.pending.flatten =
        m.about k before ++ (m.about k [e] ++ m.about k behind) := by
      rw [hNow, ← List.singleton_append, about_append, about_append]
    refine ⟨fun k => ?_, fun k => ?_, h.follows, h.told⟩
    · show m.about k (o.log ++ [e]) ++ m.about k (o.pending.set i rest).flatten = _
      have hSent := h.sent k
      have hSingle := h.single k
      rw [hAbout] at hSent hSingle
      rw [hThen, about_append, about_append, ← hSent]
      by_cases hKey : m.key e = k
      · -- The event is the only one that is pending about its key.
        rw [about_singleton, if_pos hKey] at hSingle ⊢
        have hNil : m.about k before = [] ∧ m.about k behind = [] := by
          simp only [List.length_append, List.length_singleton] at hSingle
          exact ⟨List.eq_nil_of_length_eq_zero (by omega), List.eq_nil_of_length_eq_zero (by omega)⟩
        simp [hNil.1, hNil.2]
      · rw [about_singleton, if_neg hKey]
        simp
    · show (m.about k (o.pending.set i rest).flatten).length ≤ 1
      have hSingle := h.single k
      rw [hAbout] at hSingle
      rw [hThen, about_append]
      simp only [List.length_append] at hSingle ⊢
      omega
  · exact h

theorem Orderly.move (h : m.Orderly s o) {e : Outbox.Move C} (hCalm : m.Calm o e) :
    m.Orderly s (o.move m.act e) := by
  cases e with
  | call c => exact h.call hCalm
  | emit i => exact h.emit i

theorem orderly_of_calm {moves : List (Outbox.Move C)}
    (hCalm : History.Each (Outbox.move m.act) m.Calm (.start s) moves) :
    m.Orderly s (History.play (Outbox.move m.act) (.start s) moves) :=
  History.preserves (I := m.Orderly s) (fun _ _ h hCalm => h.move hCalm) hCalm (orderly_start s)

theorem Orderly.follows_log (h : m.Orderly s o) (k : K) : m.Follows (m.read s k) (m.about k o.log) := by
  have := h.follows k
  rw [← h.sent, follows_append] at this
  exact this.1

theorem Orderly.sent_at_rest (h : m.Orderly s o) (hRest : o.AtRest) (k : K) :
    m.about k o.log = m.about k o.announced := by
  have hNil : o.pending.flatten = [] := List.flatten_eq_nil_iff.mpr hRest
  have hSent := h.sent k
  rw [hNil] at hSent
  simpa [about] using hSent

theorem Orderly.shown_at_rest (h : m.Orderly s o) (hRest : o.AtRest) (k : K) :
    (m.about k o.log).foldl m.look (m.read s k) = m.read o.state k := by
  rw [h.sent_at_rest hRest, h.told]

end Mirror

end Atomic
