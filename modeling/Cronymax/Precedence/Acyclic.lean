import Mathlib.Data.Fintype.EquivFin
import Mathlib.Data.Set.Finite.List
import Mathlib.Logic.Relation
import Mathlib.Order.WellFounded

/-! Relations without cycles.  An ordered list, whose members are related only to members after
them, has no cycle through its members.  A relation whose cycles all pass through marked elements
has none when no marked element lies on one.  Over the members of a list, a relation without cycles
allows induction along it. -/

namespace Precedence

open Relation

variable {α : Type*} {r : α → α → Prop}

/-- No element is related to itself through a chain. -/
def Acyclic (r : α → α → Prop) : Prop := ∀ a, ¬ TransGen r a a

/-- Whatever a member leads to comes after it. -/
def Ordered (r : α → α → Prop) : List α → Prop
  | [] => True
  | a :: rest => (∀ b, r a b → b ∈ rest) ∧ Ordered r rest

theorem Ordered.mono {r' : α → α → Prop} {l : List α} (h : Ordered r l)
    (hSub : ∀ a b, r' a b → r a b) : Ordered r' l := by
  induction l with
  | nil => trivial
  | cons a rest ih => exact ⟨fun b hb => h.1 b (hSub a b hb), ih h.2⟩

theorem Ordered.mem_of_mem {l : List α} (h : Ordered r l) {a b : α} (ha : a ∈ l) (hab : r a b) :
    b ∈ l := by
  induction l with
  | nil => cases ha
  | cons c rest ih =>
    rcases List.mem_cons.mp ha with rfl | ha
    · exact List.mem_cons_of_mem _ (h.1 b hab)
    · exact List.mem_cons_of_mem _ (ih h.2 ha)

theorem Ordered.sublist {l : List α} (h : Ordered r l) {a b : α} (ha : a ∈ l) (hab : r a b) :
    [a, b].Sublist l := by
  induction l with
  | nil => cases ha
  | cons c rest ih =>
    rcases List.mem_cons.mp ha with rfl | ha
    · exact (List.singleton_sublist.mpr (h.1 b hab)).cons_cons a
    · exact (ih h.2 ha).cons c

theorem Ordered.mem_tail {a b : α} {rest : List α} (h : Ordered r (a :: rest))
    (hab : TransGen r a b) : b ∈ rest := by
  induction hab with
  | single hab => exact h.1 _ hab
  | tail _ hbc ih => exact h.2.mem_of_mem ih hbc

theorem Ordered.not_transGen {l : List α} (h : Ordered r l) (hNodup : l.Nodup) {a : α}
    (ha : a ∈ l) : ¬ TransGen r a a := by
  induction l with
  | nil => cases ha
  | cons b rest ih =>
    obtain ⟨hNotMem, hRest⟩ := List.nodup_cons.mp hNodup
    rcases List.mem_cons.mp ha with rfl | ha
    · exact fun hCycle => hNotMem (h.mem_tail hCycle)
    · exact ih h.2 hRest ha

theorem Ordered.acyclic {l : List α} (h : Ordered r l) (hNodup : l.Nodup)
    (hAll : ∀ a b, r a b → a ∈ l) : Acyclic r := by
  intro a hCycle
  obtain ⟨b, hab, _⟩ := TransGen.head'_iff.mp hCycle
  exact h.not_transGen hNodup (hAll a b hab) hCycle

theorem Acyclic.swap (h : Acyclic r) : Acyclic (Function.swap r) :=
  fun a hCycle => h a (transGen_swap.mp hCycle)

theorem Acyclic.mono {r' : α → α → Prop} (h : Acyclic r) (hSub : ∀ a b, r' a b → r a b) :
    Acyclic r' :=
  fun a hCycle => h a (TransGen.mono hSub a a hCycle)

theorem transGen_of_returns {P : α → Prop} (hP : ∀ a, TransGen r a a → P a) {a b : α}
    (hab : TransGen r a b) (hba : ReflTransGen r b a) :
    TransGen (fun a b => r a b ∧ P a) a b := by
  induction hab using TransGen.head_induction_on with
  | single hab => exact .single ⟨hab, hP _ (.head' hab hba)⟩
  | head hac hcb ih =>
    have hCycle := TransGen.head' hac (hcb.to_reflTransGen.trans hba)
    exact .head ⟨hac, hP _ hCycle⟩ (ih (hba.tail hac))

theorem acyclic_iff_marked {Marked : α → Prop} (hPlain : Acyclic fun a b => r a b ∧ ¬ Marked a) :
    Acyclic r ↔ ∀ a, Marked a → ¬ TransGen r a a := by
  refine ⟨fun h a _ => h a, fun h a hCycle => hPlain a ?_⟩
  exact transGen_of_returns (fun b hb hMarked => h b hMarked hb) hCycle .refl

theorem Acyclic.wellFounded [Finite α] (h : Acyclic r) : WellFounded (Function.swap r) := by
  have hIrrefl : Std.Irrefl (TransGen (Function.swap r)) := ⟨h.swap⟩
  have hTrans : IsTrans α (TransGen (Function.swap r)) := ⟨fun _ _ _ => .trans⟩
  exact Subrelation.wf (fun hab => .single hab)
    (Finite.wellFounded_of_trans_of_irrefl (TransGen (Function.swap r)))

theorem Acyclic.list_induction (h : Acyclic r) {l : List α} {P : α → Prop}
    (hStep : ∀ a ∈ l, (∀ b ∈ l, r a b → P b) → P a) : ∀ a ∈ l, P a := by
  have hFinite : Finite { a // a ∈ l } := List.finite_toSet l
  have hSub : Acyclic fun a b : { a // a ∈ l } => r a.1 b.1 :=
    fun a hCycle => h a.1 (hCycle.lift Subtype.val fun _ _ hab => hab)
  intro a ha
  suffices hAll : ∀ x : { a // a ∈ l }, P x.1 from hAll ⟨a, ha⟩
  intro x
  induction x using hSub.wellFounded.induction with
  | _ x ih => exact hStep x.1 x.2 fun b hb hab => ih ⟨b, hb⟩ hab

theorem Acyclic.exists_last (h : Acyclic r) {l : List α} (hl : l ≠ []) :
    ∃ a ∈ l, ∀ b ∈ l, ¬ r a b := by
  by_contra hNone
  push Not at hNone
  obtain ⟨a, ha⟩ := List.exists_mem_of_ne_nil l hl
  refine h.list_induction (P := fun _ => False) (fun a ha ih => ?_) a ha
  obtain ⟨b, hb, hab⟩ := hNone a ha
  exact ih b hb hab

end Precedence
