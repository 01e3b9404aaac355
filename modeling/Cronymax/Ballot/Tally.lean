import Mathlib.Data.List.Nodup
import Mathlib.Data.List.Perm.Subperm

/-! Tallies in which the first vote of each voter counts. -/

namespace Ballot

variable {ι V : Type*} [BEq ι] [LawfulBEq ι]

/-- A vote counts unless the voter has one already. -/
def record (tally : List (ι × V)) (voter : ι) (vote : V) : List (ι × V) :=
  if tally.any (·.1 == voter) then tally else tally ++ [(voter, vote)]

/-- Some voter cast `veto`. -/
def Vetoed (veto : V) (tally : List (ι × V)) : Prop := ∃ voter, (voter, veto) ∈ tally

instance [DecidableEq V] (veto : V) (tally : List (ι × V)) : Decidable (Vetoed veto tally) :=
  decidable_of_iff (∃ e ∈ tally, e.2 = veto) (by
    constructor
    · rintro ⟨⟨voter, vote⟩, he, rfl⟩
      exact ⟨voter, he⟩
    · rintro ⟨voter, h⟩
      exact ⟨_, h, rfl⟩)

variable {tally : List (ι × V)} {voter : ι} {vote : V}

theorem record_of_mem (h : voter ∈ tally.map (·.1)) : record tally voter vote = tally := by
  have : tally.any (·.1 == voter) = true := by simpa using h
  simp [record, this]

theorem record_of_not_mem (h : voter ∉ tally.map (·.1)) :
    record tally voter vote = tally ++ [(voter, vote)] := by
  have : ¬tally.any (·.1 == voter) = true := by simpa using h
  simp only [record, this]
  rfl

theorem mem_record {e : ι × V} :
    e ∈ record tally voter vote ↔ e ∈ tally ∨ e = (voter, vote) ∧ voter ∉ tally.map (·.1) := by
  by_cases h : voter ∈ tally.map (·.1)
  · rw [record_of_mem h]
    tauto
  · rw [record_of_not_mem h, List.mem_append, List.mem_singleton]
    tauto

theorem subset_record : tally ⊆ record tally voter vote := fun _ h => mem_record.mpr (.inl h)

theorem nodup_record (h : (tally.map (·.1)).Nodup) :
    ((record tally voter vote).map (·.1)).Nodup := by
  by_cases hm : voter ∈ tally.map (·.1)
  · rwa [record_of_mem hm]
  · rw [record_of_not_mem hm, List.map_append, List.nodup_append]
    refine ⟨h, by simp, fun a ha b hb => ?_⟩
    simp only [List.map_cons, List.map_nil, List.mem_singleton] at hb
    rintro rfl
    exact hm (hb ▸ ha)

theorem Vetoed.record {veto : V} (h : Vetoed veto tally) :
    Vetoed veto (Ballot.record tally voter vote) :=
  h.imp fun _ h => subset_record h

theorem vetoed_record_iff {veto : V} : Vetoed veto (record tally voter vote) ↔
    Vetoed veto tally ∨ vote = veto ∧ voter ∉ tally.map (·.1) := by
  simp only [Vetoed, mem_record, exists_or, Prod.mk.injEq]
  refine or_congr_right ?_
  constructor
  · rintro ⟨_, ⟨rfl, rfl⟩, h⟩
    exact ⟨rfl, h⟩
  · rintro ⟨rfl, h⟩
    exact ⟨voter, ⟨rfl, rfl⟩, h⟩

/-- The votes one after the other. -/
def recordAll (tally : List (ι × V)) (votes : List (ι × V)) : List (ι × V) :=
  votes.foldl (fun tally vote => record tally vote.1 vote.2) tally

omit [LawfulBEq ι] in
@[simp] theorem recordAll_nil : recordAll tally [] = tally := rfl

omit [LawfulBEq ι] in
@[simp] theorem recordAll_cons (v : ι × V) (votes : List (ι × V)) :
    recordAll tally (v :: votes) = recordAll (record tally v.1 v.2) votes := rfl

theorem Vetoed.recordAll {veto : V} (h : Vetoed veto tally) (votes : List (ι × V)) :
    Vetoed veto (Ballot.recordAll tally votes) := by
  induction votes generalizing tally with
  | nil => exact h
  | cons v votes ih => exact ih h.record

def vetoedVotes [DecidableEq V] (veto : V) : List (ι × V) → List (ι × V) → Nat
  | _, [] => 0
  | tally, v :: votes =>
    (if Vetoed veto (record tally v.1 v.2) then 1 else 0) +
      vetoedVotes veto (record tally v.1 v.2) votes

theorem vetoedVotes_le_one_iff [DecidableEq V] {veto : V} (votes : List (ι × V)) :
    vetoedVotes veto tally votes ≤ 1 ↔
      votes.length ≤ 1 ∨ ¬Vetoed veto (recordAll tally votes.dropLast) := by
  induction votes generalizing tally with
  | nil => simp [vetoedVotes]
  | cons v votes ih =>
    cases votes with
    | nil =>
      simp only [vetoedVotes, List.length_singleton, Nat.le_refl, true_or, iff_true]
      split <;> omega
    | cons v' rest =>
      rw [vetoedVotes, List.dropLast_cons_cons, recordAll_cons]
      by_cases h : Vetoed veto (record tally v.1 v.2)
      · -- the first two votes both leave a veto
        refine iff_of_false (fun hOne => ?_) fun hNone => ?_
        · rw [if_pos h, vetoedVotes, if_pos h.record] at hOne
          omega
        · rcases hNone with hLength | hClean
          · rw [List.length_cons, List.length_cons] at hLength
            omega
          · exact hClean (h.recordAll (v' :: rest).dropLast)
      · rw [if_neg h, Nat.zero_add, ih]
        cases rest with
        | nil => simp [h]
        | cons _ _ => simp

omit [BEq ι] [LawfulBEq ι] in
theorem quorum_iff {electorate : List ι} (hNodup : (tally.map (·.1)).Nodup)
    (hOnly : tally.map (·.1) ⊆ electorate) (hElectorate : electorate.Nodup) :
    electorate.length ≤ tally.length ↔ electorate ⊆ tally.map (·.1) := by
  constructor
  · intro h
    have hSub := List.subperm_of_subset hNodup hOnly
    exact (hSub.perm_of_length_le (by simpa using h)).symm.subset
  · intro h
    simpa using (List.subperm_of_subset hElectorate h).length_le

end Ballot
