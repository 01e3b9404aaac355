import Mathlib.Data.List.Perm.Basic
import Cronymax.Atomic.History
import Cronymax.Spaces.Manager

/-! The active space is the one that was chosen last, as long as no deletion moves the spaces under the
active index. -/

namespace Cronymax.Spaces

open Atomic

/-- Every claim that is made about the active space, where there is a space. -/
structure Chosen (s : SpaceManager) : Prop where
  empty : s.activeIndex = -1 ↔ s.spaces = []
  range : s.spaces ≠ [] → 0 ≤ s.activeIndex ∧ s.activeIndex < s.spaces.length
  active : s.spaces ≠ [] → s.activeSpace.map (·.id) = s.switched.getLast?
  announced : s.spaces ≠ [] → ∀ ids ∈ s.announced.getLast?, s.activeSpace.map (·.id) = some ids.2
  restarted : s.spaces ≠ [] →
    ∀ call ∈ s.restarted.getLast?, s.activeSpace.map (·.workspaceRoot) = some call.1
  store : (s.spaces.map (·.id)).Perm s.store.ids

/-- The deletion of another space keeps the active one. -/
def Kept (s : SpaceManager) : Call → Prop
  | .deleteSpace spaceId now => (∀ sp ∈ s.activeSpace, sp.id ≠ spaceId) →
      (step s (.deleteSpace spaceId now)).activeSpace = s.activeSpace
  | _ => True

namespace SpaceManager

/-- Where the active index stands when the space is erased. -/
def stayIndex (s : SpaceManager) (idx : Nat) : Int :=
  if (idx : Int) = s.activeIndex then s.nextIndex idx else s.activeIndex

/-- The index names the same space after the erasure, or is clamped to it. -/
def Steady (s : SpaceManager) (idx : Nat) : Prop :=
  s.stayIndex idx < idx ∨ s.stayIndex idx + 1 = s.spaces.length

end SpaceManager

/-- A space gets a new id, and a deletion does not shift the active index. -/
def Meets (s : SpaceManager) : Call → Prop
  | .createSpace isDirectory id .. => isDirectory = true → id ∉ s.store.ids
  | .deleteSpace spaceId _ => ∀ idx ∈ s.indexOf spaceId, s.Steady idx
  | _ => True

/-- A callback that is not set has not been called. -/
structure Quiet (s : SpaceManager) : Prop where
  announced : s.switchCallback = false → s.announced = []
  restarted : s.runtimeRestartCallback = false → s.restarted = []

namespace SpaceManager

variable {s t : SpaceManager} {spaceId : String} {now : Int} {i idx a : Nat} {sp : Space}

theorem indexOf_some (h : s.indexOf spaceId = some i) :
    ∃ sp, s.spaces[i]? = some sp ∧ sp.id = spaceId := by
  obtain ⟨hi, hId, -⟩ := List.findIdx?_eq_some_iff_getElem.mp h
  exact ⟨s.spaces[i], List.getElem?_eq_getElem hi, beq_iff_eq.mp hId⟩

theorem indexOf_at (hNodup : (s.spaces.map (·.id)).Nodup) (hAt : s.spaces[i]? = some sp) :
    s.indexOf sp.id = some i := by
  obtain ⟨hi, rfl⟩ := List.getElem?_eq_some_iff.mp hAt
  refine List.findIdx?_eq_some_iff_getElem.mpr ⟨hi, beq_self_eq_true _, fun j hj hSame => ?_⟩
  have hLess : j < s.spaces.length := Nat.lt_trans hj hi
  have hIds : (s.spaces.map (·.id))[j]? = (s.spaces.map (·.id))[i]? := by
    rw [List.getElem?_map, List.getElem?_map, List.getElem?_eq_getElem hLess,
      List.getElem?_eq_getElem hi]
    exact congrArg some (beq_iff_eq.mp hSame)
  have hSameIndex := (List.getElem?_inj (by rwa [List.length_map]) hNodup).mp hIds
  omega

theorem switchTo_some (h : s.switchTo spaceId now = some t) :
    ∃ i sp, s.spaces[i]? = some sp ∧ sp.id = spaceId ∧ t = s.enter i sp now := by
  obtain ⟨i, hIndex, hEnter⟩ := Option.bind_eq_some_iff.mp h
  obtain ⟨sp, hAt, rfl⟩ := Option.map_eq_some_iff.mp hEnter
  obtain ⟨sp', hAt', hId⟩ := indexOf_some hIndex
  obtain rfl : sp = sp' := Option.some.inj (hAt.symm.trans hAt')
  exact ⟨i, sp, hAt, hId, rfl⟩

theorem switchTo_at (hNodup : (s.spaces.map (·.id)).Nodup) (hAt : s.spaces[i]? = some sp) :
    s.switchTo sp.id now = some (s.enter i sp now) := by
  unfold switchTo
  rw [indexOf_at hNodup hAt, Option.bind_some, hAt, Option.map_some]

theorem activeSpace_at (ha : s.activeIndex = a) : s.activeSpace = s.spaces[a]? := by
  unfold activeSpace
  rw [ha, Int.toNat_natCast]
  split
  · rw [eq_comm, List.getElem?_eq_none_iff]
    omega
  · rfl

@[simp] theorem activeSpace_enter : (s.enter i sp now).activeSpace = s.spaces[i]? :=
  activeSpace_at rfl

@[simp] theorem spaces_enter : (s.enter i sp now).spaces = s.spaces := rfl

@[simp] theorem ids_enter : (s.enter i sp now).store.ids = s.store.ids :=
  SpaceStore.ids_updateLastActive ..

end SpaceManager

namespace Chosen

variable {s : SpaceManager} (h : Chosen s)
include h

theorem nodup : (s.spaces.map (·.id)).Nodup := h.store.nodup_iff.mpr s.store.primaryKey

theorem index_of_ne_nil (hSome : s.spaces ≠ []) :
    ∃ a : Nat, s.activeIndex = a ∧ a < s.spaces.length := by
  obtain ⟨h0, hLt⟩ := h.range hSome
  exact ⟨s.activeIndex.toNat, by omega, by omega⟩

theorem neg_iff : s.activeIndex < 0 ↔ s.spaces = [] := by
  constructor
  · intro hNeg
    by_contra hSome
    have := (h.range hSome).1
    omega
  · intro hNil
    rw [h.empty.mpr hNil]
    decide

end Chosen

section enter

variable {s : SpaceManager} {now : Int} {i : Nat} {sp : Space}

theorem Quiet.enter (hQuiet : Quiet s) : Quiet (s.enter i sp now) where
  announced hCallback := by
    show (if s.switchCallback then _ else s.announced) = []
    have hOff : s.switchCallback = false := hCallback
    rw [hOff, if_neg Bool.false_ne_true]
    exact hQuiet.announced hOff
  restarted hCallback := by
    show (if s.runtimeRestartCallback then _ else s.restarted) = []
    have hOff : s.runtimeRestartCallback = false := hCallback
    rw [hOff, if_neg Bool.false_ne_true]
    exact hQuiet.restarted hOff

theorem Quiet.enterFirst (hQuiet : Quiet s) : Quiet (s.enterFirst now) := by
  unfold SpaceManager.enterFirst
  split
  · exact hQuiet
  · rename_i sp _ _
    cases hSwitch : s.switchTo sp.id now with
    | none => exact hQuiet
    | some t =>
      obtain ⟨i, sp, -, -, rfl⟩ := SpaceManager.switchTo_some hSwitch
      exact hQuiet.enter

theorem Quiet.last_announced (hQuiet : Quiet s) {ids : String × String}
    (hLast : ids ∈ (s.enter i sp now).announced.getLast?) : ids.2 = sp.id := by
  unfold SpaceManager.enter at hLast
  cases hCallback : s.switchCallback with
  | true =>
    simp only [hCallback, if_true, List.getLast?_append, List.getLast?_singleton, Option.some_or,
      Option.mem_some_iff] at hLast
    rw [← hLast]
  | false =>
    simp [hCallback, hQuiet.announced hCallback] at hLast

theorem Quiet.last_restarted (hQuiet : Quiet s) {call : String × ProfileRecord}
    (hLast : call ∈ (s.enter i sp now).restarted.getLast?) : call.1 = sp.workspaceRoot := by
  unfold SpaceManager.enter at hLast
  cases hCallback : s.runtimeRestartCallback with
  | true =>
    simp only [hCallback, if_true, List.getLast?_append, List.getLast?_singleton, Option.some_or,
      Option.mem_some_iff] at hLast
    rw [← hLast]
  | false =>
    simp [hCallback, hQuiet.restarted hCallback] at hLast

/-- A switch makes the space the chosen one, whatever was chosen before. -/
theorem Quiet.chosen_enter (hQuiet : Quiet s) (hStore : (s.spaces.map (·.id)).Perm s.store.ids)
    (hAt : s.spaces[i]? = some sp) : Chosen (s.enter i sp now) := by
  obtain ⟨hi, -⟩ := List.getElem?_eq_some_iff.mp hAt
  have hIndex : (s.enter i sp now).activeIndex = i := rfl
  have hSome : s.spaces ≠ [] := List.length_pos_iff.mp (by omega)
  refine ⟨?_, fun _ => ?_, fun _ => ?_, fun _ ids hLast => ?_, fun _ call hLast => ?_, ?_⟩
  · rw [hIndex, SpaceManager.spaces_enter]
    exact iff_of_false (by omega) hSome
  · rw [hIndex, SpaceManager.spaces_enter]
    omega
  · rw [SpaceManager.activeSpace_enter, hAt]
    show _ = (s.switched ++ [sp.id]).getLast?
    simp
  · rw [SpaceManager.activeSpace_enter, hAt, hQuiet.last_announced hLast]
    rfl
  · rw [SpaceManager.activeSpace_enter, hAt, hQuiet.last_restarted hLast]
    rfl
  · rw [SpaceManager.ids_enter]
    exact hStore

end enter

section createSpace

variable {s : SpaceManager} {row : SpaceRow} {now : Int}

theorem SpaceManager.ids_add :
    (s.add row).spaces.map (·.id) = s.spaces.map (·.id) ++ [row.id] := List.map_append

theorem Quiet.addOrEnter (hQuiet : Quiet s) : Quiet (s.addOrEnter row now) := by
  have hAdd : Quiet (s.add row) := ⟨hQuiet.announced, hQuiet.restarted⟩
  unfold SpaceManager.addOrEnter
  split
  · cases hSwitch : (s.add row).switchTo row.id now with
    | none => exact hAdd
    | some t =>
      obtain ⟨i, sp, -, -, rfl⟩ := SpaceManager.switchTo_some hSwitch
      exact hAdd.enter
  · exact hAdd

theorem Chosen.add (h : Chosen s) (hSome : s.spaces ≠ []) (hNew : row.id ∉ s.store.ids) :
    Chosen (s.add row) := by
  obtain ⟨a, ha, hLt⟩ := h.index_of_ne_nil hSome
  have hIndex : (s.add row).activeIndex = a := ha
  have hLonger : (s.add row).spaces.length = s.spaces.length + 1 := List.length_append
  have hSame : (s.add row).activeSpace = s.activeSpace := by
    rw [SpaceManager.activeSpace_at ha, SpaceManager.activeSpace_at hIndex]
    exact List.getElem?_append_left hLt
  refine ⟨?_, fun _ => ?_, fun _ => ?_, fun _ ids hLast => ?_, fun _ call hLast => ?_, ?_⟩
  · rw [hIndex]
    exact iff_of_false (by omega) (List.append_ne_nil_of_right_ne_nil _ (List.cons_ne_nil _ _))
  · rw [hIndex, hLonger]
    omega
  · rw [hSame]
    exact h.active hSome
  · rw [hSame]
    exact h.announced hSome ids hLast
  · rw [hSame]
    exact h.restarted hSome call hLast
  · rw [SpaceManager.ids_add]
    show List.Perm _ (s.store.createSpace row).ids
    rw [SpaceStore.ids_createSpace hNew]
    exact h.store.append_right _

theorem Chosen.addOrEnter_iff (h : Chosen s) (hQuiet : Quiet s) :
    Chosen (s.addOrEnter row now) ↔ row.id ∉ s.store.ids := by
  unfold SpaceManager.addOrEnter
  show Chosen (if s.activeIndex < 0 then _ else _) ↔ _
  by_cases hNil : s.spaces = []
  · have hNew : row.id ∉ s.store.ids := by
      rw [← h.store.mem_iff, hNil]
      exact List.not_mem_nil
    have hStore : ((s.add row).spaces.map (·.id)).Perm (s.add row).store.ids := by
      rw [SpaceManager.ids_add]
      show List.Perm _ (s.store.createSpace row).ids
      rw [SpaceStore.ids_createSpace hNew]
      exact h.store.append_right _
    have hAt : (s.add row).spaces[0]? = some (instantiateSpace row) := by
      unfold SpaceManager.add
      rw [hNil]
      rfl
    have hSwitch : (s.add row).switchTo row.id now =
        some ((s.add row).enter 0 (instantiateSpace row) now) :=
      SpaceManager.switchTo_at (hStore.nodup_iff.mpr (SpaceStore.primaryKey _)) hAt
    rw [if_pos (h.neg_iff.mpr hNil), hSwitch]
    exact iff_of_true
      (Quiet.chosen_enter ⟨hQuiet.announced, hQuiet.restarted⟩ hStore hAt) hNew
  · rw [if_neg (by simpa [h.neg_iff] using hNil)]
    refine ⟨fun hAfter hKnown => ?_, h.add hNil⟩
    have hLength : _ = (s.store.createSpace row).ids.length := hAfter.store.length_eq
    rw [SpaceManager.ids_add, SpaceStore.ids_createSpace_known hKnown, ← h.store.length_eq,
      List.length_append, List.length_singleton] at hLength
    omega

end createSpace

section deleteSpace

variable {s : SpaceManager} {now : Int} {idx a : Nat} {sp : Space}

theorem Quiet.leave (hQuiet : Quiet s) : Quiet (s.leave idx now) := by
  unfold SpaceManager.leave
  split
  · cases hSwitch : (s.spaces[s.nextIndex idx]?).bind fun sp => s.switchTo sp.id now with
    | none => exact hQuiet
    | some t =>
      obtain ⟨sp, -, hSwitch⟩ := Option.bind_eq_some_iff.mp hSwitch
      obtain ⟨i, sp, -, -, rfl⟩ := SpaceManager.switchTo_some hSwitch
      exact hQuiet.enter
  · exact hQuiet

theorem Chosen.leave (h : Chosen s) (now : Int) (hQuiet : Quiet s) (hMany : 1 < s.spaces.length)
    (hIdx : idx < s.spaces.length) :
    Chosen (s.leave idx now) ∧ (s.leave idx now).spaces = s.spaces ∧
      (s.leave idx now).activeIndex = s.stayIndex idx ∧ s.stayIndex idx ≠ idx := by
  unfold SpaceManager.leave SpaceManager.stayIndex
  by_cases hActive : (idx : Int) = s.activeIndex
  · rw [if_pos ⟨hActive, hMany⟩, if_pos hActive]
    have hNext : s.nextIndex idx < s.spaces.length ∧ s.nextIndex idx ≠ idx := by
      unfold SpaceManager.nextIndex
      split <;> omega
    have hAt := List.getElem?_eq_getElem hNext.1
    rw [hAt, Option.bind_some, SpaceManager.switchTo_at h.nodup hAt, Option.getD_some]
    exact ⟨hQuiet.chosen_enter h.store hAt, rfl, rfl, by omega⟩
  · rw [if_neg fun hBoth => hActive hBoth.1, if_neg hActive]
    exact ⟨h, rfl, rfl, fun hSame => hActive hSame.symm⟩

theorem SpaceManager.ids_removeAt (hNodup : (s.spaces.map (·.id)).Nodup)
    (hAt : s.spaces[idx]? = some sp) :
    (s.spaces.eraseIdx idx).map (·.id) = (s.spaces.map (·.id)).filter (· ≠ sp.id) := by
  obtain ⟨hIdx, rfl⟩ := List.getElem?_eq_some_iff.mp hAt
  rw [← List.eraseIdx_map]
  have hErase := hNodup.erase_getElem idx (by simpa using hIdx)
  rw [← hErase, hNodup.erase_eq_filter, List.getElem_map]
  exact List.filter_congr fun id _ => by
    rw [bne, beq_eq_decide, decide_not]

section several

variable (ha : s.activeIndex = a) (hLt : a < s.spaces.length) (hIdx : idx < s.spaces.length)
  (hne : a ≠ idx)
include ha hLt hIdx hne

theorem SpaceManager.activeIndex_removeAt (spaceId : String) :
    (s.removeAt spaceId idx).activeIndex = Selection.clip (s.spaces.length - 1) a := by
  have hLength : (s.spaces.eraseIdx idx).length = s.spaces.length - 1 :=
    List.length_eraseIdx_of_lt hIdx
  have hSome : s.spaces.eraseIdx idx ≠ [] := List.length_pos_iff.mp (by omega)
  unfold SpaceManager.removeAt Selection.clip
  simp only [if_neg hSome, hLength, ha]
  split <;> split <;> omega

theorem SpaceManager.activeSpace_removeAt {spaceId : String} :
    (s.removeAt spaceId idx).activeSpace =
      (s.spaces.eraseIdx idx)[Selection.clip (s.spaces.length - 1) a]? :=
  SpaceManager.activeSpace_at (SpaceManager.activeIndex_removeAt ha hLt hIdx hne _)

theorem SpaceManager.activeSpace_removeAt_steady (spaceId : String)
    (hSteady : a < idx ∨ a + 1 = s.spaces.length) :
    (s.removeAt spaceId idx).activeSpace = s.activeSpace := by
  rw [SpaceManager.activeSpace_removeAt ha hLt hIdx hne, SpaceManager.activeSpace_at ha]
  exact Selection.getElem?_eraseIdx_clip hIdx hLt hne hSteady

end several

theorem Chosen.perm_removeAt (h : Chosen s) (hAt : s.spaces[idx]? = some sp) :
    ((s.removeAt sp.id idx).spaces.map (·.id)).Perm (s.removeAt sp.id idx).store.ids := by
  show ((s.spaces.eraseIdx idx).map (·.id)).Perm (s.store.deleteSpace sp.id).ids
  rw [SpaceManager.ids_removeAt h.nodup hAt, SpaceStore.ids_deleteSpace]
  exact h.store.filter _

theorem Chosen.removeAt_iff (h : Chosen s) (hAt : s.spaces[idx]? = some sp)
    (ha : s.activeIndex = a) (hne : a ≠ idx) :
    Chosen (s.removeAt sp.id idx) ↔ a < idx ∨ a + 1 = s.spaces.length := by
  obtain ⟨hIdx, -⟩ := List.getElem?_eq_some_iff.mp hAt
  have hSome : s.spaces ≠ [] := List.length_pos_iff.mp (by omega)
  have hLt : a < s.spaces.length := by
    have := (h.range hSome).2
    omega
  have hIndex := SpaceManager.activeIndex_removeAt ha hLt hIdx hne sp.id
  have hLength : (s.removeAt sp.id idx).spaces.length = s.spaces.length - 1 :=
    List.length_eraseIdx_of_lt hIdx
  have hSome' : (s.removeAt sp.id idx).spaces ≠ [] := List.length_pos_iff.mp (by omega)
  constructor
  · intro hAfter
    have hSame := (hAfter.active hSome').trans (h.active hSome).symm
    rw [SpaceManager.activeSpace_removeAt ha hLt hIdx hne, SpaceManager.activeSpace_at ha,
      ← List.getElem?_map, ← List.getElem?_map, ← List.eraseIdx_map] at hSame
    have hIff := Selection.getElem?_eraseIdx_clip_iff h.nodup (i := idx) (a := a)
      (by rwa [List.length_map]) (by rwa [List.length_map]) hne
    rw [List.length_map] at hIff
    exact hIff.mp hSame
  · intro hSteady
    have hSame := SpaceManager.activeSpace_removeAt_steady ha hLt hIdx hne sp.id hSteady
    refine ⟨?_, fun _ => ?_, fun _ => ?_, fun _ ids hLast => ?_, fun _ call hLast => ?_,
      h.perm_removeAt hAt⟩
    · rw [hIndex]
      exact iff_of_false (by omega) hSome'
    · rw [hIndex, hLength]
      have := Selection.clip_lt a (show 0 < s.spaces.length - 1 by omega)
      omega
    · rw [hSame]
      exact h.active hSome
    · rw [hSame]
      exact h.announced hSome ids hLast
    · rw [hSame]
      exact h.restarted hSome call hLast

theorem Chosen.removeAt_only (h : Chosen s) (hAt : s.spaces[idx]? = some sp)
    (hOnly : s.spaces.length = 1) : Chosen (s.removeAt sp.id idx) := by
  obtain ⟨hIdx, -⟩ := List.getElem?_eq_some_iff.mp hAt
  have hNil : s.spaces.eraseIdx idx = [] := by
    rw [← List.length_eq_zero_iff, List.length_eraseIdx_of_lt hIdx, hOnly]
  have hGone : (s.removeAt sp.id idx).spaces = [] := hNil
  have hIndex : (s.removeAt sp.id idx).activeIndex = -1 := by
    unfold SpaceManager.removeAt
    simp only [if_pos hNil]
  exact ⟨iff_of_true hIndex hGone, fun hSome => absurd hGone hSome, fun hSome => absurd hGone hSome,
    fun hSome => absurd hGone hSome, fun hSome => absurd hGone hSome, h.perm_removeAt hAt⟩

theorem Chosen.delete_iff (h : Chosen s) (hQuiet : Quiet s) (hAt : s.spaces[idx]? = some sp) :
    Chosen ((s.leave idx now).removeAt sp.id idx) ↔ s.Steady idx := by
  obtain ⟨hIdx, -⟩ := List.getElem?_eq_some_iff.mp hAt
  have hSome : s.spaces ≠ [] := List.length_pos_iff.mp (by omega)
  have hRange := h.range hSome
  unfold SpaceManager.Steady
  by_cases hMany : 1 < s.spaces.length
  · obtain ⟨hLeft, hSpaces, hIndex, hne⟩ := h.leave now hQuiet hMany hIdx
    have hStay : 0 ≤ s.stayIndex idx := by
      rw [← hIndex]
      exact (hLeft.range (hSpaces ▸ hSome)).1
    have hAt' : (s.leave idx now).spaces[idx]? = some sp := by rw [hSpaces, hAt]
    rw [hLeft.removeAt_iff hAt' (a := (s.stayIndex idx).toNat) (by omega) (by omega), hSpaces]
    omega
  · have hOnly : s.spaces.length = 1 := by omega
    have hStays : s.leave idx now = s := if_neg fun hBoth => hMany hBoth.2
    rw [hStays]
    refine iff_of_true (h.removeAt_only hAt hOnly) (.inr ?_)
    unfold SpaceManager.stayIndex SpaceManager.nextIndex
    rw [if_pos (by omega), if_neg (by omega)]
    omega

theorem Chosen.kept_delete (h : Chosen s) (hAt : s.spaces[idx]? = some sp) (hSteady : s.Steady idx)
    (hOther : (idx : Int) ≠ s.activeIndex) :
    ((s.leave idx now).removeAt sp.id idx).activeSpace = s.activeSpace := by
  obtain ⟨hIdx, -⟩ := List.getElem?_eq_some_iff.mp hAt
  obtain ⟨a, ha, hLt⟩ := h.index_of_ne_nil (List.length_pos_iff.mp (by omega))
  have hStays : s.leave idx now = s := if_neg fun hBoth => hOther hBoth.1
  have hStay : s.stayIndex idx = a := by
    rw [← ha]
    exact if_neg hOther
  unfold SpaceManager.Steady at hSteady
  rw [hStays]
  exact SpaceManager.activeSpace_removeAt_steady ha hLt hIdx (by omega) _ (by omega)

end deleteSpace

/-- What holds between two calls. -/
structure Sound (s : SpaceManager) : Prop where
  chosen : Chosen s
  quiet : Quiet s

section step

variable {s : SpaceManager} {c : Call}

theorem Quiet.step (hQuiet : Quiet s) : Quiet (step s c) := by
  cases c with
  | createSpace isDirectory id name rootPath profileId createdAt lastActive now =>
    cases isDirectory with
    | false => exact hQuiet
    | true => exact hQuiet.addOrEnter
  | switchTo spaceId now =>
    show Quiet ((s.switchTo spaceId now).getD s)
    cases hSwitch : s.switchTo spaceId now with
    | none => exact hQuiet
    | some t =>
      obtain ⟨i, sp, -, -, rfl⟩ := SpaceManager.switchTo_some hSwitch
      exact hQuiet.enter
  | deleteSpace spaceId now =>
    show Quiet (((s.indexOf spaceId).map _).getD s)
    cases s.indexOf spaceId with
    | none => exact hQuiet
    | some idx =>
      have hLeft : Quiet (s.leave idx now) := hQuiet.leave
      exact ⟨hLeft.announced, hLeft.restarted⟩
  | setSwitchCallback => exact ⟨fun h => (by cases h), hQuiet.restarted⟩
  | setRuntimeRestartCallback => exact ⟨hQuiet.announced, fun h => (by cases h)⟩

theorem Sound.step_iff (h : Sound s) : Chosen (step s c) ∧ Kept s c ↔ Meets s c := by
  cases c with
  | createSpace isDirectory id name rootPath profileId createdAt lastActive now =>
    cases isDirectory with
    | false => exact iff_of_true ⟨h.chosen, trivial⟩ fun hDir => by cases hDir
    | true =>
      refine (and_iff_left trivial).trans ((h.chosen.addOrEnter_iff h.quiet).trans ?_)
      exact ⟨fun hNew _ => hNew, fun hNew => hNew rfl⟩
  | switchTo spaceId now =>
    refine iff_of_true ⟨?_, trivial⟩ trivial
    show Chosen ((s.switchTo spaceId now).getD s)
    cases hSwitch : s.switchTo spaceId now with
    | none => exact h.chosen
    | some t =>
      obtain ⟨i, sp, hAt, -, rfl⟩ := SpaceManager.switchTo_some hSwitch
      exact h.quiet.chosen_enter h.chosen.store hAt
  | deleteSpace spaceId now =>
    cases hIndex : s.indexOf spaceId with
    | none =>
      have hSame : step s (.deleteSpace spaceId now) = s := by
        show ((s.indexOf spaceId).map _).getD s = s
        rw [hIndex]
        rfl
      refine iff_of_true ⟨by rw [hSame]; exact h.chosen, fun _ => by rw [hSame]⟩ fun idx hIdx => ?_
      rw [hIndex] at hIdx
      cases hIdx
    | some idx =>
      obtain ⟨sp, hAt, rfl⟩ := SpaceManager.indexOf_some hIndex
      have hStep : step s (.deleteSpace sp.id now) = (s.leave idx now).removeAt sp.id idx := by
        show ((s.indexOf sp.id).map _).getD s = _
        rw [hIndex]
        rfl
      have hMeets : Meets s (.deleteSpace sp.id now) ↔ s.Steady idx := by
        show (∀ idx ∈ s.indexOf sp.id, s.Steady idx) ↔ _
        rw [hIndex]
        simp
      rw [hMeets, hStep, h.chosen.delete_iff h.quiet hAt, and_iff_left_iff_imp]
      intro hSteady hOther
      rw [hStep]
      refine h.chosen.kept_delete hAt hSteady fun hActive => ?_
      exact hOther sp (by rw [SpaceManager.activeSpace_at hActive.symm, hAt]; rfl) rfl
  | setSwitchCallback =>
    have hc := h.chosen
    exact iff_of_true
      ⟨⟨hc.empty, hc.range, hc.active, hc.announced, hc.restarted, hc.store⟩, trivial⟩ trivial
  | setRuntimeRestartCallback =>
    have hc := h.chosen
    exact iff_of_true
      ⟨⟨hc.empty, hc.range, hc.active, hc.announced, hc.restarted, hc.store⟩, trivial⟩ trivial

end step

section init

variable (store : SpaceStore) (profileStore : String → Option ProfileRecord)
  (switchCallback runtimeRestartCallback : Bool) (now : Int)

theorem sound_init :
    Sound (.init store profileStore switchCallback runtimeRestartCallback now) := by
  let closed : SpaceManager :=
    { store
      profileStore
      spaces := store.rows.map instantiateSpace
      activeIndex := -1
      switchCallback
      runtimeRestartCallback
      announced := []
      restarted := []
      switched := [] }
  have hQuiet : Quiet closed := ⟨fun _ => rfl, fun _ => rfl⟩
  have hStore : (closed.spaces.map (·.id)).Perm closed.store.ids := by
    show ((store.rows.map instantiateSpace).map (·.id)).Perm _
    rw [List.map_map]
    exact List.Perm.refl _
  refine ⟨?_, hQuiet.enterFirst⟩
  cases hList : closed.spaces with
  | nil =>
    have hSame : closed.enterFirst now = closed := by
      unfold SpaceManager.enterFirst
      rw [hList]
    show Chosen (closed.enterFirst now)
    rw [hSame]
    exact ⟨iff_of_true rfl hList, fun h => absurd hList h, fun h => absurd hList h,
      fun h => absurd hList h, fun h => absurd hList h, hStore⟩
  | cons sp rest =>
    have hAt : closed.spaces[0]? = some sp := by
      rw [hList]
      rfl
    have hSame : closed.enterFirst now = closed.enter 0 sp now := by
      unfold SpaceManager.enterFirst
      rw [hList]
      show (closed.switchTo sp.id now).getD closed = _
      rw [SpaceManager.switchTo_at (hStore.nodup_iff.mpr closed.store.primaryKey) hAt]
      rfl
    show Chosen (closed.enterFirst now)
    rw [hSame]
    exact hQuiet.chosen_enter hStore hAt

/-- In every run the active space is the chosen one after every call, and is kept by the deletion of
another one, exactly if every call meets the condition. -/
theorem active_space_iff (calls : List Call) :
    Chosen (.init store profileStore switchCallback runtimeRestartCallback now) ∧
      (History.Each step (fun s c => Chosen (step s c) ∧ Kept s c)
          (.init store profileStore switchCallback runtimeRestartCallback now) calls ↔
        History.Each step Meets
          (.init store profileStore switchCallback runtimeRestartCallback now) calls) :=
  ⟨(sound_init ..).chosen, History.each_congr (I := Sound) (sound_init ..)
    (fun _ _ h hMet => ⟨hMet.1, h.quiet.step⟩) (fun _ _ h => h.step_iff) calls⟩

end init

def threeSpaces : SpaceStore where
  rows := [⟨"a", "a", "/a", "default", 0, 3⟩, ⟨"b", "b", "/b", "default", 0, 2⟩,
    ⟨"c", "c", "/c", "default", 0, 1⟩]
  primaryKey := by decide

/-- The second space is chosen and the first one deleted: the third is active then, although the runtime
works in the second. -/
theorem deletion_moves_active :
    ¬History.Each step (fun s c => Chosen (step s c) ∧ Kept s c)
      (.init threeSpaces (fun _ => none) true true 3) [.switchTo "b" 4, .deleteSpace "a" 5] := by
  rintro ⟨-, ⟨hChosen, -⟩, -⟩
  have hRestarted := hChosen.restarted (by decide)
  exact absurd (hRestarted ("/b", SpaceManager.fallbackProfile) (by decide)) (by decide)

end Cronymax.Spaces
