import Cronymax.Capability.Filesystem
import Cronymax.Text.Occurrences
import Cronymax.Text.Seams

/-! The diff of a replacement.  Its hunk has the old lines around the first line that differs, and
behind all of them the new ones, so that it says what was changed only where the added lines may as well
stand behind the context that follows them. -/

namespace Cronymax.Capability

open Text (OccursAt OccursOnce Ended)

/-- The lines that the hunk takes away or leaves. -/
def Hunk.oldSide (h : Hunk) : List String := (h.body.filter fun l => l.1 ≠ .added).map Prod.snd

/-- The lines that the hunk leaves or adds. -/
def Hunk.newSide (h : Hunk) : List String := (h.body.filter fun l => l.1 ≠ .removed).map Prod.snd

/-- The hunk is applied at its first line, if its old side stands there. -/
def Hunk.apply (h : Hunk) (ls : List String) : Option (List String) :=
  let start := h.oldStart - 1
  if h.oldSide.length = h.oldCount ∧ h.newSide.length = h.newCount ∧
      (ls.drop start).take h.oldCount = h.oldSide then
    some (ls.take start ++ h.newSide ++ ls.drop (start + h.oldCount))
  else none

theorem splitOn_newline (text : List Char) : text.splitOn '\n' = Text.pieces text := by
  induction text with
  | nil => rfl
  | cons c text ih =>
    rw [List.splitOn] at ih ⊢
    rw [List.splitOnP_cons_eq_if_modifyHead, ih, Text.pieces, Text.pieces, Framing.cutAt]
    by_cases hc : c = '\n'
    · simp [hc, Text.isNewline]
    · simp only [Text.isNewline, hc, decide_false, beq_iff_eq, if_false]
      cases (Framing.cutAt Text.isNewline text).1 <;> simp

theorem lines_eq (text : String) : lines text = (Text.lines text.toList).map String.ofList := by
  rw [lines, splitOn_newline, Text.pieces, Text.lines]
  simp only [List.dropLast_concat, List.getLast?_concat]
  congr 2
  cases (Framing.cutAt Text.isNewline text.toList).2 <;> rfl

section Ranges

variable {α : Type} (all : List α) (u v : Nat)

theorem filter_inside (s : Nat) :
    ((all.zipIdx s).filter fun l => u ≤ l.2 ∧ l.2 < v).map Prod.fst = (all.take (v - s)).drop (u - s) := by
  induction all generalizing s with
  | nil => simp
  | cons a all ih =>
    rw [List.zipIdx_cons, List.filter_cons]
    by_cases hIn : u ≤ s ∧ s < v
    · obtain ⟨n, hn⟩ : ∃ n, v - s = n + 1 := ⟨v - s - 1, by omega⟩
      have hu : u - s = 0 := by omega
      have hu' : u - (s + 1) = 0 := by omega
      have hn' : v - (s + 1) = n := by omega
      rw [if_pos (by simpa using hIn), List.map_cons, ih, hn, hu, hu', hn', List.take_succ_cons,
        List.drop_zero, List.drop_zero]
    · rw [if_neg (by simpa using hIn), ih]
      by_cases hv : v ≤ s
      · have hZero : v - s = 0 := by omega
        have hZero' : v - (s + 1) = 0 := by omega
        simp [hZero, hZero']
      · obtain ⟨n, hn⟩ : ∃ n, v - s = n + 1 := ⟨v - s - 1, by omega⟩
        obtain ⟨m, hm⟩ : ∃ m, u - s = m + 1 := ⟨u - s - 1, by omega⟩
        have hn' : v - (s + 1) = n := by omega
        have hm' : u - (s + 1) = m := by omega
        rw [hn, hm, hn', hm', List.take_succ_cons, List.drop_succ_cons]

theorem filter_outside (h : u ≤ v) (s : Nat) :
    ((all.zipIdx s).filter fun l => ¬(u ≤ l.2 ∧ l.2 < v)).map Prod.fst =
      all.take (u - s) ++ all.drop (v - s) := by
  induction all generalizing s with
  | nil => simp
  | cons a all ih =>
    rw [List.zipIdx_cons, List.filter_cons]
    by_cases hIn : u ≤ s ∧ s < v
    · obtain ⟨n, hn⟩ : ∃ n, v - s = n + 1 := ⟨v - s - 1, by omega⟩
      have hu : u - s = 0 := by omega
      have hu' : u - (s + 1) = 0 := by omega
      have hn' : v - (s + 1) = n := by omega
      rw [if_neg (by simpa using hIn), ih, hn, hu, hu', hn', List.drop_succ_cons, List.take_zero,
        List.take_zero]
    · rw [if_pos (by simp only [hIn]; rfl), List.map_cons, ih]
      by_cases hv : v ≤ s
      · have hu : u - s = 0 := by omega
        have hu' : u - (s + 1) = 0 := by omega
        have hZero : v - s = 0 := by omega
        have hZero' : v - (s + 1) = 0 := by omega
        simp [hu, hu', hZero, hZero']
      · obtain ⟨n, hn⟩ : ∃ n, v - s = n + 1 := ⟨v - s - 1, by omega⟩
        obtain ⟨m, hm⟩ : ∃ m, u - s = m + 1 := ⟨u - s - 1, by omega⟩
        have hn' : v - (s + 1) = n := by omega
        have hm' : u - (s + 1) = m := by omega
        rw [hn, hm, hn', hm', List.take_succ_cons, List.drop_succ_cons, List.cons_append]

end Ranges

/-- The lines have a start in common, and go on with different lines. -/
def Diverge (old new common : List String) : Prop :=
  ∃ x y old' new', old = common ++ x :: old' ∧ new = common ++ y :: new' ∧ x ≠ y

theorem diverge_or_prefix (old new : List String) :
    (∃ common, Diverge old new common) ∨ old <+: new ∨ new <+: old := by
  induction old generalizing new with
  | nil => exact .inr (.inl List.nil_prefix)
  | cons x old ih =>
    cases new with
    | nil => exact .inr (.inr List.nil_prefix)
    | cons y new =>
      by_cases hxy : x = y
      · subst hxy
        refine (ih new).imp ?_ (Or.imp (fun h => ?_) fun h => ?_)
        · rintro ⟨common, u, v, old', new', rfl, rfl, hNe⟩
          exact ⟨x :: common, u, v, old', new', rfl, rfl, hNe⟩
        · exact List.cons_prefix_cons.mpr ⟨rfl, h⟩
        · exact List.cons_prefix_cons.mpr ⟨rfl, h⟩
      · exact .inl ⟨[], x, y, old, new, rfl, rfl, hxy⟩

theorem Diverge.longest {old new common shared : List String} (h : Diverge old new common)
    (hOld : shared <+: old) (hNew : shared <+: new) : shared.length ≤ common.length := by
  obtain ⟨x, y, old', new', rfl, rfl, hNe⟩ := h
  by_contra hLong
  have hFirst {z : String} {rest : List String} (h : shared <+: common ++ z :: rest) :
      common ++ [z] <+: shared := by
    refine List.prefix_of_prefix_length_le ⟨rest, by simp⟩ h ?_
    rw [List.length_append, List.length_singleton]
    omega
  have hSame := List.prefix_of_prefix_length_le (hFirst hOld) (hFirst hNew) (by simp)
  have hEq := List.append_cancel_left (hSame.eq_of_length (by simp))
  exact hNe (List.cons.inj hEq).1

theorem changedStart_diverge {old new common : List String} (h : Diverge old new common) :
    changedStart old new = common.length := by
  obtain ⟨x, y, old', new', rfl, rfl, hNe⟩ := h
  suffices hIdx : (((common ++ x :: old').zip (common ++ y :: new')).findIdx? fun l => l.1 ≠ l.2) =
      some common.length by
    rw [changedStart, hIdx, Option.getD_some]
  induction common with
  | nil => simp [List.findIdx?_cons, hNe]
  | cons z common ih =>
    rw [List.cons_append, List.cons_append, List.zip_cons_cons, List.findIdx?_cons, if_neg (by simp), ih]
    rfl

theorem changedStart_nested {old new : List String} (h : old <+: new ∨ new <+: old) :
    changedStart old new = 0 := by
  suffices hIdx : ((old.zip new).findIdx? fun l => l.1 ≠ l.2) = none by
    rw [changedStart, hIdx, Option.getD_none]
  induction old generalizing new with
  | nil => rfl
  | cons x old ih =>
    cases new with
    | nil => rfl
    | cons y new =>
      have hxy : x = y ∧ (old <+: new ∨ new <+: old) := by
        rcases h with h | h
        · exact ⟨(List.cons_prefix_cons.mp h).1, .inl (List.cons_prefix_cons.mp h).2⟩
        · exact ⟨(List.cons_prefix_cons.mp h).1.symm, .inr (List.cons_prefix_cons.mp h).2⟩
      rw [List.zip_cons_cons, List.findIdx?_cons, if_neg (by simp [hxy.1]), ih hxy.2]
      rfl

theorem changedStart_spec (old new : List String) :
    changedStart old new ≤ old.length ∧ changedStart old new ≤ new.length ∧
      old.take (changedStart old new) = new.take (changedStart old new) := by
  rcases diverge_or_prefix old new with ⟨common, hDiverge⟩ | hPrefix
  · rw [changedStart_diverge hDiverge]
    obtain ⟨x, y, old', new', rfl, rfl, -⟩ := hDiverge
    rw [List.take_left, List.take_left]
    simp
  · rw [changedStart_nested hPrefix]
    simp

theorem markOld_old (start c r : Nat) (before : List String) :
    ((markOld start c r before).filter fun l => l.1 ≠ .added).map Prod.snd = before := by
  have hAll : ∀ l ∈ markOld start c r before, (l.1 ≠ .added : Bool) = true := by
    intro l hl
    obtain ⟨x, -, rfl⟩ := List.mem_map.mp hl
    simp only
    split <;> rfl
  rw [List.filter_eq_self.mpr hAll, markOld, List.map_map]
  exact List.zipIdx_map_fst start before

theorem markOld_new (start c r : Nat) (before : List String) :
    ((markOld start c r before).filter fun l => l.1 ≠ .removed).map Prod.snd =
      before.take (c - start) ++ before.drop (c + r - start) := by
  have hPass : ((fun l : Mark × String => decide (l.1 ≠ .removed)) ∘ fun l : String × Nat =>
      ((if c ≤ l.2 ∧ l.2 < c + r then .removed else .context, l.1) : Mark × String)) =
      fun l => decide ¬(c ≤ l.2 ∧ l.2 < c + r) := by
    funext l
    simp only [Function.comp_apply]
    split <;> simp [*]
  rw [← filter_outside before c (c + r) (by omega) start, markOld, List.filter_map, hPass, List.map_map]
  rfl

theorem markNew_old (start c a : Nat) (after : List String) :
    ((markNew start c a after).filter fun l => l.1 ≠ .added).map Prod.snd = [] := by
  rw [markNew, List.filter_map]
  simp [Function.comp_def]

theorem markNew_new (start c a : Nat) (after : List String) :
    ((markNew start c a after).filter fun l => l.1 ≠ .removed).map Prod.snd =
      (after.take (c + a - start)).drop (c - start) := by
  rw [← filter_inside after c (c + a) start, markNew, List.filter_map, List.map_map]
  simp [Function.comp_def]

theorem contextHunk_eq (content newContent oldStr newStr : String) :
    let old := lines content
    let new := lines newContent
    let c := changedStart old new
    let r := max (lines oldStr).length 1
    let a := max (lines newStr).length 1
    contextHunk content newContent oldStr newStr = some
      ⟨c - 3 + 1, min (c + r + 3) old.length - (c - 3), c - 3 + 1, min (c + a + 3) new.length - (c - 3),
        markOld (c - 3) c r ((old.take (min (c + r + 3) old.length)).drop (c - 3)) ++
          markNew (c - 3) c a ((new.take (min (c + a + 3) new.length)).drop (c - 3))⟩ := by
  intro old new c r a
  obtain ⟨hOld, hNew, -⟩ := changedStart_spec old new
  have hBefore : slice old (c - 3) (min (c + r + 3) old.length) =
      some ((old.take (min (c + r + 3) old.length)).drop (c - 3)) := if_pos (by omega)
  have hAfter : slice new (c - 3) (min (c + a + 3) new.length) =
      some ((new.take (min (c + a + 3) new.length)).drop (c - 3)) := if_pos (by omega)
  show ((slice old (c - 3) _).bind fun before => (slice new (c - 3) _).bind fun after => some _) = _
  rw [hBefore, Option.bind_some, hAfter, Option.bind_some]

section Applied

variable {α : Type} {all : List α} {s c r stop : Nat}

theorem take_within (hs : s ≤ c) (hc : c ≤ stop) :
    ((all.take stop).drop s).take (c - s) = (all.take c).drop s := by
  rw [List.take_drop, List.take_take]
  congr 2
  omega

theorem drop_within (hs : s ≤ c) :
    ((all.take (min (c + r + 3) all.length)).drop s).drop (c + r - s) = (all.drop (c + r)).take 3 := by
  rw [List.drop_drop, show s + (c + r - s) = c + r by omega, List.drop_take, List.take_eq_take_iff,
    List.length_drop]
  omega

theorem changed_within (hs : s ≤ c) :
    (((all.take (min (c + r + 3) all.length)).drop s).take (c + r - s)).drop (c - s) =
      (all.drop c).take r := by
  rw [List.take_drop, List.drop_drop, List.take_take, List.drop_take, show s + (c - s) = c by omega,
    List.take_eq_take_iff, List.length_drop]
  omega

end Applied

theorem apply_iff {old new : List String} {c r a : Nat} (hOld : c ≤ old.length) (hNew : c ≤ new.length)
    (hSame : old.take c = new.take c) :
    Hunk.apply
      ⟨c - 3 + 1, min (c + r + 3) old.length - (c - 3), c - 3 + 1, min (c + a + 3) new.length - (c - 3),
        markOld (c - 3) c r ((old.take (min (c + r + 3) old.length)).drop (c - 3)) ++
          markNew (c - 3) c a ((new.take (min (c + a + 3) new.length)).drop (c - 3))⟩ old = some new ↔
      (old.drop (c + r)).take 3 ++ (new.drop c).take a ++ old.drop (c + r + 3) = new.drop c := by
  generalize hs : c - 3 = s
  have hsc : s ≤ c := by omega
  have hBefore : ((old.take (min (c + r + 3) old.length)).drop s).length =
      min (c + r + 3) old.length - s := by
    rw [List.length_drop, List.length_take]
    omega
  have hWindow : (old.drop s).take (min (c + r + 3) old.length - s) =
      (old.take (min (c + r + 3) old.length)).drop s := List.drop_take.symm
  have hRest : old.drop (s + (min (c + r + 3) old.length - s)) = old.drop (c + r + 3) := by
    rw [show s + (min (c + r + 3) old.length - s) = min (c + r + 3) old.length by omega]
    by_cases hShort : c + r + 3 ≤ old.length
    · rw [Nat.min_eq_left hShort]
    · rw [Nat.min_eq_right (by omega), List.drop_length, List.drop_eq_nil_of_le (by omega)]
  have hStart : old.take s ++ (old.take c).drop s = new.take c := by
    have hHead : old.take s = (old.take c).take s := by rw [List.take_take, Nat.min_eq_left hsc]
    rw [hHead, List.take_append_drop, hSame]
  simp only [Hunk.apply, Hunk.oldSide, Hunk.newSide, List.filter_append, List.map_append, markOld_old,
    markNew_old, markOld_new, markNew_new, List.append_nil, Nat.add_sub_cancel]
  rw [take_within hsc (by omega), drop_within hsc, changed_within hsc, hBefore, hWindow, hRest]
  have hJoin : old.take s ++ ((old.take c).drop s ++ (old.drop (c + r)).take 3 ++ (new.drop c).take a) ++
      old.drop (c + r + 3) =
      new.take c ++ ((old.drop (c + r)).take 3 ++ (new.drop c).take a ++ old.drop (c + r + 3)) := by
    rw [← hStart]
    simp only [List.append_assoc]
  rw [hJoin]
  constructor
  · intro h
    split at h
    · refine (List.append_cancel_left_eq (new.take c) _ _).mp ?_
      rw [List.take_append_drop]
      exact Option.some.inj h
    · cases h
  · intro h
    have hLength := congrArg List.length h
    simp only [List.length_append, List.length_take, List.length_drop] at hLength
    rw [if_pos, h, List.take_append_drop]
    refine ⟨rfl, ?_, rfl⟩
    simp only [List.length_append, List.length_take, List.length_drop]
    omega

theorem contextHunk_apply_iff (content newContent oldStr newStr : String) :
    let old := lines content
    let new := lines newContent
    let c := changedStart old new
    let r := max (lines oldStr).length 1
    let a := max (lines newStr).length 1
    ∃ h, contextHunk content newContent oldStr newStr = some h ∧ (h.apply old = some new ↔
      (old.drop (c + r)).take 3 ++ (new.drop c).take a ++ old.drop (c + r + 3) = new.drop c) := by
  intro old new c r a
  obtain ⟨hOld, hNew, hSame⟩ := changedStart_spec old new
  exact ⟨_, contextHunk_eq content newContent oldStr newStr, apply_iff hOld hNew hSame⟩

/-- The texts are the same but for a block that begins with different lines.  A block that reaches the end
may be short. -/
structure Blocks (r a : Nat) (old new common removed added rest : List String) : Prop where
  old : old = common ++ removed ++ rest
  new : new = common ++ added ++ rest
  differ : ∃ x y, removed.head? = some x ∧ added.head? = some y ∧ x ≠ y
  removed : removed.length = r ∨ rest = [] ∧ removed.length ≤ r
  added : added.length = a ∨ rest = [] ∧ added.length ≤ a

/-- The texts do not differ before one of them ends, and the change is taken to be at the start: the new
text begins with the three lines behind the old block, and repeats its own beginning behind them. -/
structure Repeats (r a : Nat) (old new removed moved added rest : List String) : Prop where
  nested : old <+: new ∨ new <+: old
  old_eq : old = removed ++ moved ++ rest
  new_eq : new = moved ++ added ++ rest
  start : added <+: new
  removed_length : removed.length = r ∨ moved ++ rest = [] ∧ removed.length ≤ r
  moved_length : moved.length = 3 ∨ rest = [] ∧ moved.length ≤ 3
  added_length : added.length = a ∨ moved ++ rest = [] ∧ added.length ≤ a

/-- Where the printed order of the lines makes no difference. -/
def Fits (r a : Nat) (old new : List String) : Prop :=
  (∃ common removed added rest, Blocks r a old new common removed added rest ∧
    rest.take 3 ++ added = added ++ rest.take 3) ∨
  ∃ removed moved added rest, Repeats r a old new removed moved added rest

section Fits

variable {r a : Nat} {old new common removed added rest : List String}

theorem Blocks.diverge (h : Blocks r a old new common removed added rest) : Diverge old new common := by
  obtain ⟨x, y, hx, hy, hNe⟩ := h.differ
  obtain ⟨removed', rfl⟩ := List.head?_eq_some_iff.mp hx
  obtain ⟨added', rfl⟩ := List.head?_eq_some_iff.mp hy
  exact ⟨x, y, removed' ++ rest, added' ++ rest, by simp [h.old], by simp [h.new], hNe⟩

theorem drop_block {block : List String} (h : block.length = r ∨ rest = [] ∧ block.length ≤ r) :
    (common ++ block ++ rest).drop (common.length + r) = rest ∧
      ((common ++ block ++ rest).drop common.length).take r = block := by
  rw [List.append_assoc, List.drop_left, List.drop_append, List.drop_of_length_le (by omega)]
  rcases h with rfl | ⟨rfl, hShort⟩
  · simp
  · simp [hShort]

theorem drop_left_of {block : List String} {n : Nat}
    (h : block.length = n ∨ rest = [] ∧ block.length ≤ n) : (block ++ rest).drop n = rest := by
  rcases h with rfl | ⟨rfl, hShort⟩
  · exact List.drop_left
  · rw [List.append_nil, List.drop_eq_nil_iff]
    exact hShort

theorem take_left_of {block : List String} {n : Nat}
    (h : block.length = n ∨ rest = [] ∧ block.length ≤ n) : (block ++ rest).take n = block := by
  rcases h with rfl | ⟨rfl, hShort⟩
  · exact List.take_left
  · rw [List.append_nil, List.take_of_length_le hShort]

theorem repeats_iff (hNested : old <+: new ∨ new <+: old) :
    (old.drop r).take 3 ++ new.take a ++ old.drop (r + 3) = new ↔
      ∃ removed moved added rest, Repeats r a old new removed moved added rest := by
  constructor
  · intro h
    have hLength := congrArg List.length h
    have hJoin : (old.drop r).take 3 ++ old.drop (r + 3) = old.drop r := by
      rw [← List.drop_drop (i := 3), List.take_append_drop]
    refine ⟨old.take r, (old.drop r).take 3, new.take a, old.drop (r + 3), hNested, ?_, h.symm,
      List.take_prefix a new, ?_, ?_, ?_⟩
    · rw [List.append_assoc, hJoin, List.take_append_drop]
    · rw [hJoin, List.drop_eq_nil_iff, List.length_take]
      omega
    · rw [List.drop_eq_nil_iff, List.length_take, List.length_drop]
      omega
    · simp only [List.length_append, List.length_take, List.length_drop] at hLength
      rw [hJoin, List.drop_eq_nil_iff, List.length_take]
      omega
  · rintro ⟨removed, moved, added, rest, -, hOld, hNew, hStart, hRemoved, hMoved, hAdded⟩
    have hBehind : old.drop r = moved ++ rest := by
      rw [hOld, List.append_assoc, drop_left_of hRemoved]
    have hAgain : new.take a = added := by
      obtain ⟨later, hLater⟩ := hStart
      rw [← hLater]
      refine take_left_of (hAdded.imp_right fun ⟨hNone, hShort⟩ => ⟨?_, hShort⟩)
      obtain ⟨rfl, rfl⟩ := List.append_eq_nil_iff.mp hNone
      have hLength := congrArg List.length (hLater.trans hNew)
      simpa using hLength
    rw [← List.drop_drop, hBehind, take_left_of hMoved, drop_left_of hMoved, hAgain, ← hNew]

theorem Diverge.blocks (h : Diverge old new common) (hr : 1 ≤ r) (ha : 1 ≤ a)
    (hRest : old.drop (common.length + r) = new.drop (common.length + a)) :
    Blocks r a old new common ((old.drop common.length).take r) ((new.drop common.length).take a)
      (old.drop (common.length + r)) where
  old := by
    obtain ⟨x, y, old', new', rfl, rfl, -⟩ := h
    rw [List.append_assoc, ← List.drop_drop, List.take_append_drop, List.drop_left]
  new := by
    rw [hRest]
    obtain ⟨x, y, old', new', rfl, rfl, -⟩ := h
    rw [List.append_assoc, ← List.drop_drop, List.take_append_drop, List.drop_left]
  differ := by
    obtain ⟨x, y, old', new', rfl, rfl, hNe⟩ := h
    obtain ⟨r, rfl⟩ : ∃ n, r = n + 1 := ⟨r - 1, by omega⟩
    obtain ⟨a, rfl⟩ : ∃ n, a = n + 1 := ⟨a - 1, by omega⟩
    exact ⟨x, y, by simp, by simp, hNe⟩
  removed := by
    rw [List.length_take, List.length_drop, List.drop_eq_nil_iff]
    omega
  added := by
    rw [hRest, List.length_take, List.length_drop, List.drop_eq_nil_iff]
    omega

theorem fits_iff (hr : 1 ≤ r) (ha : 1 ≤ a)
    (hRest : ∀ common, Diverge old new common →
      old.length - (common.length + r) = new.length - (common.length + a) →
        old.drop (common.length + r) = new.drop (common.length + a)) :
    (old.drop (changedStart old new + r)).take 3 ++ (new.drop (changedStart old new)).take a ++
      old.drop (changedStart old new + r + 3) = new.drop (changedStart old new) ↔ Fits r a old new := by
  constructor
  · intro h
    rcases diverge_or_prefix old new with ⟨common, hDiverge⟩ | hPrefix
    · rw [changedStart_diverge hDiverge] at h
      have hLength := congrArg List.length h
      simp only [List.length_append, List.length_take, List.length_drop] at hLength
      have hSame := hRest common hDiverge (by omega)
      refine .inl ⟨common, _, _, _, hDiverge.blocks hr ha hSame, ?_⟩
      have hBehind : (old.drop (common.length + r)).take 3 ++ old.drop (common.length + r + 3) =
          old.drop (common.length + r) := by
        rw [← List.drop_drop (i := 3), List.take_append_drop]
      have hNew : (new.drop common.length).take a ++ new.drop (common.length + a) =
          new.drop common.length := by
        rw [← List.drop_drop, List.take_append_drop]
      refine (List.append_left_inj (old.drop (common.length + r + 3))).mp ?_
      rw [h, List.append_assoc, hBehind, hSame, hNew]
    · rw [changedStart_nested hPrefix] at h
      simp only [Nat.zero_add, List.drop_zero] at h
      exact .inr ((repeats_iff hPrefix).mp h)
  · rintro (⟨common, removed, added, rest, hBlocks, hMoved⟩ | ⟨removed, moved, added, rest, hRepeats⟩)
    · have hOld : old.drop (common.length + r) = rest := hBlocks.old ▸ (drop_block hBlocks.removed).1
      have hNew : (new.drop common.length).take a = added := hBlocks.new ▸ (drop_block hBlocks.added).2
      have hBehind : old.drop (common.length + r + 3) = rest.drop 3 := by rw [← List.drop_drop, hOld]
      rw [changedStart_diverge hBlocks.diverge, hOld, hNew, hBehind, hMoved, List.append_assoc,
        List.take_append_drop, hBlocks.new, List.append_assoc, List.drop_left]
    · rw [changedStart_nested hRepeats.nested]
      simpa using (repeats_iff hRepeats.nested).mpr ⟨removed, moved, added, rest, hRepeats⟩

end Fits

theorem replaceOnce_first {before pat after : List Char} (new : List Char)
    (h : ∀ k, OccursAt pat (before ++ pat ++ after) k → before.length ≤ k) :
    replaceOnce pat new (before ++ pat ++ after) = before ++ new ++ after := by
  induction before with
  | nil =>
    cases hText : pat ++ after with
    | nil =>
      obtain ⟨rfl, rfl⟩ := List.append_eq_nil_iff.mp hText
      simp [replaceOnce]
    | cons c text =>
      have hHere : pat <+: c :: text := ⟨after, hText⟩
      rw [List.nil_append, hText, replaceOnce, if_pos hHere, ← hText, List.drop_left, List.nil_append]
  | cons c before ih =>
    have hNotHere : ¬pat <+: c :: (before ++ pat ++ after) := fun hHere => by
      have := h 0 (Text.occursAt_zero.mpr hHere)
      simp at this
    rw [List.cons_append, List.cons_append, replaceOnce, if_neg hNotHere, ih, List.cons_append,
      List.cons_append]
    intro k hk
    exact Nat.le_of_succ_le_succ (h (k + 1) (Text.occursAt_cons_succ.mpr hk))

theorem length_lines_eq (text : String) : (lines text).length = (Text.lines text.toList).length := by
  rw [lines_eq, List.length_map]

theorem lines_rest (before old new after : List Char) {common : List String}
    (hDiverge : Diverge (lines (String.ofList (before ++ old ++ after)))
      (lines (String.ofList (before ++ new ++ after))) common)
    (h : (lines (String.ofList (before ++ old ++ after))).length - (common.length + Text.span old) =
      (lines (String.ofList (before ++ new ++ after))).length - (common.length + Text.span new)) :
    (lines (String.ofList (before ++ old ++ after))).drop (common.length + Text.span old) =
      (lines (String.ofList (before ++ new ++ after))).drop (common.length + Text.span new) := by
  obtain ⟨shared, hLength, hShared⟩ := Text.lines_prepend before
  have hStart (text : List Char) :
      shared.map String.ofList <+: lines (String.ofList (before ++ text)) := by
    rw [lines_eq, String.toList_ofList]
    exact (hShared text).map String.ofList
  have hc : before.count '\n' ≤ common.length := by
    rw [← hLength, ← List.length_map String.ofList]
    refine hDiverge.longest ?_ ?_
    · rw [List.append_assoc]
      exact hStart (old ++ after)
    · rw [List.append_assoc]
      exact hStart (new ++ after)
  simp only [lines_eq, String.toList_ofList, List.length_map] at h ⊢
  rw [← List.map_drop, ← List.map_drop, Text.lines_rest_eq before old new after hc h]

/-- The diff of a replacement is always made, and it is the change exactly where it fits. -/
theorem contextDiff_iff (path : PathBuf) {content oldStr : String} (newStr : String)
    (hOnce : OccursOnce oldStr.toList content.toList) :
    let newContent := String.ofList (replaceOnce oldStr.toList newStr.toList content.toList)
    ∃ h, contextHunk content newContent oldStr newStr = some h ∧
      makeContextDiff path content newContent oldStr newStr = some (h.render (display path)) ∧
      (h.apply (lines content) = some (lines newContent) ↔
        Fits (max (lines oldStr).length 1) (max (lines newStr).length 1) (lines content)
          (lines newContent)) := by
  intro newContent
  obtain ⟨h, hHunk, hApply⟩ := contextHunk_apply_iff content newContent oldStr newStr
  refine ⟨h, hHunk, by rw [makeContextDiff, hHunk, Option.map_some],
    hApply.trans (fits_iff (Nat.le_max_right _ _) (Nat.le_max_right _ _) ?_)⟩
  obtain ⟨k, ⟨before, after, hContent, rfl⟩, hOnly⟩ := hOnce
  have hNew : newContent = String.ofList (before ++ newStr.toList ++ after) := by
    refine congrArg String.ofList ?_
    rw [hContent]
    exact replaceOnce_first newStr.toList fun k hk => (hOnly k (hContent ▸ hk)).ge
  have hOld : content = String.ofList (before ++ oldStr.toList ++ after) := by
    rw [← hContent, String.ofList_toList]
  intro common hDiverge hLength
  simp only [length_lines_eq oldStr, length_lines_eq newStr] at hLength ⊢
  rw [hNew, hOld] at hDiverge hLength ⊢
  exact lines_rest before oldStr.toList newStr.toList after hDiverge hLength

/-- The added line stands behind the line that follows the change. -/
theorem contextDiff_middle : OccursOnce "a".toList "x\na\ny".toList ∧
    "x\nb\ny" = String.ofList (replaceOnce "a".toList "b".toList "x\na\ny".toList) ∧
    ∃ h, contextHunk "x\na\ny" "x\nb\ny" "a" "b" = some h ∧
      h.body = [(.context, "x"), (.removed, "a"), (.context, "y"), (.added, "b")] ∧
      h.apply (lines "x\na\ny") = some ["x", "y", "b"] ∧
      h.apply (lines "x\na\ny") ≠ some (lines "x\nb\ny") := by
  have hLines : lines "x\nb\ny" = ["x", "b", "y"] := by rfl
  refine ⟨by decide, by rfl, _, rfl, by rfl, by rfl, ?_⟩
  rw [hLines]
  decide

/-- A change in the last line is shown as it is. -/
theorem contextDiff_last :
    ∃ h, contextHunk "x\na" "x\nb" "a" "b" = some h ∧
      makeContextDiff (pathOf "/ws/f") "x\na" "x\nb" "a" "b" = some (h.render (display (pathOf "/ws/f"))) ∧
      h.apply (lines "x\na") = some (lines "x\nb") := by
  obtain ⟨h, hHunk, hDiff, hApply⟩ :=
    contextDiff_iff (pathOf "/ws/f") "b" (by decide : OccursOnce "a".toList "x\na".toList)
  refine ⟨h, hHunk, hDiff, hApply.mpr (.inl ⟨["x"], ["a"], ["b"], [], ?_, by simp⟩)⟩
  exact ⟨by rfl, by rfl, ⟨"a", "b", rfl, rfl, by decide⟩, .inl (by rfl), .inl (by rfl)⟩

end Cronymax.Capability
