import Mathlib.Data.List.Basic
import Mathlib.Data.List.MinMax
import Mathlib.Data.List.Nodup
import RecoilKeyBindings.Keys

/-!
# Merging the key-code and scan-code lists of one trigger

`MergeActionListsByTrigger(A, B, out)` appends to `out` the bindings of `A` and `B`, keeping
of every action line only the binding with the least index, sorted by
`compareActionByTriggerOrder`. The code works in place: it appends `A`, walks `B` erasing from
the A part `[aBeginId, aEndId)` every binding that a B binding beats (and decrementing
`aEndId`) and appending the B bindings that win, and then `std::inplace_merge`s the A part
with the B part.

The loop is transcribed over positions of `out`. `mergeStep_layout` shows that on an `out`
laid out as prefix, A part, B part it is the two-part step `segmentStep`;
`SegmentInvariant` says which bindings each part holds after a prefix of `B`, and
`SegmentInvariant.merged` that merging the final parts gives `MergedByIndex`, the purpose of
the function.
-/

namespace RecoilKeyBindings.TriggerMerge

open RecoilKeyBindings.Keys

set_option autoImplicit false

/-- `compareActionByTriggerOrder`: exact triggers before wildcard ones, then binding order. -/
def compareActionByTriggerOrder (a b : KeyBinding) : Bool :=
  if a.keyChain.back.anyMod == b.keyChain.back.anyMod then a.bindingIndex < b.bindingIndex
  else b.keyChain.back.anyMod

def compareActionByBindingOrder (a b : KeyBinding) : Bool :=
  a.bindingIndex < b.bindingIndex

/-- `std::inplace_merge(first, middle, last, comp)` of the sorted runs `first` and `second`.
It is stable: an element of the second run goes first only when it compares less than the
head of the first run. -/
def inplaceMerge {α : Type} (comp : α → α → Bool) (first second : List α) : List α :=
  first.merge second fun a b => !comp b a

/-- The inner loop of `MergeActionListsByTrigger`: the first `a` in `[aBeginId, aEndId)` with
`aB.action.line == out[a].action.line`, paired with `out[a]`. -/
def findDuplicate (out : List KeyBinding) (aBeginId aEndId : Nat) (aB : KeyBinding) :
    Option (Nat × KeyBinding) :=
  ((out.enum.take aEndId).drop aBeginId).find? fun entry => aB.action.line == entry.2.action.line

/-- One iteration of the loop over `keyBindingListB`, on `(out, aEndId)`: a duplicate with a
lower or equal index keeps `aB` out; one with a higher index is erased and `aB` is added. -/
def mergeStep (aBeginId : Nat) (state : List KeyBinding × Nat) (aB : KeyBinding) :
    List KeyBinding × Nat :=
  match findDuplicate state.1 aBeginId state.2 aB with
  | none => (state.1 ++ [aB], state.2)
  | some (a, aA) =>
    if aB.bindingIndex ≥ aA.bindingIndex then state
    else (state.1.eraseIdx a ++ [aB], state.2 - 1)

/-- `MergeActionListsByTrigger(keyBindingListA, keyBindingListB, out)`, returning the new
`out`. -/
def mergeActionListsByTrigger (keyBindingListA keyBindingListB out : List KeyBinding) :
    List KeyBinding :=
  if keyBindingListA.isEmpty then out ++ keyBindingListB
  else
    let aBeginId := out.length
    let out := out ++ keyBindingListA
    let aEndId := out.length
    if keyBindingListB.isEmpty then out
    else
      let (out, aEndId) := keyBindingListB.foldl (mergeStep aBeginId) (out, aEndId)
      out.take aBeginId ++
        inplaceMerge compareActionByTriggerOrder ((out.take aEndId).drop aBeginId) (out.drop aEndId)

@[simp] theorem mergeActionListsByTrigger_nil_left (B out : List KeyBinding) :
    mergeActionListsByTrigger [] B out = out ++ B := rfl

@[simp] theorem mergeActionListsByTrigger_nil_right (A out : List KeyBinding) :
    mergeActionListsByTrigger A [] out = out ++ A := by
  cases A <;> rfl

/-! ### The comparator -/

theorem compareActionByTriggerOrder_of_anyMod_eq {a b : KeyBinding}
    (same : a.keyChain.back.anyMod = b.keyChain.back.anyMod) :
    compareActionByTriggerOrder a b = decide (a.bindingIndex < b.bindingIndex) := by
  simp [compareActionByTriggerOrder, same]

/-- `compareActionByTriggerOrder` is a strict weak order (the lexicographic order on the pair
wildcard flag, index), as `std::inplace_merge` requires: its negation is a total preorder. -/
theorem not_compareActionByTriggerOrder_trans (a b c : KeyBinding)
    (ab : !compareActionByTriggerOrder b a) (bc : !compareActionByTriggerOrder c b) :
    !compareActionByTriggerOrder c a := by
  simp only [compareActionByTriggerOrder] at *
  cases ha : a.keyChain.back.anyMod <;> cases hb : b.keyChain.back.anyMod <;>
    cases hc : c.keyChain.back.anyMod <;> simp_all <;> omega

theorem not_compareActionByTriggerOrder_total (a b : KeyBinding) :
    (!compareActionByTriggerOrder b a || !compareActionByTriggerOrder a b) := by
  simp only [compareActionByTriggerOrder]
  cases a.keyChain.back.anyMod <;> cases b.keyChain.back.anyMod <;> simp <;> omega

/-! ### What the merge is for -/

/-- What `MergeActionListsByTrigger` appends: in strictly increasing index order, for every
action line of `A ++ B` exactly one binding, the one of least index with that line, and
nothing else. -/
structure MergedByIndex (A B M : List KeyBinding) : Prop where
  sorted : M.Pairwise (·.bindingIndex < ·.bindingIndex)
  covers : ∀ y ∈ A ++ B, ∃ x ∈ M, x.action.line = y.action.line
  linesNodup : (M.map (·.action.line)).Nodup
  mem : ∀ x, x ∈ M ↔ x ∈ A ++ B ∧
    ∀ y ∈ A ++ B, y.action.line = x.action.line → x.bindingIndex ≤ y.bindingIndex

/-- Sortedness and membership give the rest: the least binding of a line exists, and two
least bindings of one line would share an index. -/
theorem MergedByIndex.of_mem {A B M : List KeyBinding}
    (sorted : M.Pairwise (·.bindingIndex < ·.bindingIndex))
    (mem : ∀ x, x ∈ M ↔ x ∈ A ++ B ∧
      ∀ y ∈ A ++ B, y.action.line = x.action.line → x.bindingIndex ≤ y.bindingIndex) :
    MergedByIndex A B M where
  sorted := sorted
  covers y memY := by
    have inLine : y ∈ (A ++ B).filter (·.action.line == y.action.line) :=
      List.mem_filter.2 ⟨memY, by simp⟩
    obtain ⟨x, least⟩ : ∃ x, x ∈ ((A ++ B).filter (·.action.line == y.action.line)).argmin
        (·.bindingIndex) :=
      Option.ne_none_iff_exists'.1 fun none => by simp [List.argmin_eq_none.1 none] at inLine
    obtain ⟨memX, sameX⟩ := List.mem_filter.1 (List.argmin_mem least)
    refine ⟨x, (mem x).2 ⟨memX, fun z memZ sameZ => Nat.not_lt.1 fun lt =>
      List.not_lt_of_mem_argmin (List.mem_filter.2 ⟨memZ, ?_⟩) least lt⟩, beq_iff_eq.1 sameX⟩
    simpa [sameZ] using sameX
  linesNodup := List.pairwise_map.2 <| sorted.imp_of_mem fun memX memY lt same =>
    Nat.lt_irrefl _ (lt.trans_le (((mem _).1 memY).2 _ ((mem _).1 memX).1 same))
  mem := mem

/-! ### The loop on the two parts of `out` -/

/-- One iteration of the loop seen on the A part `[aBeginId, aEndId)` and the B part
`[aEndId, out.size())` of `out`. -/
def segmentStep (parts : List KeyBinding × List KeyBinding) (aB : KeyBinding) :
    List KeyBinding × List KeyBinding :=
  match parts.1.find? (aB.action.line == ·.action.line) with
  | none => (parts.1, parts.2 ++ [aB])
  | some aA => if aA.bindingIndex ≤ aB.bindingIndex then parts else (parts.1.erase aA, parts.2 ++ [aB])

def layout (pre : List KeyBinding) (parts : List KeyBinding × List KeyBinding) :
    List KeyBinding × Nat :=
  (pre ++ parts.1 ++ parts.2, pre.length + parts.1.length)

theorem findDuplicate_layout (pre aPart bPart : List KeyBinding) (aB : KeyBinding) :
    findDuplicate (pre ++ aPart ++ bPart) pre.length (pre.length + aPart.length) aB =
      (aPart.enumFrom pre.length).find? fun entry => aB.action.line == entry.2.action.line := by
  simp only [findDuplicate, List.enum_append, List.enumFrom_append, List.append_assoc]
  rw [← List.append_assoc, List.take_left' (by simp), List.drop_left' (by simp)]

theorem mergeStep_layout (pre : List KeyBinding) (parts : List KeyBinding × List KeyBinding)
    (aB : KeyBinding) :
    mergeStep pre.length (layout pre parts) aB = layout pre (segmentStep parts aB) := by
  obtain ⟨aPart, bPart⟩ := parts
  simp only [mergeStep, layout, segmentStep, findDuplicate_layout]
  cases found : aPart.find? (aB.action.line == ·.action.line) with
  | none =>
    have : ((aPart.enumFrom pre.length).find? fun entry => aB.action.line == entry.2.action.line)
        = none := by
      simp only [List.find?_eq_none] at found ⊢
      exact fun entry mem => found _ (List.snd_mem_of_mem_enumFrom mem)
    simp [this]
  | some aA =>
    obtain ⟨hit, as, bs, rfl, before⟩ := List.find?_eq_some.1 found
    have entry : ((as ++ aA :: bs).enumFrom pre.length).find?
        (fun entry => aB.action.line == entry.2.action.line) = some (pre.length + as.length, aA) := by
      have : ∀ entry ∈ as.enumFrom pre.length, ¬ (aB.action.line == entry.2.action.line) :=
        fun entry mem => by simpa using before _ (List.snd_mem_of_mem_enumFrom mem)
      simp [List.enumFrom_append, List.find?_eq_none.2 this, hit]
    have notBefore : aA ∉ as := fun mem => by simpa [hit] using before _ mem
    simp only [entry, ge_iff_le]
    split_ifs
    · rfl
    · rw [List.erase_append_right _ notBefore, List.erase_cons_head]
      simp only [List.append_assoc, List.cons_append,
        List.eraseIdx_append_of_length_le (show pre.length ≤ pre.length + as.length by omega),
        List.eraseIdx_append_of_length_le (show as.length ≤ pre.length + as.length - pre.length by omega)]
      simp only [List.length_append, List.length_cons, Nat.add_sub_cancel_left, Nat.sub_self,
        List.eraseIdx_cons_zero, Prod.mk.injEq, List.append_assoc, true_and]
      omega

theorem foldl_mergeStep_layout (pre rest : List KeyBinding)
    (parts : List KeyBinding × List KeyBinding) :
    rest.foldl (mergeStep pre.length) (layout pre parts) = layout pre (rest.foldl segmentStep parts) := by
  induction rest generalizing parts with
  | nil => rfl
  | cons aB rest ih => simp only [List.foldl_cons, mergeStep_layout, ih]

theorem mergeActionListsByTrigger_of_ne_nil (A B out : List KeyBinding) (nonemptyA : A ≠ [])
    (nonemptyB : B ≠ []) :
    mergeActionListsByTrigger A B out = out ++
      inplaceMerge compareActionByTriggerOrder (B.foldl segmentStep (A, [])).1
        (B.foldl segmentStep (A, [])).2 := by
  have start : (out ++ A, (out ++ A).length) = layout out (A, []) := by simp [layout]
  simp only [mergeActionListsByTrigger, List.isEmpty_iff, nonemptyA, nonemptyB, if_false]
  rw [start, foldl_mergeStep_layout]
  simp only [layout]
  rw [List.append_assoc, List.take_left' rfl, ← List.append_assoc,
    List.take_left' (by simp), List.drop_left' rfl, List.drop_left' (by simp)]

/-! ### Which bindings each part holds -/

/-- No binding of `done` with `x`'s line has a smaller index than `x`. -/
def Unbeaten (done : List KeyBinding) (x : KeyBinding) : Prop :=
  ∀ b ∈ done, b.action.line = x.action.line → x.bindingIndex ≤ b.bindingIndex

/-- `x` has a smaller index than every binding of `A` with its line. -/
def Beats (A : List KeyBinding) (x : KeyBinding) : Prop :=
  ∀ a ∈ A, a.action.line = x.action.line → x.bindingIndex < a.bindingIndex

@[simp] theorem unbeaten_nil (x : KeyBinding) : Unbeaten [] x := by simp [Unbeaten]

@[simp] theorem unbeaten_append_singleton (done : List KeyBinding) (aB x : KeyBinding) :
    Unbeaten (done ++ [aB]) x ↔
      Unbeaten done x ∧ (aB.action.line = x.action.line → x.bindingIndex ≤ aB.bindingIndex) := by
  simp [Unbeaten, or_imp, forall_and]

/-- After the loop has walked the prefix `done` of `B`: the A part holds the bindings of `A`
that no binding of `done` beats, the B part the bindings of `done` that beat `A`. -/
structure SegmentInvariant (A done aPart bPart : List KeyBinding) : Prop where
  aSublist : aPart.Sublist A
  bSublist : bPart.Sublist done
  memA : ∀ x, x ∈ aPart ↔ x ∈ A ∧ Unbeaten done x
  memB : ∀ x, x ∈ bPart ↔ x ∈ done ∧ Beats A x

theorem segmentInvariant_start (A : List KeyBinding) : SegmentInvariant A [] A [] where
  aSublist := .refl A
  bSublist := .refl []
  memA := by simp
  memB := by simp

theorem eq_of_line_eq {l : List KeyBinding} (lines : (l.map (·.action.line)).Nodup)
    {x y : KeyBinding} (hx : x ∈ l) (hy : y ∈ l) (same : x.action.line = y.action.line) : x = y :=
  List.inj_on_of_nodup_map lines hx hy same

section Step

variable {A done aPart bPart : List KeyBinding} {aB : KeyBinding}

/-- What every iteration does to the parts: the A part loses the bindings `aB` beats, and `aB`
joins the B part exactly when it beats `A`. -/
theorem SegmentInvariant.append (inv : SegmentInvariant A done aPart bPart) (notDone : aB ∉ done)
    {aPart' bPart' : List KeyBinding} (sub : aPart'.Sublist aPart)
    (memA : ∀ x, x ∈ aPart' ↔
      x ∈ aPart ∧ (aB.action.line = x.action.line → x.bindingIndex ≤ aB.bindingIndex))
    (memB : bPart' = bPart ++ [aB] ∧ Beats A aB ∨ bPart' = bPart ∧ ¬ Beats A aB) :
    SegmentInvariant A (done ++ [aB]) aPart' bPart' where
  aSublist := sub.trans inv.aSublist
  bSublist := by
    rcases memB with ⟨rfl, -⟩ | ⟨rfl, -⟩
    · exact inv.bSublist.append (.refl _)
    · exact inv.bSublist.trans (List.sublist_append_left _ _)
  memA x := by rw [memA, inv.memA, unbeaten_append_singleton, and_assoc]
  memB x := by
    have notB : x ∈ bPart → x ≠ aB := fun mem same => notDone (same ▸ inv.bSublist.subset mem)
    rcases memB with ⟨rfl, beats⟩ | ⟨rfl, beats⟩
    · simp only [List.mem_append, List.mem_singleton, inv.memB x]
      constructor
      · rintro (⟨mem, b⟩ | rfl)
        exacts [⟨.inl mem, b⟩, ⟨.inr rfl, beats⟩]
      · rintro ⟨mem | rfl, b⟩
        exacts [.inl ⟨mem, b⟩, .inr rfl]
    · simp only [List.mem_append, List.mem_singleton, inv.memB x]
      constructor
      · exact fun ⟨mem, b⟩ => ⟨.inl mem, b⟩
      · rintro ⟨mem | rfl, b⟩
        exacts [⟨mem, b⟩, absurd b beats]

theorem SegmentInvariant.step (inv : SegmentInvariant A done aPart bPart)
    (linesA : (A.map (·.action.line)).Nodup) (fresh : ∀ b ∈ done, b.action.line ≠ aB.action.line) :
    SegmentInvariant A (done ++ [aB]) (segmentStep (aPart, bPart) aB).1
      (segmentStep (aPart, bPart) aB).2 := by
  have notDone : aB ∉ done := fun mem => fresh aB mem rfl
  -- a binding of `A` with `aB`'s line is still in the A part: no earlier B binding has that line
  have kept : ∀ a ∈ A, a.action.line = aB.action.line → a ∈ aPart := fun a mem same =>
    (inv.memA a).2 ⟨mem, fun b memB sameB => absurd (sameB.trans same) (fresh b memB)⟩
  simp only [segmentStep]
  cases found : aPart.find? (aB.action.line == ·.action.line) with
  | none =>
    have absent : ∀ a ∈ A, a.action.line ≠ aB.action.line := fun a mem same => by
      simpa [same] using List.find?_eq_none.1 found a (kept a mem same)
    refine inv.append notDone (.refl _) (fun x => ?_) (.inl ⟨rfl, ?_⟩)
    · exact ⟨fun mem => ⟨mem, fun same => absurd same.symm (absent x (inv.aSublist.subset mem))⟩,
        And.left⟩
    · exact fun a mem same => absurd same (absent a mem)
  | some aA =>
    have inA : aA ∈ A := inv.aSublist.subset (List.mem_of_find?_eq_some found)
    have hit := List.find?_some found
    have lineAA : aA.action.line = aB.action.line := (beq_iff_eq.1 hit).symm
    -- `aA` is the one binding of `A` with `aB`'s line
    have unique : ∀ x ∈ A, aB.action.line = x.action.line → x = aA := fun x mem same =>
      eq_of_line_eq linesA mem inA (same.symm.trans lineAA.symm)
    dsimp only
    split_ifs with wins
    · refine inv.append notDone (.refl _) (fun x => ⟨fun mem => ⟨mem, fun same => ?_⟩, And.left⟩)
        (.inr ⟨rfl, fun beats => ?_⟩)
      · rw [unique x (inv.aSublist.subset mem) same]
        exact wins
      · exact absurd (beats aA inA lineAA) (Nat.not_lt.2 wins)
    · have nodup : aPart.Nodup := (linesA.of_map _).sublist inv.aSublist
      refine inv.append notDone (List.erase_sublist _ _) (fun x => ?_) (.inl ⟨rfl, ?_⟩)
      · rw [nodup.mem_erase_iff]
        constructor
        · rintro ⟨other, mem⟩
          exact ⟨mem, fun same => absurd (unique x (inv.aSublist.subset mem) same) other⟩
        · rintro ⟨mem, survives⟩
          refine ⟨fun same => wins ?_, mem⟩
          subst same
          exact survives lineAA.symm
      · intro a mem same
        rw [unique a mem same.symm]
        omega

end Step

theorem segmentInvariant_foldl {A : List KeyBinding} (linesA : (A.map (·.action.line)).Nodup)
    (done rest : List KeyBinding) (parts : List KeyBinding × List KeyBinding)
    (inv : SegmentInvariant A done parts.1 parts.2)
    (lines : ((done ++ rest).map (·.action.line)).Nodup) :
    SegmentInvariant A (done ++ rest) (rest.foldl segmentStep parts).1
      (rest.foldl segmentStep parts).2 := by
  induction rest generalizing done parts with
  | nil => simpa using inv
  | cons aB rest ih =>
    have fresh : ∀ b ∈ done, b.action.line ≠ aB.action.line := fun b mem same => by
      simp only [List.map_append, List.map_cons, List.nodup_append, List.nodup_cons,
        List.disjoint_cons_right, List.mem_map] at lines
      exact lines.2.2.1 ⟨b, mem, same⟩
    have step := inv.step linesA fresh
    rw [List.foldl_cons]
    simpa using ih (done ++ [aB]) _ step (by simpa using lines)

section Merged

variable {A B : List KeyBinding}

theorem least_iff_unbeaten (linesA : (A.map (·.action.line)).Nodup) {x : KeyBinding} (mem : x ∈ A) :
    (∀ y ∈ A ++ B, y.action.line = x.action.line → x.bindingIndex ≤ y.bindingIndex) ↔
      Unbeaten B x := by
  simp only [List.mem_append, or_imp, forall_and, Unbeaten, and_iff_right_iff_imp]
  exact fun _ y memY same => (congrArg (·.bindingIndex) (eq_of_line_eq linesA mem memY same.symm)).le

theorem least_iff_beats (linesB : (B.map (·.action.line)).Nodup)
    (sameIndex : ∀ a ∈ A, ∀ b ∈ B, a.bindingIndex = b.bindingIndex → a = b) {x : KeyBinding}
    (mem : x ∈ B) (notA : x ∉ A) :
    (∀ y ∈ A ++ B, y.action.line = x.action.line → x.bindingIndex ≤ y.bindingIndex) ↔ Beats A x := by
  simp only [List.mem_append, or_imp, forall_and, Beats]
  constructor
  · exact fun ⟨least, _⟩ a memA same => Nat.lt_of_le_of_ne (least a memA same)
      fun eq => notA (sameIndex a memA x mem eq.symm ▸ memA)
  · exact fun beats => ⟨fun a memA same => (beats a memA same).le,
      fun y memY same => (congrArg (·.bindingIndex) (eq_of_line_eq linesB mem memY same.symm)).le⟩

theorem pairwise_index_of_sorted {l : List KeyBinding}
    (trigger : ∀ x ∈ l, ∀ y ∈ l, x.keyChain.back.anyMod = y.keyChain.back.anyMod)
    (sorted : l.Pairwise fun a b => !compareActionByTriggerOrder b a)
    (distinct : (l.map (·.bindingIndex)).Nodup) :
    l.Pairwise (·.bindingIndex < ·.bindingIndex) :=
  (sorted.and (List.pairwise_map.1 distinct)).imp_of_mem fun memA memB ⟨le, ne⟩ => by
    rw [compareActionByTriggerOrder_of_anyMod_eq (trigger _ memB _ memA)] at le
    simp only [Bool.not_eq_true', decide_eq_false_iff_not, Nat.not_lt] at le
    omega

theorem sorted_of_pairwise_index {l : List KeyBinding}
    (trigger : ∀ x ∈ l, ∀ y ∈ l, x.keyChain.back.anyMod = y.keyChain.back.anyMod)
    (sorted : l.Pairwise (·.bindingIndex < ·.bindingIndex)) :
    l.Pairwise fun a b => !compareActionByTriggerOrder b a :=
  sorted.imp_of_mem fun memA memB lt => by
    rw [compareActionByTriggerOrder_of_anyMod_eq (trigger _ memB _ memA)]
    simpa using Nat.le_of_lt lt

/-- No index is in both final parts: the A binding would be beaten by the B binding of its
index, which is the same binding. -/
theorem SegmentInvariant.indices_nodup {aPart bPart : List KeyBinding}
    (inv : SegmentInvariant A B aPart bPart)
    (sortedA : A.Pairwise (·.bindingIndex < ·.bindingIndex))
    (sortedB : B.Pairwise (·.bindingIndex < ·.bindingIndex))
    (sameIndex : ∀ a ∈ A, ∀ b ∈ B, a.bindingIndex = b.bindingIndex → a = b) :
    ((aPart ++ bPart).map (·.bindingIndex)).Nodup := by
  rw [List.map_append, List.nodup_append]
  refine ⟨List.pairwise_map.2 ((sortedA.sublist inv.aSublist).imp Nat.ne_of_lt),
    List.pairwise_map.2 ((sortedB.sublist inv.bSublist).imp Nat.ne_of_lt), ?_⟩
  rintro _ inMapA inMapB
  obtain ⟨x, memX, rfl⟩ := List.mem_map.1 inMapA
  obtain ⟨y, memY, same⟩ := List.mem_map.1 inMapB
  have inA := inv.aSublist.subset memX
  obtain ⟨inB, beats⟩ := (inv.memB y).1 memY
  obtain rfl := sameIndex x inA y inB same.symm
  exact Nat.lt_irrefl _ (beats x inA rfl)

theorem SegmentInvariant.mem_merge_iff {aPart bPart : List KeyBinding}
    (inv : SegmentInvariant A B aPart bPart)
    (linesA : (A.map (·.action.line)).Nodup) (linesB : (B.map (·.action.line)).Nodup)
    (sameIndex : ∀ a ∈ A, ∀ b ∈ B, a.bindingIndex = b.bindingIndex → a = b) (x : KeyBinding) :
    x ∈ inplaceMerge compareActionByTriggerOrder aPart bPart ↔ x ∈ A ++ B ∧
      ∀ y ∈ A ++ B, y.action.line = x.action.line → x.bindingIndex ≤ y.bindingIndex := by
  rw [inplaceMerge, List.mem_merge, inv.memA, inv.memB]
  by_cases memA : x ∈ A
  · -- a binding of `A` does not beat `A`, which holds its own line
    have notBeats : ¬ Beats A x := fun beats => Nat.lt_irrefl _ (beats x memA rfl)
    rw [least_iff_unbeaten linesA memA]
    simp [memA, notBeats]
  · by_cases memB : x ∈ B
    · rw [least_iff_beats linesB sameIndex memB memA]
      simp [memA, memB]
    · simp [memA, memB]

theorem SegmentInvariant.merged {aPart bPart : List KeyBinding}
    (inv : SegmentInvariant A B aPart bPart)
    (sortedA : A.Pairwise (·.bindingIndex < ·.bindingIndex))
    (sortedB : B.Pairwise (·.bindingIndex < ·.bindingIndex))
    (linesA : (A.map (·.action.line)).Nodup) (linesB : (B.map (·.action.line)).Nodup)
    (sameTrigger : ∀ x ∈ A ++ B, ∀ y ∈ A ++ B, x.keyChain.back.anyMod = y.keyChain.back.anyMod)
    (sameIndex : ∀ a ∈ A, ∀ b ∈ B, a.bindingIndex = b.bindingIndex → a = b) :
    MergedByIndex A B (inplaceMerge compareActionByTriggerOrder aPart bPart) := by
  have onTrigger : ∀ l : List KeyBinding, l ⊆ A ++ B →
      ∀ x ∈ l, ∀ y ∈ l, x.keyChain.back.anyMod = y.keyChain.back.anyMod :=
    fun _ sub x hx y hy => sameTrigger x (sub hx) y (sub hy)
  have sub : aPart ++ bPart ⊆ A ++ B := (inv.aSublist.append inv.bSublist).subset
  have perm : (inplaceMerge compareActionByTriggerOrder aPart bPart).Perm (aPart ++ bPart) :=
    List.merge_perm_append _
  refine .of_mem (pairwise_index_of_sorted (onTrigger _ fun _ hx => sub (perm.subset hx)) ?_
    ((perm.map _).nodup_iff.2 (inv.indices_nodup sortedA sortedB sameIndex)))
    (inv.mem_merge_iff linesA linesB sameIndex)
  -- each part is increasing in index, so sorted for the merge, and the merge keeps that
  exact List.sorted_merge not_compareActionByTriggerOrder_trans
    not_compareActionByTriggerOrder_total _ _
    (sorted_of_pairwise_index (onTrigger _ fun _ hx => sub (List.mem_append_left _ hx))
      (sortedA.sublist inv.aSublist))
    (sorted_of_pairwise_index (onTrigger _ fun _ hx => sub (List.mem_append_right _ hx))
      (sortedB.sublist inv.bSublist))

/-- `MergeActionListsByTrigger` appends the two lists merged, the assumptions of its comment
granted; a binding of `A` and one of `B` may share an index when they are the same binding. -/
theorem mergeActionListsByTrigger_merged (A B out : List KeyBinding)
    (sortedA : A.Pairwise (·.bindingIndex < ·.bindingIndex))
    (sortedB : B.Pairwise (·.bindingIndex < ·.bindingIndex))
    (linesA : (A.map (·.action.line)).Nodup) (linesB : (B.map (·.action.line)).Nodup)
    (sameTrigger : ∀ x ∈ A ++ B, ∀ y ∈ A ++ B, x.keyChain.back.anyMod = y.keyChain.back.anyMod)
    (sameIndex : ∀ a ∈ A, ∀ b ∈ B, a.bindingIndex = b.bindingIndex → a = b) :
    ∃ M, mergeActionListsByTrigger A B out = out ++ M ∧ MergedByIndex A B M := by
  obtain ⟨aPart, bPart, inv, result⟩ : ∃ aPart bPart, SegmentInvariant A B aPart bPart ∧
      mergeActionListsByTrigger A B out =
        out ++ inplaceMerge compareActionByTriggerOrder aPart bPart := by
    by_cases emptyA : A = []
    · subst emptyA
      exact ⟨[], B, ⟨List.nil_sublist _, .refl B, by simp, by simp [Beats]⟩,
        by simp [mergeActionListsByTrigger, inplaceMerge]⟩
    by_cases emptyB : B = []
    · subst emptyB
      exact ⟨A, [], segmentInvariant_start A,
        by simp [mergeActionListsByTrigger, inplaceMerge, emptyA]⟩
    exact ⟨_, _, segmentInvariant_foldl linesA [] B (A, []) (segmentInvariant_start A)
      (by simpa using linesB), mergeActionListsByTrigger_of_ne_nil A B out emptyA emptyB⟩
  exact ⟨_, result, inv.merged sortedA sortedB linesA linesB sameTrigger sameIndex⟩

end Merged

theorem mergeActionListsByTrigger_appends_merged (A B out : List KeyBinding)
    (sortedA : A.Pairwise (·.bindingIndex < ·.bindingIndex))
    (sortedB : B.Pairwise (·.bindingIndex < ·.bindingIndex))
    (linesA : (A.map (·.action.line)).Nodup) (linesB : (B.map (·.action.line)).Nodup)
    (sameTrigger : ∀ x ∈ A ++ B, ∀ y ∈ A ++ B, x.keyChain.back.anyMod = y.keyChain.back.anyMod)
    (distinct : ∀ a ∈ A, ∀ b ∈ B, a.bindingIndex ≠ b.bindingIndex) :
    ∃ M, mergeActionListsByTrigger A B out = out ++ M ∧ MergedByIndex A B M :=
  mergeActionListsByTrigger_merged A B out sortedA sortedB linesA linesB sameTrigger
    fun a memA b memB same => absurd same (distinct a memA b memB)


def sampleBinding (line : String) (trigger : KeySet) (index : Nat) : KeyBinding :=
  ⟨⟨line, "", line, line⟩, .single trigger, "a", index⟩

def sampleListA : List KeyBinding :=
  [sampleBinding "x" ⟨97, 0#8, .keyCode⟩ 1, sampleBinding "y" ⟨97, 0#8, .keyCode⟩ 4]

def sampleListB : List KeyBinding :=
  [sampleBinding "y" ⟨4, 0#8, .scanCode⟩ 2, sampleBinding "z" ⟨4, 0#8, .scanCode⟩ 5]

theorem mergeActionListsByTrigger_appends_merged_sample :
    sampleListA.Pairwise (·.bindingIndex < ·.bindingIndex) ∧
      sampleListB.Pairwise (·.bindingIndex < ·.bindingIndex) ∧
      (sampleListA.map (·.action.line)).Nodup ∧ (sampleListB.map (·.action.line)).Nodup ∧
      (∀ x ∈ sampleListA ++ sampleListB, ∀ y ∈ sampleListA ++ sampleListB,
        x.keyChain.back.anyMod = y.keyChain.back.anyMod) ∧
      (∀ a ∈ sampleListA, ∀ b ∈ sampleListB, a.bindingIndex ≠ b.bindingIndex) ∧
      ∃ M, mergeActionListsByTrigger sampleListA sampleListB [] = [] ++ M ∧
        MergedByIndex sampleListA sampleListB M :=
  ⟨by decide, by decide, by decide, by decide, by decide, by decide,
    mergeActionListsByTrigger_appends_merged _ _ [] (by decide) (by decide) (by decide)
      (by decide) (by decide) (by decide)⟩

end RecoilKeyBindings.TriggerMerge
