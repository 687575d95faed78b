import Mathlib.Data.List.Sort

/-!
# Unsorted vectors

`VectorEraseIf`, `VectorErase`, `VectorEraseAllIf` and the two `VectorUnique`s of
`ContainerUtil.h` erase the element in a slot by moving the back of the vector into that slot
and popping the back (`moveBackInto`). `VectorEraseIf` and `VectorErase` do it once, at the first
match, so they erase that match up to the order of the rest (`vectorEraseIf_spec`); the others
then look at the same slot again. The loop of `VectorEraseAllIf` from slot `i` keeps the slots
before `i` and leaves after them the elements from `i` on that do not match, in some order
(`vectorEraseAllIfFrom_spec`). The inner loop of `VectorUnique` for slot `i` is that loop from
slot `i + 1` with the predicate `uniqPred(v[i], ·)` (`vectorUniqueInner_eq`), so every pass of
the outer loop settles one more slot: nothing after it is related to it, and every element it
erased is related to it. `VectorInsertUnique` with its check and `VectorErase` keep a vector
without repeats as a set (`unsortedSet_insert_erase`).
-/

namespace RecoilKeyBindings.VectorErase

open scoped List

set_option autoImplicit false

variable {α : Type}

/-! ### Moving the back into a slot -/

/-- `v[i] = std::move(v.back()); v.pop_back();` -/
def moveBackInto (v : List α) (i : Nat) (inside : i < v.length) : List α :=
  (v.set i (v.getLast (List.ne_nil_of_length_pos (Nat.zero_lt_of_lt inside)))).dropLast

theorem set_eq_take_cons_drop (v : List α) {i : Nat} (inside : i < v.length) (a : α) :
    v.set i a = v.take i ++ a :: v.drop (i + 1) := by
  rw [List.set_eq_take_append_cons_drop, if_pos inside]

theorem moveBackInto_eq (v : List α) (i : Nat) (inside : i < v.length) :
    moveBackInto v i inside =
      v.take i ++ (v.getLast (List.ne_nil_of_length_pos (by omega)) :: v.drop (i + 1)).dropLast := by
  rw [moveBackInto, set_eq_take_cons_drop v inside, List.dropLast_append_cons]

theorem length_moveBackInto (v : List α) (i : Nat) (inside : i < v.length) :
    (moveBackInto v i inside).length = v.length - 1 := by
  simp [moveBackInto]

theorem take_moveBackInto (v : List α) (i : Nat) (inside : i < v.length) :
    (moveBackInto v i inside).take i = v.take i := by
  rw [moveBackInto_eq, List.take_left' (by simp; omega)]

theorem dropLast_getLast_cons_perm (rest : List α) (nonempty : rest ≠ []) :
    (rest.getLast nonempty :: rest).dropLast ~ rest :=
  calc (rest.getLast nonempty :: rest).dropLast
      = rest.getLast nonempty :: rest.dropLast := List.dropLast_cons_of_ne_nil nonempty
    _ ~ rest.dropLast ++ [rest.getLast nonempty] := (List.perm_append_singleton _ _).symm
    _ = rest := List.dropLast_concat_getLast nonempty

theorem drop_moveBackInto_perm (v : List α) (i : Nat) (inside : i < v.length) :
    (moveBackInto v i inside).drop i ~ v.drop (i + 1) := by
  rw [moveBackInto_eq, List.drop_left' (by simp; omega)]
  by_cases empty : v.drop (i + 1) = []
  · simp [empty]
  · rw [← List.getLast_drop empty]
    exact dropLast_getLast_cons_perm _ empty

theorem drop_eq_cons_of_take_eq {v w : List α} {i : Nat} (inside : i < v.length)
    (taken : w.take (i + 1) = v.take (i + 1)) : w.drop i = v[i] :: w.drop (i + 1) := by
  have wInside : i < w.length := by
    have lengths := congrArg List.length taken
    simp only [List.length_take] at lengths
    omega
  have same : w[i]? = v[i]? := by
    rw [← List.getElem?_take_of_lt (Nat.lt_succ_self i), taken,
      List.getElem?_take_of_lt (Nat.lt_succ_self i)]
  rw [List.drop_eq_getElem_cons wInside]
  simp only [List.getElem?_eq_getElem wInside, List.getElem?_eq_getElem inside, Option.some.injEq]
    at same
  rw [same]

/-! ### `VectorEraseAllIf` -/

/-- The loop of `VectorEraseAllIf` from slot `i`, with `b` the value it will return so far. -/
def vectorEraseAllIfFrom (p : α → Bool) (v : List α) (i : Nat) (b : Bool) : List α × Bool :=
  if inside : i < v.length then
    if p v[i] then vectorEraseAllIfFrom p (moveBackInto v i inside) i true
    else vectorEraseAllIfFrom p v (i + 1) b
  else (v, b)
termination_by v.length - i
decreasing_by
  · rw [length_moveBackInto]; omega
  · omega

def vectorEraseAllIf (v : List α) (p : α → Bool) : List α × Bool :=
  vectorEraseAllIfFrom p v 0 false

theorem vectorEraseAllIfFrom_spec (p : α → Bool) (v : List α) (i : Nat) (b : Bool) :
    (vectorEraseAllIfFrom p v i b).1.take i = v.take i ∧
      (vectorEraseAllIfFrom p v i b).1.drop i ~ (v.drop i).filter (fun x => !p x) ∧
      (vectorEraseAllIfFrom p v i b).2 = (b || (v.drop i).any p) := by
  induction v, i, b using vectorEraseAllIfFrom.induct p with
  | case1 v i b inside matched ih =>
    -- the match leaves; the back moves into its slot, which is looked at again
    rw [vectorEraseAllIfFrom, dif_pos inside, if_pos matched]
    obtain ⟨taken, dropped, flag⟩ := ih
    have split : v.drop i = v[i] :: v.drop (i + 1) := List.drop_eq_getElem_cons inside
    refine ⟨taken.trans (take_moveBackInto v i inside), dropped.trans ?_, ?_⟩
    · rw [split, List.filter_cons_of_neg (by simp [matched])]
      exact (drop_moveBackInto_perm v i inside).filter _
    · rw [flag, split, List.any_cons, matched]
      simp
  | case2 v i b inside differs ih =>
    rw [vectorEraseAllIfFrom, dif_pos inside, if_neg differs]
    obtain ⟨taken, dropped, flag⟩ := ih
    have kept := drop_eq_cons_of_take_eq inside taken
    refine ⟨?_, ?_, ?_⟩
    · have shorter : ∀ l : List α, l.take i = (l.take (i + 1)).take i := fun l => by
        rw [List.take_take, Nat.min_eq_left (Nat.le_succ i)]
      rw [shorter, taken, ← shorter]
    · rw [kept, List.drop_eq_getElem_cons inside, List.filter_cons_of_pos (by simpa using differs)]
      exact dropped.cons _
    · rw [flag, List.drop_eq_getElem_cons inside, List.any_cons]
      simp [differs]
  | case3 v i b outside =>
    rw [vectorEraseAllIfFrom, dif_neg outside]
    simp [List.drop_of_length_le (Nat.le_of_not_lt outside)]

/-- `VectorEraseAllIf(v, p)` leaves a permutation of the elements of `v` that do not satisfy
`p`, and returns whether some element of `v` satisfied it. -/
theorem vectorEraseAllIf_spec (v : List α) (p : α → Bool) :
    (vectorEraseAllIf v p).1 ~ v.filter (fun x => !p x) ∧ (vectorEraseAllIf v p).2 = v.any p := by
  obtain ⟨-, dropped, flag⟩ := vectorEraseAllIfFrom_spec p v 0 false
  exact ⟨by simpa using dropped, by simpa using flag⟩

/-! ### `VectorEraseIf` and `VectorErase` -/

/-- `VectorEraseIf(v, p)`: the first element satisfying `p`, found by `std::find_if`, is
overwritten by the back, which is popped. -/
def vectorEraseIf (v : List α) (p : α → Bool) : List α × Bool :=
  let it := v.findIdx p
  if inside : it < v.length then (moveBackInto v it inside, true) else (v, false)

/-- `VectorErase(v, e)`: `VectorEraseIf` with `== e`, found by `std::find`. -/
def vectorErase [BEq α] (v : List α) (e : α) : List α × Bool :=
  vectorEraseIf v (· == e)

theorem moveBackInto_perm (v : List α) (i : Nat) (inside : i < v.length) :
    moveBackInto v i inside ~ v.take i ++ v.drop (i + 1) := by
  rw [← List.take_append_drop i (moveBackInto v i inside), take_moveBackInto]
  exact (drop_moveBackInto_perm v i inside).append_left _

theorem eraseP_eq_take_drop_findIdx (v : List α) (p : α → Bool) (inside : v.findIdx p < v.length) :
    v.eraseP p = v.take (v.findIdx p) ++ v.drop (v.findIdx p + 1) := by
  have before : ∀ b ∈ v.take (v.findIdx p), ¬p b := fun b member => by
    obtain ⟨j, early, rfl⟩ := List.mem_iff_getElem.1 member
    rw [List.getElem_take]
    simpa using List.not_of_lt_findIdx (by simp at early; omega)
  conv_lhs => rw [← List.take_append_drop (v.findIdx p) v, List.drop_eq_getElem_cons inside]
  rw [List.eraseP_append_right _ before, List.eraseP_cons_of_pos (List.findIdx_getElem)]

theorem vectorEraseIf_spec (v : List α) (p : α → Bool) :
    (vectorEraseIf v p).1 ~ v.eraseP p ∧ (vectorEraseIf v p).2 = v.any p := by
  dsimp only [vectorEraseIf]
  split
  · next inside =>
    have found : v.any p = true :=
      List.any_eq_true.2 ⟨v[v.findIdx p], List.getElem_mem inside, List.findIdx_getElem⟩
    rw [eraseP_eq_take_drop_findIdx v p inside, found]
    exact ⟨moveBackInto_perm v _ inside, rfl⟩
  · next outside =>
    have none : ∀ a ∈ v, p a = false := List.findIdx_eq_length.1 <|
      Nat.le_antisymm (List.findIdx_le_length p) (Nat.le_of_not_lt outside)
    rw [List.eraseP_of_forall_not fun a member => by simp [none a member]]
    exact ⟨.refl v, by simpa using none⟩

theorem vectorErase_spec [BEq α] [LawfulBEq α] (v : List α) (e : α) :
    (vectorErase v e).1 ~ v.erase e ∧ (vectorErase v e).2 = v.contains e := by
  obtain ⟨perm, found⟩ := vectorEraseIf_spec v (· == e)
  refine ⟨List.erase_eq_eraseP' e v ▸ perm, found.trans ?_⟩
  rw [Bool.eq_iff_iff]
  simp

/-! ### An unsorted vector without repeats as a set -/

/-- `VectorInsertUnique(v, e, b)` (`b` defaults to false): with `b` it first looks for `e` with
`std::find` and refuses a present one; without, it pushes `e` back unconditionally, the
`assert` that `e` is new being checked in debug builds only. -/
def vectorInsertUnique [BEq α] (v : List α) (e : α) (b : Bool) : List α × Bool :=
  if b && v.contains e then (v, false) else (v ++ [e], true)

/-- On a vector without repeats, `VectorInsertUnique(v, e, true)` adds `e` exactly when it is
new and `VectorErase(v, e)` removes it exactly when present; both leave a vector without
repeats, and the unchecked `VectorInsertUnique(v, e)` does what the checked one does whenever
`e` is new, as its `assert` demands. -/
theorem unsortedSet_insert_erase [DecidableEq α] (v : List α) (nodup : v.Nodup) (e : α) :
    ((vectorInsertUnique v e true).2 = true ↔ e ∉ v) ∧
      (vectorInsertUnique v e true).1.Nodup ∧
      (∀ x, x ∈ (vectorInsertUnique v e true).1 ↔ x ∈ v ∨ x = e) ∧
      ((vectorErase v e).2 = true ↔ e ∈ v) ∧
      (vectorErase v e).1.Nodup ∧
      (∀ x, x ∈ (vectorErase v e).1 ↔ x ∈ v ∧ x ≠ e) ∧
      (e ∉ v → vectorInsertUnique v e false = vectorInsertUnique v e true) := by
  obtain ⟨erased, found⟩ := vectorErase_spec v e
  have inserted : (vectorInsertUnique v e true).2 = true ↔ e ∉ v := by
    by_cases member : e ∈ v <;> simp [vectorInsertUnique, member]
  refine ⟨inserted, ?_, fun x => ?_, by simp [found], erased.nodup_iff.2 (nodup.erase e),
    fun x => by rw [erased.mem_iff, nodup.mem_erase_iff, and_comm], fun fresh => by
      simp [vectorInsertUnique, fresh]⟩
  all_goals by_cases member : e ∈ v
  · simpa [vectorInsertUnique, member] using nodup
  · simpa [vectorInsertUnique, member, List.nodup_append] using nodup
  · by_cases same : x = e
    · simp [vectorInsertUnique, member, same]
    · simp [vectorInsertUnique, member, same]
  · simp [vectorInsertUnique, member]

theorem unsortedSet_insert_erase_two :
    ([1, 2, 3] : List Int).Nodup ∧
      (((vectorInsertUnique [1, 2, 3] 2 true).2 = true ↔ (2 : Int) ∉ ([1, 2, 3] : List Int)) ∧
        (vectorInsertUnique ([1, 2, 3] : List Int) 2 true).1.Nodup ∧
        (∀ x, x ∈ (vectorInsertUnique ([1, 2, 3] : List Int) 2 true).1 ↔
          x ∈ ([1, 2, 3] : List Int) ∨ x = 2) ∧
        ((vectorErase ([1, 2, 3] : List Int) 2).2 = true ↔ (2 : Int) ∈ ([1, 2, 3] : List Int)) ∧
        (vectorErase ([1, 2, 3] : List Int) 2).1.Nodup ∧
        (∀ x, x ∈ (vectorErase ([1, 2, 3] : List Int) 2).1 ↔ x ∈ ([1, 2, 3] : List Int) ∧ x ≠ 2) ∧
        ((2 : Int) ∉ ([1, 2, 3] : List Int) →
          vectorInsertUnique ([1, 2, 3] : List Int) 2 false =
            vectorInsertUnique ([1, 2, 3] : List Int) 2 true)) :=
  ⟨by decide, unsortedSet_insert_erase ([1, 2, 3] : List Int) (by decide) 2⟩

/-! ### `VectorUnique` -/

/-- The inner loop of `VectorUnique` for the element in slot `i`, from slot `j`. -/
def vectorUniqueInner (uniqPred : α → α → Bool) (i : Nat) (v : List α) (j : Nat)
    (after : i < j) : List α :=
  if inside : j < v.length then
    if uniqPred v[i] v[j] then vectorUniqueInner uniqPred i (moveBackInto v j inside) j after
    else vectorUniqueInner uniqPred i v (j + 1) (Nat.lt_succ_of_lt after)
  else v
termination_by v.length - j
decreasing_by
  · rw [length_moveBackInto]; omega
  · omega

/-- The inner loop leaves slot `i` where it is, so it is the loop of `VectorEraseAllIf` with
the predicate `uniqPred(v[i], ·)`. -/
theorem vectorUniqueInner_eq (uniqPred : α → α → Bool) (i : Nat) (v : List α) (j : Nat)
    (after : i < j) (pivot : α) (atPivot : v[i]? = some pivot) (b : Bool) :
    vectorUniqueInner uniqPred i v j after = (vectorEraseAllIfFrom (uniqPred pivot) v j b).1 := by
  induction v, j, after using vectorUniqueInner.induct uniqPred i generalizing b with
  | case1 v j after inside related ih =>
    have pivotEq : v[i] = pivot := (List.getElem?_eq_some_iff.1 atPivot).2
    have kept : (moveBackInto v j inside)[i]? = some pivot := by
      rw [← List.getElem?_take_of_lt after, take_moveBackInto, List.getElem?_take_of_lt after,
        atPivot]
    rw [vectorUniqueInner, dif_pos inside, if_pos related, vectorEraseAllIfFrom, dif_pos inside,
      if_pos (pivotEq ▸ related), ih kept]
  | case2 v j after inside unrelated ih =>
    have pivotEq : v[i] = pivot := (List.getElem?_eq_some_iff.1 atPivot).2
    rw [vectorUniqueInner, dif_pos inside, if_neg unrelated, vectorEraseAllIfFrom, dif_pos inside,
      if_neg (pivotEq ▸ unrelated), ih atPivot]
  | case3 v j after outside =>
    rw [vectorUniqueInner, dif_neg outside, vectorEraseAllIfFrom, dif_neg outside]

theorem length_vectorUniqueInner_le (uniqPred : α → α → Bool) (i : Nat) (v : List α) (j : Nat)
    (after : i < j) : (vectorUniqueInner uniqPred i v j after).length ≤ v.length := by
  induction v, j, after using vectorUniqueInner.induct uniqPred i with
  | case1 v j after inside related ih =>
    rw [vectorUniqueInner, dif_pos inside, if_pos related]
    exact ih.trans (by rw [length_moveBackInto]; omega)
  | case2 v j after inside unrelated ih =>
    rw [vectorUniqueInner, dif_pos inside, if_neg unrelated]
    exact ih
  | case3 v j after outside =>
    rw [vectorUniqueInner, dif_neg outside]

def vectorUniqueFrom (uniqPred : α → α → Bool) (v : List α) (i : Nat) : List α :=
  if i < v.length then
    vectorUniqueFrom uniqPred (vectorUniqueInner uniqPred i v (i + 1) (Nat.lt_succ_self i)) (i + 1)
  else v
termination_by v.length - i
decreasing_by
  have := length_vectorUniqueInner_le uniqPred i v (i + 1) (Nat.lt_succ_self i)
  omega

def vectorUnique (v : List α) (uniqPred : α → α → Bool) : List α :=
  vectorUniqueFrom uniqPred v 0

/-- `VectorUnique(v)`: the loop of `VectorUnique(v, uniqPred)` with `==` for `uniqPred`. -/
def vectorUniqueOfEq [DecidableEq α] (v : List α) : List α :=
  vectorUnique v fun a b => a == b

/-- The slots before `i` are settled: no two of them are related, and none is related to an
element after it. -/
def Settled (uniqPred : α → α → Bool) (v : List α) (i : Nat) : Prop :=
  (v.take i).Pairwise (fun a b => uniqPred a b = false) ∧
    ∀ x ∈ v.take i, ∀ y ∈ v.drop i, uniqPred x y = false

/-- Every element of `original` that is not in `v` is related to an element of `v` in a slot
before `i`. -/
def Covered (uniqPred : α → α → Bool) (original v : List α) (i : Nat) : Prop :=
  ∃ removed : List α, original ~ v ++ removed ∧
    ∀ x ∈ removed, ∃ y ∈ v.take i, uniqPred y x = true

theorem settled_covered_step (uniqPred : α → α → Bool) (original v : List α) (i : Nat)
    (inside : i < v.length) (settled : Settled uniqPred v i) (covered : Covered uniqPred original v i) :
    Settled uniqPred (vectorUniqueInner uniqPred i v (i + 1) (Nat.lt_succ_self i)) (i + 1) ∧
      Covered uniqPred original (vectorUniqueInner uniqPred i v (i + 1) (Nat.lt_succ_self i))
        (i + 1) := by
  obtain ⟨taken, dropped, -⟩ := vectorEraseAllIfFrom_spec (uniqPred v[i]) v (i + 1) false
  rw [← vectorUniqueInner_eq uniqPred i v (i + 1) (Nat.lt_succ_self i) v[i]
    (List.getElem?_eq_getElem inside) false] at taken dropped
  set w := vectorUniqueInner uniqPred i v (i + 1) (Nat.lt_succ_self i)
  have prefixEq : w.take (i + 1) = v.take i ++ [v[i]] := by
    rw [taken, List.take_succ, List.getElem?_eq_getElem inside, Option.toList_some]
  have pivotAfter : v[i] ∈ v.drop i := by
    rw [List.drop_eq_getElem_cons inside]; exact List.mem_cons_self _ _
  -- what stays after slot `i` was after it and is not related to the element in it
  have later : ∀ y ∈ w.drop (i + 1), y ∈ v.drop i ∧ uniqPred v[i] y = false :=
      fun y member => by
    have filtered := List.mem_filter.1 (dropped.subset member)
    rw [List.drop_eq_getElem_cons inside]
    exact ⟨List.mem_cons_of_mem _ filtered.1, by simpa using filtered.2⟩
  obtain ⟨pairwise, cross⟩ := settled
  obtain ⟨removed, perm, related⟩ := covered
  refine ⟨⟨?_, ?_⟩, ⟨(v.drop (i + 1)).filter (uniqPred v[i]) ++ removed, ?_, ?_⟩⟩
  · rw [prefixEq, List.pairwise_append]
    exact ⟨pairwise, List.pairwise_singleton _ _, fun x member y same => by
      rw [List.mem_singleton.1 same]; exact cross x member _ pivotAfter⟩
  · intro x member y after
    rw [prefixEq, List.mem_append, List.mem_singleton] at member
    rcases member with member | rfl
    · exact cross x member y (later y after).1
    · exact (later y after).2
  · have rest : v.drop (i + 1) ~ w.drop (i + 1) ++ (v.drop (i + 1)).filter (uniqPred v[i]) :=
      ((List.filter_append_perm _ _).symm.trans List.perm_append_comm).trans
        (dropped.symm.append_right _)
    have whole : v ~ w ++ (v.drop (i + 1)).filter (uniqPred v[i]) := by
      have split := rest.append_left (v.take (i + 1))
      rwa [List.take_append_drop, ← taken, ← List.append_assoc, List.take_append_drop] at split
    exact perm.trans ((whole.append_right removed).trans (.of_eq (List.append_assoc _ _ _)))
  · intro x member
    rcases List.mem_append.1 member with member | member
    · exact ⟨v[i], by rw [prefixEq]; exact List.mem_append_right _ (List.mem_singleton_self _),
        (List.mem_filter.1 member).2⟩
    · obtain ⟨y, early, rel⟩ := related x member
      exact ⟨y, by rw [prefixEq]; exact List.mem_append_left _ early, rel⟩

theorem vectorUniqueFrom_spec (uniqPred : α → α → Bool) (original v : List α) (i : Nat)
    (settled : Settled uniqPred v i) (covered : Covered uniqPred original v i) :
    (vectorUniqueFrom uniqPred v i).Pairwise (fun a b => uniqPred a b = false) ∧
      ∃ removed : List α, original ~ vectorUniqueFrom uniqPred v i ++ removed ∧
        ∀ x ∈ removed, ∃ y ∈ vectorUniqueFrom uniqPred v i, uniqPred y x = true := by
  induction v, i using vectorUniqueFrom.induct uniqPred with
  | case1 v i inside ih =>
    obtain ⟨settled', covered'⟩ := settled_covered_step uniqPred original v i inside settled covered
    rw [vectorUniqueFrom, if_pos inside]
    exact ih settled' covered'
  | case2 v i outside =>
    have whole : v.take i = v := List.take_of_length_le (Nat.le_of_not_lt outside)
    rw [vectorUniqueFrom, if_neg outside]
    obtain ⟨removed, perm, related⟩ := covered
    exact ⟨whole ▸ settled.1, removed, perm, fun x member => whole ▸ related x member⟩

theorem vectorUnique_pairwise_covered (v : List α) (uniqPred : α → α → Bool) :
    (vectorUnique v uniqPred).Pairwise (fun a b => uniqPred a b = false) ∧
      ∃ removed : List α, v ~ vectorUnique v uniqPred ++ removed ∧
        ∀ x ∈ removed, ∃ y ∈ vectorUnique v uniqPred, uniqPred y x = true :=
  vectorUniqueFrom_spec uniqPred v v 0 ⟨List.Pairwise.nil, by simp⟩
    ⟨[], by simp, by simp⟩

theorem length_filter_related_eq_one {uniqPred : α → α → Bool}
    (equivalence : Equivalence fun a b => uniqPred a b = true) {w : List α}
    (unrelated : w.Pairwise fun a b => uniqPred a b = false) {x : α}
    (cover : ∃ y ∈ w, uniqPred y x = true) : (w.filter (uniqPred · x)).length = 1 := by
  obtain ⟨y, member, related⟩ := cover
  have single : (w.filter (uniqPred · x)).Pairwise fun _ _ => False :=
    (unrelated.filter _).imp_of_mem fun {a b} first second apart => by
      have toX : uniqPred a x = true := (List.mem_filter.1 first).2
      have fromX : uniqPred b x = true := (List.mem_filter.1 second).2
      have ab : uniqPred a b = true := equivalence.trans toX (equivalence.symm fromX)
      simp [ab] at apart
  have kept : y ∈ w.filter (uniqPred · x) := List.mem_filter.2 ⟨member, related⟩
  match filtered : w.filter (uniqPred · x), single with
  | [], _ => simp [filtered] at kept
  | [_], _ => rfl
  | _ :: _ :: _, .cons apart _ => exact (apart _ (List.mem_cons_self _ _)).elim

/-- `VectorUnique(v, uniqPred)` leaves no two elements `a` before `b` with `uniqPred(a, b)`,
keeps a sub-multiset of `v`, and keeps for every element it erases one related to it; so for an
equivalence it keeps exactly one element of every class met in `v`. -/
theorem vectorUnique_spec (v : List α) (uniqPred : α → α → Bool) :
    (vectorUnique v uniqPred).Pairwise (fun a b => uniqPred a b = false) ∧
      vectorUnique v uniqPred <+~ v ∧
      (∃ removed : List α, v ~ vectorUnique v uniqPred ++ removed ∧
        ∀ x ∈ removed, ∃ y ∈ vectorUnique v uniqPred, uniqPred y x = true) ∧
      (Equivalence (fun a b => uniqPred a b = true) →
        ∀ x ∈ v, ((vectorUnique v uniqPred).filter (uniqPred · x)).length = 1) := by
  obtain ⟨unrelated, removed, perm, related⟩ := vectorUnique_pairwise_covered v uniqPred
  refine ⟨unrelated, (List.sublist_append_left _ _).subperm.trans perm.symm.subperm,
    ⟨removed, perm, related⟩, fun equivalence x member => ?_⟩
  refine length_filter_related_eq_one equivalence unrelated ?_
  rcases List.mem_append.1 (perm.subset member) with kept | erased
  · exact ⟨x, kept, equivalence.refl x⟩
  · exact related x erased

theorem vectorUniqueOfEq_spec [DecidableEq α] (v : List α) :
    (vectorUniqueOfEq v).Nodup ∧ vectorUniqueOfEq v <+~ v ∧ ∀ x, x ∈ vectorUniqueOfEq v ↔ x ∈ v := by
  obtain ⟨unrelated, removed, perm, related⟩ := vectorUnique_pairwise_covered v fun a b => a == b
  refine ⟨unrelated.imp fun {a b} apart same => by simp [same] at apart,
    (List.sublist_append_left _ _).subperm.trans perm.symm.subperm,
    fun x => ⟨fun kept => perm.symm.subset (List.mem_append_left _ kept), fun member => ?_⟩⟩
  rcases List.mem_append.1 (perm.subset member) with kept | erased
  · exact kept
  · obtain ⟨y, kept, same⟩ := related x erased
    exact beq_iff_eq.1 same ▸ kept

theorem vectorUnique_spec_of_repeats :
    Equivalence (fun a b : Int => (a == b) = true) ∧
      ((vectorUnique [1, 2, 1, 3, 2] fun a b : Int => a == b).Pairwise fun a b => (a == b) = false) ∧
      (vectorUnique [1, 2, 1, 3, 2] fun a b : Int => a == b) <+~ [1, 2, 1, 3, 2] ∧
      (∃ removed : List Int, [1, 2, 1, 3, 2] ~ (vectorUnique [1, 2, 1, 3, 2] fun a b => a == b) ++ removed ∧
        ∀ x ∈ removed, ∃ y ∈ vectorUnique [1, 2, 1, 3, 2] (fun a b => a == b), (y == x) = true) ∧
      (Equivalence (fun a b : Int => (a == b) = true) → ∀ x ∈ [1, 2, 1, 3, 2],
        ((vectorUnique [1, 2, 1, 3, 2] fun a b : Int => a == b).filter (· == x)).length = 1) :=
  ⟨⟨fun _ => beq_self_eq_true _, fun same => beq_iff_eq.2 (beq_iff_eq.1 same).symm,
    fun first second => beq_iff_eq.2 ((beq_iff_eq.1 first).trans (beq_iff_eq.1 second))⟩,
    vectorUnique_spec [1, 2, 1, 3, 2] fun a b : Int => a == b⟩

end RecoilKeyBindings.VectorErase
