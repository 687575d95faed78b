import Mathlib.Data.List.Sort
import Mathlib.Data.List.InsertIdx

/-!
# Sorted vectors as sets

`VectorInsertUniqueSorted`, `VectorEraseUniqueSorted` and `BinarySearch` of `ContainerUtil.h`
keep a vector strictly increasing under a comparator and find an element with
`std::lower_bound`, modelled as libstdc++'s `__lower_bound` runs it (`lowerBoundFrom`). On a
vector whose elements below the value come first, the search returns the first slot whose
element is not below the value (`lowerBound_spec`). When the comparator is a strict weak order
whose incomparability is equality (`StrictTotal`), that slot holds the value exactly when the
vector does, so the three functions are membership, insertion and erasure on the set the
strictly increasing vector lists, and a strictly increasing vector is determined by that set.
`VectorInsertSorted` inserts at `std::upper_bound`, the same loop with the test turned round,
and is `List.orderedInsert` on a vector no element of which is below an earlier one
(`vectorInsertSorted_eq_orderedInsert`).
-/

namespace RecoilKeyBindings.SortedVector

open scoped List

set_option autoImplicit false

variable {α : Type}

/-! ### The code -/

/-- `std::lower_bound(first, first + len, value, comp)` as libstdc++'s `__lower_bound` runs it
on the slots of `v`: it halves the range, and keeps the part after the middle when the middle
element is below the value, the part before it otherwise. -/
def lowerBoundFrom (comp : α → α → Bool) (v : List α) (value : α) (first : Nat) : Nat → Nat
  | 0 => first
  | len + 1 =>
    let half := (len + 1) / 2
    let middle := first + half
    if v[middle]?.any (comp · value) then
      lowerBoundFrom comp v value (middle + 1) (len + 1 - half - 1)
    else lowerBoundFrom comp v value first half
termination_by len => len
decreasing_by all_goals omega

def lowerBound (v : List α) (value : α) (comp : α → α → Bool) : Nat :=
  lowerBoundFrom comp v value 0 v.length

/-- `std::upper_bound(v.begin(), v.end(), value, comp)`: libstdc++'s `__upper_bound` is the loop
of `__lower_bound` that keeps the part after the middle when the value is not below the middle
element. -/
def upperBound (v : List α) (value : α) (comp : α → α → Bool) : Nat :=
  lowerBoundFrom (fun a b => !comp b a) v value 0 v.length

/-- `BinarySearch(v.begin(), v.end(), value, comp)`: the slot it returns, `v.length` for
`v.end()`. -/
def binarySearch (v : List α) (value : α) (comp : α → α → Bool) : Nat :=
  let first := lowerBound v value comp
  if !(first == v.length) && !(v[first]?.any (comp value ·)) then first else v.length

def binarySearchOfLt [LT α] [DecidableRel (fun a b : α => a < b)] (v : List α) (value : α) :
    Nat :=
  binarySearch v value fun a b => decide (a < b)

def vectorInsertUniqueSorted [DecidableEq α] (v : List α) (e : α) (pred : α → α → Bool) :
    List α × Bool :=
  let iter := lowerBound v e pred
  if iter != v.length && v[iter]? == some e then (v, false) else (v.insertIdx iter e, true)

/-- The loop of `VectorEraseUniqueSorted`: `std::swap(v[n], v[n + 1])` while
`n < v.size() - 1`. -/
def swapToBack (v : List α) (n : Nat) : List α :=
  if inside : n < v.length - 1 then swapToBack ((v.set n v[n + 1]).set (n + 1) v[n]) (n + 1)
  else v
termination_by v.length - n
decreasing_by simp only [List.length_set]; omega

def vectorEraseUniqueSorted [DecidableEq α] (v : List α) (e : α) (c : α → α → Bool) :
    List α × Bool :=
  let iter := lowerBound v e c
  if iter == v.length || v[iter]? != some e then (v, false)
  else ((swapToBack v iter).dropLast, true)

/-- `VectorInsertSorted(vec, item, pred)`: the vector it leaves and the slot of the iterator it
returns. -/
def vectorInsertSorted (vec : List α) (item : α) (pred : α → α → Bool) : List α × Nat :=
  let pos := upperBound vec item pred
  (vec.insertIdx pos item, pos)

def vectorInsertSortedOfLt [LT α] [DecidableRel (fun a b : α => a < b)] (vec : List α)
    (item : α) : List α × Nat :=
  vectorInsertSorted vec item fun a b => decide (a < b)

/-- `std::sort(v.begin(), v.end(), comp)`. `std::sort` is not stable and may return any
permutation sorted by `comp`; this takes core's merge sort, and `eq_stdSort_of_perm` shows that
under a comparator whose incomparability is equality every such permutation is this one. -/
def stdSort (v : List α) (comp : α → α → Bool) : List α :=
  v.mergeSort fun a b => !comp b a

/-- The loop of libstdc++'s `__unique` once it has kept `kept`: the next element is kept when
`pred(kept, next)` is false, and the element kept last is the one compared. -/
def uniqueFrom (pred : α → α → Bool) (kept : α) : List α → List α
  | [] => [kept]
  | next :: rest =>
    if pred kept next then uniqueFrom pred kept rest else kept :: uniqueFrom pred next rest

/-- `v.erase(std::unique(v.begin(), v.end(), pred), v.end())`. -/
def unique (v : List α) (pred : α → α → Bool) : List α :=
  match v with
  | [] => []
  | first :: rest => uniqueFrom pred first rest

def vectorSortUnique (v : List α) (sortPred uniqPred : α → α → Bool) : List α :=
  unique (stdSort v sortPred) uniqPred

/-- `VectorSortUnique(v, sortPred)`: `std::unique` with `==`. -/
def vectorSortUniqueOfEq [BEq α] (v : List α) (sortPred : α → α → Bool) : List α :=
  vectorSortUnique v sortPred (· == ·)

/-- `VectorSortUnique(v)`: `std::sort` with `<` and `std::unique` with `==`. -/
def vectorSortUniqueOfLt [LT α] [DecidableRel (fun a b : α => a < b)] [BEq α] (v : List α) :
    List α :=
  vectorSortUniqueOfEq v fun a b => decide (a < b)

/-! ### The swap loop moves one element to the back -/

theorem swap_eq : ∀ (v : List α) (n : Nat) (inside : n + 1 < v.length),
    (v.set n v[n + 1]).set (n + 1) v[n] = v.take n ++ v[n + 1] :: v[n] :: v.drop (n + 2)
  | [], _, inside => absurd inside (by simp)
  | [_], 0, inside => absurd inside (by simp)
  | _ :: _ :: _, 0, _ => rfl
  | c :: v, n + 1, inside => by
    simp only [List.set_cons_succ, List.getElem_cons_succ, List.take_succ_cons, List.drop_succ_cons,
      List.cons_append]
    rw [swap_eq v n (by simpa using inside)]

theorem swapToBack_eq (v : List α) (n : Nat) (inside : n < v.length) :
    swapToBack v n = v.take n ++ v.drop (n + 1) ++ [v[n]] := by
  induction v, n using swapToBack.induct with
  | case1 v n before ih =>
    have next : n + 1 < v.length := by omega
    have swapped := swap_eq v n next
    have taken : ((v.set n v[n + 1]).set (n + 1) v[n]).take (n + 1) = v.take n ++ [v[n + 1]] := by
      rw [swapped, List.take_append_eq_append_take, List.take_of_length_le (by simp),
        List.length_take_of_le (by omega)]
      simp
    have dropped : ((v.set n v[n + 1]).set (n + 1) v[n]).drop (n + 2) = v.drop (n + 2) := by
      rw [swapped, List.drop_append_eq_append_drop, List.drop_of_length_le (by simp),
        List.length_take_of_le (by omega)]
      simp [show n + 2 - n = 2 by omega]
    rw [swapToBack, dif_pos before, ih (by simpa using next), taken, dropped,
      List.drop_eq_getElem_cons next]
    simp only [List.getElem_set_self, List.append_assoc, List.singleton_append]
  | case2 v n last =>
    have atBack : v.drop n = [v[n]] := by
      rw [List.drop_eq_getElem_cons inside, List.drop_of_length_le (by omega)]
    rw [swapToBack, dif_neg last, List.drop_of_length_le (by omega), List.append_nil, ← atBack,
      List.take_append_drop]

theorem dropLast_swapToBack (v : List α) (n : Nat) (inside : n < v.length) :
    (swapToBack v n).dropLast = v.eraseIdx n := by
  rw [swapToBack_eq v n inside, List.dropLast_concat, List.eraseIdx_eq_take_drop_succ]

theorem insertIdx_eq_take_cons_drop (v : List α) (n : Nat) (e : α) (inside : n ≤ v.length) :
    v.insertIdx n e = v.take n ++ e :: v.drop n := by
  obtain ⟨front, back, split, frontLength, inserted⟩ :=
    List.exists_of_modifyTailIdx (List.cons e) inside
  rw [List.insertIdx, inserted, split, List.take_left' frontLength, List.drop_left' frontLength]

/-! ### `std::lower_bound` -/

section LowerBound

variable (comp : α → α → Bool) (v : List α) (value : α)

/-- Every element of `v` before slot `i` is below the value, and none from slot `j` on. -/
def Brackets (i j : Nat) : Prop :=
  ∀ k (inside : k < v.length),
    (k < i → comp v[k] value = true) ∧ (j ≤ k → comp v[k] value = false)

variable {comp v value}
variable (belowFirst : ∀ k l (hk : k < v.length) (hl : l < v.length), k ≤ l →
  comp v[l] value = true → comp v[k] value = true)

include belowFirst

theorem lowerBoundFrom_spec (first len : Nat) (fits : first + len ≤ v.length)
    (brackets : Brackets comp v value first (first + len)) :
    lowerBoundFrom comp v value first len ≤ v.length ∧
      Brackets comp v value (lowerBoundFrom comp v value first len)
        (lowerBoundFrom comp v value first len) := by
  induction first, len using lowerBoundFrom.induct comp v value with
  | case1 first =>
    rw [lowerBoundFrom]
    exact ⟨by simpa using fits, by simpa using brackets⟩
  | case2 first len half middle below ih =>
    dsimp only [half, middle] at below ih
    have middleInside : first + (len + 1) / 2 < v.length := by omega
    rw [lowerBoundFrom, if_pos below]
    rw [List.getElem?_eq_getElem middleInside, Option.any_some] at below
    refine ih (by omega) fun k inside =>
      ⟨fun before => ?_, fun after => (brackets k inside).2 (by omega)⟩
    by_cases early : k < first
    · exact (brackets k inside).1 early
    · exact belowFirst k _ inside middleInside (by omega) below
  | case3 first len half middle notBelow ih =>
    dsimp only [half, middle] at notBelow ih
    have middleInside : first + (len + 1) / 2 < v.length := by omega
    rw [lowerBoundFrom, if_neg notBelow]
    rw [List.getElem?_eq_getElem middleInside, Option.any_some, Bool.not_eq_true] at notBelow
    refine ih (by omega) fun k inside => ⟨(brackets k inside).1, fun after => ?_⟩
    cases lowered : comp v[k] value
    · rfl
    · simpa [notBelow] using belowFirst _ k middleInside inside (by omega) lowered

theorem lowerBound_spec :
    lowerBound v value comp ≤ v.length ∧
      Brackets comp v value (lowerBound v value comp) (lowerBound v value comp) :=
  lowerBoundFrom_spec belowFirst 0 v.length (by omega) fun k inside =>
    ⟨fun early => absurd early (by omega), fun late => absurd inside (by omega)⟩

theorem lowerBound_eq_findIdx : lowerBound v value comp = v.findIdx fun a => !comp a value := by
  obtain ⟨fits, brackets⟩ := lowerBound_spec belowFirst
  rcases Nat.lt_or_eq_of_le fits with inside | whole
  · refine ((List.findIdx_eq inside).2 ⟨?_, fun j early => ?_⟩).symm
    · simp [(brackets _ inside).2 le_rfl]
    · simp [(brackets j (by omega)).1 early]
  · rw [whole, eq_comm, List.findIdx_eq_length]
    intro a member
    obtain ⟨k, inside, rfl⟩ := List.mem_iff_getElem.1 member
    simp [(brackets k inside).1 (whole ▸ inside)]

end LowerBound

/-! ### A strictly increasing vector under a strict total comparator -/

/-- A comparator that is a strict weak order whose incomparability is equality: irreflexive,
transitive, and ordering every two distinct values. -/
structure StrictTotal (lt : α → α → Bool) : Prop where
  irrefl : ∀ a, lt a a = false
  trans : ∀ a b c, lt a b = true → lt b c = true → lt a c = true
  eq_of_incomparable : ∀ a b, lt a b = false → lt b a = false → a = b

theorem strictTotal_lt {β : Type} [LinearOrder β] : StrictTotal fun a b : β => decide (a < b) :=
  ⟨fun a => by simp,
    fun a b c first second => by simp only [decide_eq_true_eq] at *; exact first.trans second,
    fun a b first second => by
      simp only [decide_eq_false_iff_not, not_lt] at *; exact le_antisymm second first⟩

section Order

variable {lt : α → α → Bool} (order : StrictTotal lt)

include order

theorem StrictTotal.nodup {v : List α} (sorted : v.Pairwise fun a b => lt a b = true) : v.Nodup :=
  sorted.imp fun {a b} below same => by simp [same, order.irrefl] at below

theorem StrictTotal.belowFirst {v : List α} (sorted : v.Pairwise fun a b => lt a b = true)
    (value : α) (k l : Nat) (hk : k < v.length) (hl : l < v.length) (le : k ≤ l)
    (below : lt v[l] value = true) : lt v[k] value = true := by
  rcases Nat.lt_or_eq_of_le le with before | rfl
  · exact order.trans _ _ _ (List.pairwise_iff_getElem.1 sorted k l hk hl before) below
  · exact below

theorem StrictTotal.eq_of_mem_iff {w w' : List α} (sorted : w.Pairwise fun a b => lt a b = true)
    (sorted' : w'.Pairwise fun a b => lt a b = true) (same : ∀ x, x ∈ w ↔ x ∈ w') : w = w' := by
  have : IsAntisymm α fun a b => lt a b = true := ⟨fun a b first second => by
    simpa [order.irrefl] using order.trans a b a first second⟩
  exact List.eq_of_perm_of_sorted
    ((List.perm_ext_iff_of_nodup (order.nodup sorted) (order.nodup sorted')).2 same) sorted sorted'

variable {v : List α} (sorted : v.Pairwise fun a b => lt a b = true) (e : α)

include sorted

theorem lowerBound_le_length : lowerBound v e lt ≤ v.length :=
  (lowerBound_spec (order.belowFirst sorted e)).1

theorem getElem?_lowerBound_eq_some_iff : v[lowerBound v e lt]? = some e ↔ e ∈ v := by
  have brackets := (lowerBound_spec (order.belowFirst sorted e)).2
  refine ⟨fun found => ?_, fun member => ?_⟩
  · obtain ⟨inside, atSlot⟩ := List.getElem?_eq_some_iff.1 found
    exact atSlot ▸ List.getElem_mem _
  obtain ⟨m, inside, atM⟩ := List.mem_iff_getElem.1 member
  -- `e` is not below itself, and an element below it would be below `e`
  have notBefore : lowerBound v e lt ≤ m := by
    by_contra before
    simpa [atM, order.irrefl] using (brackets m inside).1 (by omega)
  rcases Nat.lt_or_eq_of_le notBefore with after | same
  · have kInside : lowerBound v e lt < v.length := by omega
    have below := List.pairwise_iff_getElem.1 sorted _ m kInside inside after
    simp [atM, (brackets _ kInside).2 le_rfl] at below
  · rw [same, List.getElem?_eq_getElem inside, atM]

theorem around_lowerBound_of_not_mem (fresh : e ∉ v) :
    (∀ x ∈ v.take (lowerBound v e lt), lt x e = true) ∧
      ∀ x ∈ v.drop (lowerBound v e lt), lt e x = true := by
  have brackets := (lowerBound_spec (order.belowFirst sorted e)).2
  refine ⟨fun x member => ?_, fun x member => ?_⟩
  · obtain ⟨k, inside, rfl⟩ := List.mem_iff_getElem.1 member
    rw [List.getElem_take]
    exact (brackets k (by simp at inside; omega)).1 (by simp at inside; omega)
  · obtain ⟨k, inside, rfl⟩ := List.mem_iff_getElem.1 member
    rw [List.getElem_drop]
    have kInside : lowerBound v e lt + k < v.length := by simp at inside; omega
    have stays := (brackets _ kInside).2 (Nat.le_add_right _ k)
    cases above : lt e v[lowerBound v e lt + k]
    · exact absurd (List.getElem_mem _) ((order.eq_of_incomparable _ _ above stays).symm ▸ fresh)
    · rfl

theorem vectorInsertUniqueSorted_of_mem [DecidableEq α] (member : e ∈ v) :
    vectorInsertUniqueSorted v e lt = (v, false) := by
  have found := (getElem?_lowerBound_eq_some_iff order sorted e).2 member
  obtain ⟨inside, -⟩ := List.getElem?_eq_some_iff.1 found
  simp [vectorInsertUniqueSorted, found, inside.ne]

theorem vectorInsertUniqueSorted_of_not_mem [DecidableEq α] (fresh : e ∉ v) :
    vectorInsertUniqueSorted v e lt = (v.insertIdx (lowerBound v e lt) e, true) := by
  have missing := mt (getElem?_lowerBound_eq_some_iff order sorted e).1 fresh
  simp [vectorInsertUniqueSorted, missing]

theorem vectorEraseUniqueSorted_of_mem [DecidableEq α] (member : e ∈ v) :
    vectorEraseUniqueSorted v e lt = (v.erase e, true) := by
  have found := (getElem?_lowerBound_eq_some_iff order sorted e).2 member
  obtain ⟨inside, atSlot⟩ := List.getElem?_eq_some_iff.1 found
  have slot := List.indexOf_getElem (order.nodup sorted) _ inside
  rw [atSlot] at slot
  have erased : vectorEraseUniqueSorted v e lt = (v.eraseIdx (lowerBound v e lt), true) := by
    simp [vectorEraseUniqueSorted, found, inside.ne, dropLast_swapToBack v _ inside]
  rw [erased, ← slot, List.eraseIdx_indexOf_eq_erase]

theorem vectorEraseUniqueSorted_of_not_mem [DecidableEq α] (fresh : e ∉ v) :
    vectorEraseUniqueSorted v e lt = (v, false) := by
  have missing := mt (getElem?_lowerBound_eq_some_iff order sorted e).1 fresh
  simp [vectorEraseUniqueSorted, missing]

theorem binarySearch_eq [DecidableEq α] :
    binarySearch v e lt = if e ∈ v then v.indexOf e else v.length := by
  split
  · next member =>
    obtain ⟨inside, atSlot⟩ :=
      List.getElem?_eq_some_iff.1 ((getElem?_lowerBound_eq_some_iff order sorted e).2 member)
    have slot := List.indexOf_getElem (order.nodup sorted) _ inside
    rw [atSlot] at slot
    simp [binarySearch, inside.ne, List.getElem?_eq_getElem inside, atSlot, order.irrefl, slot]
  · next fresh =>
    by_cases inside : lowerBound v e lt < v.length
    · have above := (around_lowerBound_of_not_mem order sorted e fresh).2 v[lowerBound v e lt]
        (by rw [List.drop_eq_getElem_cons inside]; exact List.mem_cons_self _ _)
      simp [binarySearch, inside.ne, List.getElem?_eq_getElem inside, above]
    · have atEnd : lowerBound v e lt = v.length :=
        Nat.le_antisymm (lowerBound_le_length order sorted e) (Nat.le_of_not_lt inside)
      simp [binarySearch, atEnd]

theorem pairwise_insertIdx_lowerBound (fresh : e ∉ v) :
    (v.insertIdx (lowerBound v e lt) e).Pairwise fun a b => lt a b = true := by
  obtain ⟨below, above⟩ := around_lowerBound_of_not_mem order sorted e fresh
  have split : (v.take (lowerBound v e lt) ++ v.drop (lowerBound v e lt)).Pairwise
      fun a b => lt a b = true := by
    rw [List.take_append_drop]; exact sorted
  obtain ⟨front, back, across⟩ := List.pairwise_append.1 split
  rw [insertIdx_eq_take_cons_drop v _ e (lowerBound_le_length order sorted e), List.pairwise_append]
  refine ⟨front, List.Pairwise.cons above back, fun x early y later => ?_⟩
  rcases List.mem_cons.1 later with rfl | later
  · exact below x early
  · exact across x early y later

theorem erase_insertIdx_lowerBound [DecidableEq α] (fresh : e ∉ v) :
    (v.insertIdx (lowerBound v e lt) e).erase e = v := by
  have inserted := pairwise_insertIdx_lowerBound order sorted e fresh
  refine order.eq_of_mem_iff (inserted.sublist (List.erase_sublist _ _)) sorted fun x => ?_
  rw [(order.nodup inserted).mem_erase_iff, List.mem_insertIdx (lowerBound_le_length order sorted e)]
  by_cases same : x = e
  · simp [same, fresh]
  · simp [same]

theorem insertIdx_lowerBound_erase [DecidableEq α] (member : e ∈ v) :
    (v.erase e).insertIdx (lowerBound (v.erase e) e lt) e = v := by
  have erased := sorted.sublist (List.erase_sublist e v)
  have gone : e ∉ v.erase e := by simp [(order.nodup sorted).mem_erase_iff]
  refine order.eq_of_mem_iff (pairwise_insertIdx_lowerBound order erased e gone) sorted fun x => ?_
  rw [List.mem_insertIdx (lowerBound_le_length order erased e), (order.nodup sorted).mem_erase_iff]
  by_cases same : x = e
  · simp [same, member]
  · simp [same]

end Order

/-! ### `VectorInsertSorted` is stable insertion -/

/-- `VectorInsertSorted(vec, item, pred)`, on a vector in which no element is below an earlier one
under a strict weak order `pred`, is `List.orderedInsert`: the item goes after every element it
is not below, in the first slot whose element it is below. -/
theorem vectorInsertSorted_eq_orderedInsert {lt : α → α → Bool}
    (weak : ∀ a b c, lt a b = true → lt a c = true ∨ lt c b = true) {vec : List α}
    (sorted : vec.Pairwise fun a b => lt b a = false) (item : α) :
    vectorInsertSorted vec item lt =
      (vec.orderedInsert (fun a b => lt a b = true) item, vec.findIdx (lt item ·)) := by
  have belowFirst : ∀ k l (hk : k < vec.length) (hl : l < vec.length), k ≤ l →
      (!lt item vec[l]) = true → (!lt item vec[k]) = true := by
    intro k l hk hl early notAbove
    rcases Nat.lt_or_eq_of_le early with before | rfl
    · have unordered := List.pairwise_iff_getElem.1 sorted k l hk hl before
      cases above : lt item vec[k]
      · rfl
      · rcases weak _ _ vec[l] above with h | h <;> simp_all
    · exact notAbove
  have slot : upperBound vec item lt = vec.findIdx (lt item ·) :=
    (lowerBound_eq_findIdx belowFirst).trans (by simp only [Bool.not_not])
  rw [vectorInsertSorted, slot, List.orderedInsert_eq_take_drop,
    List.takeWhile_eq_take_findIdx_not, List.dropWhile_eq_drop_findIdx_not,
    insertIdx_eq_take_cons_drop _ _ _ (List.findIdx_le_length _)]
  simp

theorem vectorInsertSorted_eq_orderedInsert_three :
    (∀ a b c : Int, decide (a < b) = true → decide (a < c) = true ∨ decide (c < b) = true) ∧
      ([1, 3, 5] : List Int).Pairwise (fun a b => decide (b < a) = false) ∧
      vectorInsertSorted [1, 3, 5] 3 (fun a b : Int => decide (a < b)) =
        (([1, 3, 5] : List Int).orderedInsert (fun a b => decide (a < b) = true) 3,
          ([1, 3, 5] : List Int).findIdx fun b => decide (3 < b)) :=
  have weak : ∀ a b c : Int, decide (a < b) = true → decide (a < c) = true ∨ decide (c < b) = true :=
    fun a b c below => by
      simpa using (lt_or_le a c).imp_right fun after => after.trans_lt (by simpa using below)
  have sorted : ([1, 3, 5] : List Int).Pairwise (fun a b => decide (b < a) = false) := by decide
  ⟨weak, sorted, vectorInsertSorted_eq_orderedInsert weak sorted 3⟩

theorem binarySearchOfLt_eq {β : Type} [LinearOrder β] {v : List β} (sorted : v.Pairwise (· < ·))
    (e : β) : binarySearchOfLt v e = if e ∈ v then v.indexOf e else v.length :=
  binarySearch_eq strictTotal_lt (by simpa using sorted) e

/-- On a vector strictly increasing under a strict weak order `lt` whose incomparability is
equality: `VectorInsertUniqueSorted(v, e, lt)` returns true exactly when `e` is not in `v`, and
leaves `v` strictly increasing with the elements of `v` and `e`; `VectorEraseUniqueSorted(v, e,
lt)` returns true exactly when `e` is in `v`, and leaves `v` strictly increasing with the
elements of `v` but `e`; `BinarySearch` returns the slot of `e` when `v` holds it and `v.end()`
otherwise; and erasing a newly inserted element, or inserting again an erased one, gives `v`
back. -/
theorem sortedVector_insert_erase_search [DecidableEq α] (lt : α → α → Bool)
    (order : StrictTotal lt) (v : List α) (sorted : v.Pairwise fun a b => lt a b = true) (e : α) :
    ((vectorInsertUniqueSorted v e lt).2 = true ↔ e ∉ v) ∧
      (vectorInsertUniqueSorted v e lt).1.Pairwise (fun a b => lt a b = true) ∧
      (∀ x, x ∈ (vectorInsertUniqueSorted v e lt).1 ↔ x ∈ v ∨ x = e) ∧
      ((vectorEraseUniqueSorted v e lt).2 = true ↔ e ∈ v) ∧
      (vectorEraseUniqueSorted v e lt).1.Pairwise (fun a b => lt a b = true) ∧
      (∀ x, x ∈ (vectorEraseUniqueSorted v e lt).1 ↔ x ∈ v ∧ x ≠ e) ∧
      binarySearch v e lt = (if e ∈ v then v.indexOf e else v.length) ∧
      (e ∉ v → vectorEraseUniqueSorted (vectorInsertUniqueSorted v e lt).1 e lt = (v, true)) ∧
      (e ∈ v → vectorInsertUniqueSorted (vectorEraseUniqueSorted v e lt).1 e lt = (v, true)) := by
  have nodup := order.nodup sorted
  by_cases member : e ∈ v
  · have erasedSorted := sorted.sublist (List.erase_sublist e v)
    have gone : e ∉ v.erase e := by simp [nodup.mem_erase_iff]
    rw [vectorInsertUniqueSorted_of_mem order sorted e member,
      vectorEraseUniqueSorted_of_mem order sorted e member,
      vectorInsertUniqueSorted_of_not_mem order erasedSorted e gone,
      insertIdx_lowerBound_erase order sorted e member]
    exact ⟨by simpa using member, sorted, fun x => ⟨Or.inl, (·.elim id (· ▸ member))⟩,
      by simpa using member, erasedSorted, fun x => by rw [nodup.mem_erase_iff, and_comm],
      binarySearch_eq order sorted e, (absurd member ·), fun _ => rfl⟩
  · have insertedSorted := pairwise_insertIdx_lowerBound order sorted e member
    have inserted : e ∈ v.insertIdx (lowerBound v e lt) e :=
      (List.mem_insertIdx (lowerBound_le_length order sorted e)).2 (Or.inl rfl)
    rw [vectorInsertUniqueSorted_of_not_mem order sorted e member,
      vectorEraseUniqueSorted_of_not_mem order sorted e member,
      vectorEraseUniqueSorted_of_mem order insertedSorted e inserted,
      erase_insertIdx_lowerBound order sorted e member]
    exact ⟨by simpa using member, insertedSorted,
      fun x => by rw [List.mem_insertIdx (lowerBound_le_length order sorted e), or_comm],
      by simpa using member, sorted, fun x => ⟨fun kept => ⟨kept, fun same => member (same ▸ kept)⟩,
      And.left⟩, binarySearch_eq order sorted e, fun _ => rfl, (absurd · member)⟩

theorem sortedVector_insert_erase_search_four :
    StrictTotal (fun a b : Int => decide (a < b)) ∧
      ([1, 3, 5] : List Int).Pairwise (fun a b => decide (a < b) = true) ∧
      (((vectorInsertUniqueSorted [1, 3, 5] 4 fun a b : Int => decide (a < b)).2 = true ↔
          (4 : Int) ∉ ([1, 3, 5] : List Int)) ∧
        (vectorInsertUniqueSorted [1, 3, 5] 4 fun a b : Int => decide (a < b)).1.Pairwise
          (fun a b => decide (a < b) = true) ∧
        (∀ x, x ∈ (vectorInsertUniqueSorted [1, 3, 5] 4 fun a b : Int => decide (a < b)).1 ↔
          x ∈ ([1, 3, 5] : List Int) ∨ x = 4) ∧
        ((vectorEraseUniqueSorted [1, 3, 5] 4 fun a b : Int => decide (a < b)).2 = true ↔
          (4 : Int) ∈ ([1, 3, 5] : List Int)) ∧
        (vectorEraseUniqueSorted [1, 3, 5] 4 fun a b : Int => decide (a < b)).1.Pairwise
          (fun a b => decide (a < b) = true) ∧
        (∀ x, x ∈ (vectorEraseUniqueSorted [1, 3, 5] 4 fun a b : Int => decide (a < b)).1 ↔
          x ∈ ([1, 3, 5] : List Int) ∧ x ≠ 4) ∧
        binarySearch [1, 3, 5] 4 (fun a b : Int => decide (a < b)) =
          (if (4 : Int) ∈ ([1, 3, 5] : List Int) then ([1, 3, 5] : List Int).indexOf 4 else 3) ∧
        ((4 : Int) ∉ ([1, 3, 5] : List Int) → vectorEraseUniqueSorted
          (vectorInsertUniqueSorted [1, 3, 5] 4 fun a b : Int => decide (a < b)).1 4
            (fun a b : Int => decide (a < b)) = ([1, 3, 5], true)) ∧
        ((4 : Int) ∈ ([1, 3, 5] : List Int) → vectorInsertUniqueSorted
          (vectorEraseUniqueSorted [1, 3, 5] 4 fun a b : Int => decide (a < b)).1 4
            (fun a b : Int => decide (a < b)) = ([1, 3, 5], true))) :=
  ⟨strictTotal_lt, by decide,
    sortedVector_insert_erase_search (fun a b : Int => decide (a < b)) strictTotal_lt [1, 3, 5]
      (by decide) 4⟩

/-! ### `VectorSortUnique` builds the strictly increasing vector at once -/

theorem perm_stdSort (v : List α) (comp : α → α → Bool) : stdSort v comp ~ v :=
  List.mergeSort_perm _ _

section SortUnique

variable {lt : α → α → Bool} (order : StrictTotal lt)

include order

theorem StrictTotal.asymm {a b : α} (below : lt a b = true) : lt b a = false := by
  cases above : lt b a
  · rfl
  · simpa [order.irrefl] using order.trans _ _ _ below above

theorem StrictTotal.lt_of_ne {a b : α} (notAbove : lt b a = false) (ne : a ≠ b) :
    lt a b = true := by
  cases below : lt a b
  · exact absurd (order.eq_of_incomparable _ _ below notAbove) ne
  · rfl

theorem sorted_stdSort (v : List α) : (stdSort v lt).Pairwise fun a b => lt b a = false := by
  have sorted : (stdSort v lt).Pairwise fun a b => (!lt b a) = true :=
    List.sorted_mergeSort (fun a b c first second => ?_) (fun a b => ?_) v
  · simpa using sorted
  · simp only [Bool.not_eq_true'] at first second ⊢
    cases below : lt c a
    · rfl
    · by_cases same : a = b
      · subst same
        simp [below] at second
      · simp [order.trans _ _ _ below (order.lt_of_ne first same)] at second
  · cases above : lt b a
    · rfl
    · simp [order.asymm above]

theorem eq_stdSort_of_perm {v w : List α} (perm : w ~ v)
    (sorted : w.Pairwise fun a b => lt b a = false) : w = stdSort v lt := by
  have : IsAntisymm α fun a b => lt b a = false :=
    ⟨fun a b first second => order.eq_of_incomparable a b second first⟩
  exact List.eq_of_perm_of_sorted (perm.trans (perm_stdSort v lt).symm) sorted
    (sorted_stdSort order v)

theorem uniqueFrom_spec [DecidableEq α] (kept : α) (rest : List α)
    (sorted : (kept :: rest).Pairwise fun a b => lt b a = false) :
    (uniqueFrom (· == ·) kept rest).Pairwise (fun a b => lt a b = true) ∧
      ∀ x, x ∈ uniqueFrom (· == ·) kept rest ↔ x ∈ kept :: rest := by
  induction rest generalizing kept with
  | nil => simp [uniqueFrom]
  | cons next rest ih =>
    obtain ⟨keptFirst, restSorted⟩ := List.pairwise_cons.1 sorted
    by_cases same : kept = next
    · subst same
      obtain ⟨strict, members⟩ := ih kept (List.pairwise_cons.2
        ⟨fun y member => keptFirst y (List.mem_cons_of_mem _ member), (List.pairwise_cons.1 restSorted).2⟩)
      rw [uniqueFrom, if_pos (beq_self_eq_true kept)]
      exact ⟨strict, fun x => by rw [members]; simp⟩
    · obtain ⟨strict, members⟩ := ih next restSorted
      rw [uniqueFrom, if_neg (by simpa using same)]
      refine ⟨List.pairwise_cons.2 ⟨fun y member => ?_, strict⟩, fun x => by rw [List.mem_cons, members, ← List.mem_cons]⟩
      refine order.lt_of_ne (keptFirst y ((members y).1 member)) fun again => same ?_
      -- `kept` met again after `next` sits between two elements not below it
      rcases List.mem_cons.1 ((members y).1 member) with rfl | later
      · exact again
      · exact order.eq_of_incomparable _ _ ((List.pairwise_cons.1 restSorted).1 _ (again ▸ later))
          (keptFirst next (List.mem_cons_self _ _))

theorem unique_spec [DecidableEq α] {w : List α} (sorted : w.Pairwise fun a b => lt b a = false) :
    (unique w (· == ·)).Pairwise (fun a b => lt a b = true) ∧ ∀ x, x ∈ unique w (· == ·) ↔ x ∈ w := by
  cases w with
  | nil => simp [unique]
  | cons first rest => exact uniqueFrom_spec order first rest sorted

theorem foldl_vectorInsertUniqueSorted [DecidableEq α] (l : List α) {w : List α}
    (sorted : w.Pairwise fun a b => lt a b = true) :
    (l.foldl (fun w e => (vectorInsertUniqueSorted w e lt).1) w).Pairwise
        (fun a b => lt a b = true) ∧
      ∀ x, x ∈ l.foldl (fun w e => (vectorInsertUniqueSorted w e lt).1) w ↔ x ∈ w ∨ x ∈ l := by
  induction l generalizing w with
  | nil => simp [sorted]
  | cons e rest ih =>
    rw [List.foldl_cons]
    by_cases member : e ∈ w
    · rw [vectorInsertUniqueSorted_of_mem order sorted e member]
      obtain ⟨strict, members⟩ := ih sorted
      refine ⟨strict, fun x => ?_⟩
      rw [members, List.mem_cons]
      by_cases same : x = e
      · simp [same, member]
      · simp [same]
    · rw [vectorInsertUniqueSorted_of_not_mem order sorted e member]
      obtain ⟨strict, members⟩ := ih (pairwise_insertIdx_lowerBound order sorted e member)
      refine ⟨strict, fun x => ?_⟩
      rw [members, List.mem_insertIdx (lowerBound_le_length order sorted e), List.mem_cons]
      exact or_assoc.trans or_left_comm

end SortUnique

/-- Under a strict weak order `lt` whose incomparability is equality, `VectorSortUnique(v, lt)`
leaves the strictly increasing vector of the elements of `v`: the vector that inserting them one
by one with `VectorInsertUniqueSorted` into an empty vector builds. -/
theorem vectorSortUnique_eq_insertions [DecidableEq α] (lt : α → α → Bool)
    (order : StrictTotal lt) (v : List α) :
    (vectorSortUniqueOfEq v lt).Pairwise (fun a b => lt a b = true) ∧
      (∀ x, x ∈ vectorSortUniqueOfEq v lt ↔ x ∈ v) ∧
      vectorSortUniqueOfEq v lt = v.foldl (fun w e => (vectorInsertUniqueSorted w e lt).1) [] := by
  obtain ⟨strict, members⟩ := unique_spec order (sorted_stdSort order v)
  have same : ∀ x, x ∈ vectorSortUniqueOfEq v lt ↔ x ∈ v :=
    fun x => (members x).trans (perm_stdSort v lt).mem_iff
  obtain ⟨strict', members'⟩ := foldl_vectorInsertUniqueSorted order v List.Pairwise.nil
  exact ⟨strict, same, order.eq_of_mem_iff strict strict' fun x => by simp [same, members']⟩

theorem vectorSortUnique_eq_insertions_on_repeats :
    StrictTotal (fun a b : Int => decide (a < b)) ∧
      ((vectorSortUniqueOfEq [3, 1, 3, 2] fun a b : Int => decide (a < b)).Pairwise
          (fun a b => decide (a < b) = true) ∧
        (∀ x, x ∈ (vectorSortUniqueOfEq [3, 1, 3, 2] fun a b : Int => decide (a < b)) ↔
          x ∈ ([3, 1, 3, 2] : List Int)) ∧
        (vectorSortUniqueOfEq [3, 1, 3, 2] fun a b : Int => decide (a < b)) =
          ([3, 1, 3, 2] : List Int).foldl
            (fun w e => (vectorInsertUniqueSorted w e fun a b : Int => decide (a < b)).1) []) :=
  ⟨strictTotal_lt, vectorSortUnique_eq_insertions _ strictTotal_lt [3, 1, 3, 2]⟩

end RecoilKeyBindings.SortedVector
