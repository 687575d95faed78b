import Mathlib.Data.List.Nodup
import Mathlib.Data.List.Perm.Basic

/-!
# The unordered maps of `CKeyBindings`

`spring::unordered_map` as a list of entries with pairwise distinct keys. The order of the
entries stands for one enumeration order of the hash map; results that must not depend on it
are stated through `find?` or over every permutation of the entries.
-/

namespace RecoilKeyBindings.Maps

set_option autoImplicit false

/-- A finite map whose keys are pairwise distinct by construction. -/
structure UnorderedMap (κ ν : Type) where
  entries : List (κ × ν)
  keysNodup : (entries.map Prod.fst).Nodup

namespace UnorderedMap

open List (Perm)
open scoped List

variable {κ ν : Type}

def empty : UnorderedMap κ ν := ⟨[], List.nodup_nil⟩

@[simp] theorem entries_empty : (empty : UnorderedMap κ ν).entries = [] := rfl

def values (map : UnorderedMap κ ν) : List ν := map.entries.map Prod.snd

theorem value_unique {map : UnorderedMap κ ν} {k : κ} {v w : ν}
    (first : (k, v) ∈ map.entries) (second : (k, w) ∈ map.entries) : v = w :=
  congrArg Prod.snd (List.inj_on_of_nodup_map map.keysNodup first second rfl)

private theorem keys_filterMap_sublist (f : κ → ν → Option ν) (entries : List (κ × ν)) :
    ((entries.filterMap fun e => (f e.1 e.2).map (e.1, ·)).map Prod.fst).Sublist
      (entries.map Prod.fst) := by
  induction entries with
  | nil => simp
  | cons e rest induction =>
      cases rewritten : f e.1 e.2 <;> simp [List.filterMap_cons, rewritten, induction]

/-- One pass over the map that rewrites every value, erasing the entries mapped to `none`. -/
def updateAll (map : UnorderedMap κ ν) (f : κ → ν → Option ν) : UnorderedMap κ ν :=
  ⟨map.entries.filterMap fun e => (f e.1 e.2).map (e.1, ·),
    (keys_filterMap_sublist f map.entries).nodup map.keysNodup⟩

/-- `MapEraseIf(c, p)`: the loop that erases every entry `p` holds of and steps past the
others, as the pass of `updateAll` that drops those entries. -/
def mapEraseIf (map : UnorderedMap κ ν) (p : κ × ν → Bool) : UnorderedMap κ ν :=
  map.updateAll fun k v => if p (k, v) then none else some v

theorem mem_updateAll (map : UnorderedMap κ ν) (f : κ → ν → Option ν) (k : κ) (v' : ν) :
    (k, v') ∈ (map.updateAll f).entries ↔ ∃ v, (k, v) ∈ map.entries ∧ f k v = some v' := by
  simp only [updateAll, List.mem_filterMap, Option.map_eq_some', Prod.mk.injEq]
  constructor
  · rintro ⟨⟨k₀, v⟩, member, w, rewritten, rfl, rfl⟩
    exact ⟨v, member, rewritten⟩
  · rintro ⟨v, member, rewritten⟩
    exact ⟨(k, v), member, v', rewritten, rfl, rfl⟩

theorem ext_entries {left right : UnorderedMap κ ν} (same : left.entries = right.entries) :
    left = right := by
  cases left; cases right; cases same; rfl

section ListValues

variable {α : Type}

def flatValues (map : UnorderedMap κ (List α)) : List α := map.entries.flatMap Prod.snd

@[simp] theorem flatValues_empty : (empty : UnorderedMap κ (List α)).flatValues = [] := rfl

theorem mem_flatValues (map : UnorderedMap κ (List α)) (x : α) :
    x ∈ map.flatValues ↔ ∃ k v, (k, v) ∈ map.entries ∧ x ∈ v := by
  simp [flatValues]

private theorem flatMap_sublist_of_sublist {β : Type} {smaller larger : List β}
    (f : β → List α) (sublist : smaller.Sublist larger) :
    (smaller.flatMap f).Sublist (larger.flatMap f) := by
  induction sublist with
  | slnil => simp
  | cons a _ induction => simpa using induction.trans (List.sublist_append_right (f a) _)
  | cons₂ a _ induction => simpa using induction.append_left (f a)

private theorem flatMap_sublist_of_pointwise (entries : List (κ × List α))
    (g : κ × List α → List α) (smaller : ∀ e ∈ entries, (g e).Sublist e.2) :
    (entries.flatMap g).Sublist (entries.flatMap Prod.snd) := by
  induction entries with
  | nil => simp
  | cons e rest induction =>
      simp only [List.flatMap_cons]
      exact (smaller e (by simp)).append (induction fun e' member => smaller e' (by simp [member]))

theorem flatValues_updateAll_sublist (map : UnorderedMap κ (List α))
    (f : κ → List α → Option (List α)) (smaller : ∀ k v v', f k v = some v' → v'.Sublist v) :
    (map.updateAll f).flatValues.Sublist map.flatValues := by
  obtain ⟨entries, keysNodup⟩ := map
  simp only [flatValues, updateAll]
  clear keysNodup
  induction entries with
  | nil => simp
  | cons e rest induction =>
      cases rewritten : f e.1 e.2 with
      | none => simpa [List.filterMap_cons, rewritten] using induction.trans (by simp)
      | some v' =>
          simp only [List.filterMap_cons, rewritten, Option.map_some', List.flatMap_cons]
          exact (smaller _ _ _ rewritten).append induction

private theorem entries_split (map : UnorderedMap κ (List α)) {k : κ} {w : List α}
    (member : (k, w) ∈ map.entries) :
    ∃ pre post, map.entries = pre ++ (k, w) :: post ∧
      (∀ e ∈ pre, e.1 ≠ k) ∧ ∀ e ∈ post, e.1 ≠ k := by
  obtain ⟨pre, post, split⟩ := List.append_of_mem member
  have keys := map.keysNodup
  rw [split, List.map_append, List.map_cons, List.nodup_append, List.nodup_cons] at keys
  refine ⟨pre, post, split, fun e inPre same => ?_, fun e inPost same => ?_⟩
  · exact keys.2.2 (List.mem_map.2 ⟨e, inPre, same⟩) (List.mem_cons_self _ _)
  · exact keys.2.1.1 (same ▸ List.mem_map.2 ⟨e, inPost, rfl⟩)

end ListValues

theorem updateAll_of_forall (map : UnorderedMap κ ν) (f : κ → ν → Option ν)
    (keeps : ∀ k v, (k, v) ∈ map.entries → f k v = some v) : map.updateAll f = map := by
  refine ext_entries ?_
  simp only [updateAll]
  conv_rhs => rw [← List.filterMap_some map.entries]
  exact List.filterMap_congr fun e member => by simp [keeps e.1 e.2 member]

variable [DecidableEq κ]

instance [DecidableEq ν] : DecidableEq (UnorderedMap κ ν) := fun left right =>
  decidable_of_iff (left.entries = right.entries) (by cases left; cases right; simp)

def find? (map : UnorderedMap κ ν) (k : κ) : Option ν :=
  (map.entries.find? (·.1 = k)).map Prod.snd

/-- `map[k] = v`: the entry of `k` is replaced in place, or a new entry is added. -/
def set (map : UnorderedMap κ ν) (k : κ) (v : ν) : UnorderedMap κ ν :=
  if present : k ∈ map.entries.map Prod.fst then
    ⟨map.entries.map (fun e => if e.1 = k then (k, v) else e), by
      rw [List.map_map]
      convert map.keysNodup using 2
      funext e
      by_cases same : e.1 = k <;> simp [same]⟩
  else
    ⟨map.entries ++ [(k, v)], by
      simpa [List.nodup_append] using And.intro map.keysNodup present⟩

def erase (map : UnorderedMap κ ν) (k : κ) : UnorderedMap κ ν :=
  ⟨map.entries.filter (·.1 ≠ k), ((List.filter_sublist _).map Prod.fst).nodup map.keysNodup⟩

theorem find?_eq_some_iff (map : UnorderedMap κ ν) (k : κ) (v : ν) :
    map.find? k = some v ↔ (k, v) ∈ map.entries := by
  have keyOf : ∀ {e}, map.entries.find? (fun e => decide (e.1 = k)) = some e → e.1 = k :=
    fun found => by simpa using List.find?_some found
  simp only [find?, Option.map_eq_some']
  constructor
  · rintro ⟨e, found, rfl⟩
    exact keyOf found ▸ List.mem_of_find?_eq_some found
  · intro member
    obtain ⟨e, found⟩ := Option.isSome_iff_exists.1
      (List.find?_isSome (p := fun e => decide (e.1 = k)) |>.2 ⟨(k, v), member, by simp⟩)
    exact ⟨e, found, value_unique (keyOf found ▸ List.mem_of_find?_eq_some found) member⟩

theorem find?_eq_none_iff (map : UnorderedMap κ ν) (k : κ) :
    map.find? k = none ↔ ∀ v, (k, v) ∉ map.entries := by
  simp only [find?, Option.map_eq_none', List.find?_eq_none, decide_eq_true_eq]
  exact ⟨fun absent v member => absent _ member rfl,
    fun absent e member same => absent e.2 (same ▸ member)⟩

theorem find?_eq_of_mem_iff {left right : UnorderedMap κ ν} {k : κ}
    (same : ∀ v, (k, v) ∈ left.entries ↔ (k, v) ∈ right.entries) :
    left.find? k = right.find? k :=
  Option.ext fun v => by
    simp only [Option.mem_def, find?_eq_some_iff, same]

theorem find?_getD_of_forall (map : UnorderedMap κ ν) (k : κ) (default : ν) (P : ν → Prop)
    (onDefault : P default) (onEntry : ∀ v, (k, v) ∈ map.entries → P v) :
    P ((map.find? k).getD default) := by
  cases found : map.find? k with
  | none => exact onDefault
  | some v => exact onEntry v ((find?_eq_some_iff map k v).1 found)

@[simp] theorem find?_empty (k : κ) : (empty : UnorderedMap κ ν).find? k = none := rfl

theorem mem_set (map : UnorderedMap κ ν) (k k' : κ) (v v' : ν) :
    (k', v') ∈ (map.set k v).entries ↔ (k' = k ∧ v' = v) ∨ (k' ≠ k ∧ (k', v') ∈ map.entries) := by
  unfold set
  split
  · case isTrue present =>
      obtain ⟨w, member⟩ : ∃ w, (k, w) ∈ map.entries := by simpa using present
      simp only [List.mem_map]
      constructor
      · rintro ⟨e, member, eq⟩
        by_cases same : e.1 = k
        · simp only [same, if_true, Prod.mk.injEq] at eq
          exact .inl ⟨eq.1.symm, eq.2.symm⟩
        · simp only [same, if_false] at eq
          subst eq
          exact .inr ⟨same, member⟩
      · rintro (⟨rfl, rfl⟩ | ⟨other, member⟩)
        · exact ⟨_, member, by simp⟩
        · exact ⟨_, member, by simp [other]⟩
  · case isFalse absent =>
      simp only [List.mem_append, List.mem_singleton, Prod.mk.injEq]
      constructor
      · rintro (member | eq)
        · exact .inr ⟨fun same => absent (List.mem_map.2 ⟨_, member, same⟩), member⟩
        · exact .inl eq
      · rintro (eq | ⟨-, member⟩)
        · exact .inr eq
        · exact .inl member

@[simp] theorem find?_set (map : UnorderedMap κ ν) (k k' : κ) (v : ν) :
    (map.set k v).find? k' = if k' = k then some v else map.find? k' := by
  refine Option.ext fun w => ?_
  simp only [Option.mem_def, find?_eq_some_iff, mem_set]
  by_cases same : k' = k
  · simp [same, eq_comm]
  · simp [same, find?_eq_some_iff]

theorem set_of_mem (map : UnorderedMap κ ν) (k : κ) (v : ν) (member : (k, v) ∈ map.entries) :
    map.set k v = map := by
  have present : k ∈ map.entries.map Prod.fst := List.mem_map.2 ⟨_, member, rfl⟩
  refine ext_entries ?_
  simp only [set, dif_pos present]
  refine (List.map_congr_left fun e inEntries => ?_).trans (List.map_id _)
  by_cases same : e.1 = k
  · have eValue : e.2 = v := value_unique (same ▸ inEntries) member
    simpa [same] using Prod.ext same.symm eValue.symm
  · simp [same]

theorem mem_erase (map : UnorderedMap κ ν) (k k' : κ) (v : ν) :
    (k', v) ∈ (map.erase k).entries ↔ k' ≠ k ∧ (k', v) ∈ map.entries := by
  simp [erase, and_comm]

@[simp] theorem find?_erase (map : UnorderedMap κ ν) (k k' : κ) :
    (map.erase k).find? k' = if k' = k then none else map.find? k' := by
  refine Option.ext fun w => ?_
  simp only [Option.mem_def, find?_eq_some_iff, mem_erase]
  by_cases same : k' = k <;> simp [same, find?_eq_some_iff]

@[simp] theorem find?_updateAll (map : UnorderedMap κ ν) (f : κ → ν → Option ν) (k : κ) :
    (map.updateAll f).find? k = (map.find? k).bind (f k) := by
  refine Option.ext fun w => ?_
  simp only [Option.mem_def, find?_eq_some_iff, mem_updateAll, Option.bind_eq_some]

@[simp] theorem find?_mapEraseIf (map : UnorderedMap κ ν) (p : κ × ν → Bool) (k : κ) :
    (map.mapEraseIf p).find? k = (map.find? k).filter fun v => !p (k, v) := by
  rw [mapEraseIf, find?_updateAll]
  cases map.find? k with
  | none => rfl
  | some v => by_cases erased : p (k, v) <;> simp [erased, Option.filter]

section ListValues

variable {α : Type}

theorem flatValues_set_of_not_mem (map : UnorderedMap κ (List α)) (k : κ) (v : List α)
    (absent : k ∉ map.entries.map Prod.fst) :
    (map.set k v).flatValues = map.flatValues ++ v := by
  simp [set, absent, flatValues]

private theorem map_set_of_ne (entries : List (κ × List α)) (k : κ) (v : List α)
    (other : ∀ e ∈ entries, e.1 ≠ k) :
    entries.map (fun e => if e.1 = k then (k, v) else e) = entries :=
  (List.map_congr_left fun e member => by simp [other e member]).trans (List.map_id entries)

theorem flatValues_set_perm (map : UnorderedMap κ (List α)) (k : κ) (v w : List α)
    (member : (k, w) ∈ map.entries) :
    ((map.set k v).flatValues ++ w).Perm (map.flatValues ++ v) := by
  obtain ⟨pre, post, split, beforeK, afterK⟩ := entries_split map member
  have present : k ∈ map.entries.map Prod.fst := List.mem_map.2 ⟨_, member, rfl⟩
  have setEntries : (map.set k v).entries = pre ++ (k, v) :: post := by
    simp only [set, dif_pos present]
    rw [split, List.map_append, List.map_cons, map_set_of_ne pre k v beforeK,
      map_set_of_ne post k v afterK, if_pos rfl]
  simp only [flatValues, setEntries, split, List.flatMap_append, List.flatMap_cons,
    List.append_assoc]
  refine List.Perm.append_left _ ?_
  calc v ++ (post.flatMap Prod.snd ++ w)
      _ ~ (post.flatMap Prod.snd ++ w) ++ v := List.perm_append_comm
      _ ~ (w ++ post.flatMap Prod.snd) ++ v := List.perm_append_comm.append_right v
      _ = w ++ (post.flatMap Prod.snd ++ v) := List.append_assoc _ _ _

theorem flatValues_set_append_perm (map : UnorderedMap κ (List α)) (k : κ) (extra : List α) :
    (map.set k ((map.find? k).getD [] ++ extra)).flatValues.Perm (map.flatValues ++ extra) := by
  cases found : map.find? k with
  | none =>
      rw [find?_eq_none_iff] at found
      rw [Option.getD_none, List.nil_append, flatValues_set_of_not_mem]
      intro present
      obtain ⟨⟨_, w⟩, member, rfl⟩ := List.mem_map.1 present
      exact found w member
  | some w =>
      rw [find?_eq_some_iff] at found
      rw [Option.getD_some, ← List.perm_append_right_iff w]
      calc (map.set k (w ++ extra)).flatValues ++ w
          _ ~ map.flatValues ++ (w ++ extra) := flatValues_set_perm map k (w ++ extra) w found
          _ ~ map.flatValues ++ (extra ++ w) := List.perm_append_comm.append_left _
          _ = map.flatValues ++ extra ++ w := (List.append_assoc _ _ _).symm

theorem flatValues_set_sublist (map : UnorderedMap κ (List α)) (k : κ) (v w : List α)
    (member : (k, w) ∈ map.entries) (smaller : v.Sublist w) :
    (map.set k v).flatValues.Sublist map.flatValues := by
  have present : k ∈ map.entries.map Prod.fst := List.mem_map.2 ⟨_, member, rfl⟩
  simp only [flatValues, set, present, dif_pos, List.flatMap_map]
  refine flatMap_sublist_of_pointwise _ _ fun e inEntries => ?_
  by_cases same : e.1 = k
  · have eValue : e.2 = w := value_unique (same ▸ inEntries) member
    simpa [same, eValue] using smaller
  · simp [same]

theorem flatValues_erase_sublist (map : UnorderedMap κ (List α)) (k : κ) :
    (map.erase k).flatValues.Sublist map.flatValues :=
  flatMap_sublist_of_sublist _ (List.filter_sublist _)

end ListValues

end UnorderedMap

end RecoilKeyBindings.Maps
