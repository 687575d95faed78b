import Mathlib.Data.List.Sort
import RecoilKeyBindings.MutatorLaws
import RecoilKeyBindings.TriggerMerge

/-!
# Resolving key presses to bindings

The `GetKeyBindingList` overloads: the list stored under one key set, the bindings a live
chain triggers, the merged bindings of a key-code chain and a scan-code chain (what a key
press resolves to), and every binding of the store in binding order (what `FileSave` and
`BuildHotkeyMap` read). The debug logging of the two-chain overload is not modelled.

For a reachable store, a key press resolves to the exact-trigger bindings of both chains
merged by `MergeActionListsByTrigger`, then the wildcard-trigger ones: the invariant of
`Invariants` is exactly what the merge assumes of its two lists. The full listing is the
same for every enumeration order of the two hash maps and every result `std::sort` may give,
because indices are distinct across the store.
-/

namespace RecoilKeyBindings.Resolution

open RecoilKeyBindings.Keys RecoilKeyBindings.Maps RecoilKeyBindings.Store
open RecoilKeyBindings.Invariants RecoilKeyBindings.TriggerMerge RecoilKeyBindings.MutatorLaws

set_option autoImplicit false

/-- `FilterByKeychain(in, kc, out)`: appends to `out` the bindings of `in` whose chain `kc`
fits. -/
def filterByKeychain (env : Collaborators) (keyBindingList : List KeyBinding) (kc : KeyChain)
    (out : List KeyBinding) : List KeyBinding :=
  out ++ keyBindingList.filter fun action => env.fit kc action.keyChain

def keyBindingListToActionList (keyBindingList : List KeyBinding) : List Action :=
  keyBindingList.map (·.action)

/-- `GetKeyBindingList(ks, forceAny)`: the list stored under `ks`, with the wildcard bit set
when `forceAny`, in the map of `ks`'s keyspace. -/
def getKeyBindingListOfKeySet (store : BindingStore) (ks : KeySet) (forceAny : Bool) :
    List KeyBinding :=
  if ks.key < 0 then []
  else
    let toUse := if forceAny then ks.setAnyBit else ks
    ((store.bindingsOf ks).find? toUse).getD []

/-- `GetKeyBindingList(kc)`: the bindings of the last key set of `kc` that `kc` fits, then,
for an exact key set, those of its wildcard form. A `KeyChain` is never empty here, so the
`kc.empty()` branch is gone. -/
def getKeyBindingListOfChain (env : Collaborators) (store : BindingStore) (kc : KeyChain) :
    List KeyBinding :=
  let out := filterByKeychain env (getKeyBindingListOfKeySet store kc.back false) kc []
  if !kc.back.anyMod then
    filterByKeychain env (getKeyBindingListOfKeySet store kc.back true) kc out
  else out

/-- `GetKeyBindingList(kc, sc)`: the exact-trigger bindings of both chains merged, followed
by their wildcard-trigger bindings merged. -/
def getKeyBindingListOfChains (env : Collaborators) (store : BindingStore) (kc sc : KeyChain) :
    List KeyBinding :=
  let kList := if !kc.back.anyMod then
    filterByKeychain env (getKeyBindingListOfKeySet store kc.back false) kc [] else []
  let sList := if !sc.back.anyMod then
    filterByKeychain env (getKeyBindingListOfKeySet store sc.back false) sc [] else []
  let merged := mergeActionListsByTrigger kList sList []
  let kList := filterByKeychain env (getKeyBindingListOfKeySet store kc.back true) kc []
  let sList := filterByKeychain env (getKeyBindingListOfKeySet store sc.back true) sc []
  mergeActionListsByTrigger kList sList merged

/-- `GetKeyBindingList(keyCode, scanCode, modifiers)`: a key press as two one-key chains.
`GetKeyBindingList(keyCode, scanCode)` is this at the modifiers the input layer reports. -/
def getKeyBindingListOfCodes (env : Collaborators) (store : BindingStore)
    (keyCode scanCode : Int) (modifiers : BitVec 8) : List KeyBinding :=
  getKeyBindingListOfChains env store (.single ⟨keyCode, modifiers, .keyCode⟩)
    (.single ⟨scanCode, modifiers, .scanCode⟩)

/-- The loop of `GetKeyBindingList()`: the lists of both maps, each map taken in some
enumeration order of its entries. -/
def collectBindings (codeEntries scanEntries : List (KeySet × List KeyBinding)) :
    List KeyBinding :=
  codeEntries.flatMap Prod.snd ++ scanEntries.flatMap Prod.snd

/-- `GetKeyBindingList()`: every binding, sorted by `compareActionByBindingOrder`. The maps
have no fixed order and `std::sort` is not stable; this takes the entries in the order the
model keeps them and sorts with core's merge sort, and `getKeyBindingList_of_enumeration`
shows that no other choice gives another list. -/
def getKeyBindingList (store : BindingStore) : List KeyBinding :=
  (collectBindings store.codeBindings.entries store.scanBindings.entries).mergeSort
    fun a b => !compareActionByBindingOrder b a

/-! ### The lists a key press reads -/

/-- `L(ks)`: the list stored under `ks` in the map of its keyspace, empty for a negative
key. -/
def storedList (store : BindingStore) (ks : KeySet) : List KeyBinding :=
  if ks.key < 0 then [] else store.listOf ks

/-- `F_c(l)`: the bindings of `l` whose chain the live chain `c` fits. -/
def fittingBindings (env : Collaborators) (c : KeyChain) (l : List KeyBinding) :
    List KeyBinding :=
  l.filter fun b => env.fit c b.keyChain

/-- The exact-trigger list a chain contributes, empty when its last key set is a wildcard. -/
def exactRun (env : Collaborators) (store : BindingStore) (c : KeyChain) : List KeyBinding :=
  if c.back.anyMod then [] else fittingBindings env c (storedList store c.back)

/-- The wildcard-trigger list a chain contributes. -/
def wildcardRun (env : Collaborators) (store : BindingStore) (c : KeyChain) : List KeyBinding :=
  fittingBindings env c (storedList store c.back.setAnyBit)

theorem getKeyBindingListOfKeySet_eq (store : BindingStore) (ks : KeySet) (forceAny : Bool) :
    getKeyBindingListOfKeySet store ks forceAny =
      storedList store (if forceAny then ks.setAnyBit else ks) := by
  cases forceAny <;>
    simp [getKeyBindingListOfKeySet, storedList, BindingStore.listOf, BindingStore.bindingsOf]

theorem getKeyBindingListOfChains_eq (env : Collaborators) (store : BindingStore)
    (kc sc : KeyChain) :
    getKeyBindingListOfChains env store kc sc =
      mergeActionListsByTrigger (wildcardRun env store kc) (wildcardRun env store sc)
        (mergeActionListsByTrigger (exactRun env store kc) (exactRun env store sc) []) := by
  simp only [getKeyBindingListOfChains, getKeyBindingListOfKeySet_eq, exactRun, wildcardRun,
    filterByKeychain, fittingBindings, List.nil_append, if_true, if_false]
  cases kc.back.anyMod <;> cases sc.back.anyMod <;> rfl

/-- `GetKeyBindingList(kc)` lists the exact run of `kc`, then its wildcard run, when the last
key set of `kc` is exact or its own wildcard variant. Any other key set with the wildcard bit
(`Any+Ctrl+a`) reads only its own list, which is not the list of its wildcard variant. -/
theorem getKeyBindingListOfChain_eq (env : Collaborators) (store : BindingStore) (kc : KeyChain)
    (exactOrWildcard : kc.back.anyMod = false ∨ kc.back.setAnyBit = kc.back) :
    getKeyBindingListOfChain env store kc = exactRun env store kc ++ wildcardRun env store kc := by
  unfold getKeyBindingListOfChain exactRun wildcardRun fittingBindings
  rcases exactOrWildcard with exact | wildcard
  · simp [getKeyBindingListOfKeySet_eq, filterByKeychain, exact]
  · have any : kc.back.anyMod = true := wildcard ▸ KeySet.anyMod_setAnyBit kc.back
    simp [getKeyBindingListOfKeySet_eq, filterByKeychain, any, wildcard]

/-- A list read from the store and filtered: increasing in index, no line twice, every
binding stored, all with one wildcard flag. -/
structure StoredRun (store : BindingStore) (wildcard : Bool) (l : List KeyBinding) : Prop where
  sorted : l.Pairwise (·.bindingIndex < ·.bindingIndex)
  linesNodup : (l.map (·.action.line)).Nodup
  stored : ∀ b ∈ l, b ∈ store.allBindings
  trigger : ∀ b ∈ l, b.keyChain.back.anyMod = wildcard

section Runs

variable {env : Collaborators} {store : BindingStore}

theorem storedRun_nil (store : BindingStore) (wildcard : Bool) : StoredRun store wildcard [] :=
  ⟨.nil, .nil, by simp, by simp⟩

theorem StoredRun.filter {wildcard : Bool} {l : List KeyBinding} (run : StoredRun store wildcard l)
    (p : KeyBinding → Bool) : StoredRun store wildcard (l.filter p) :=
  ⟨run.sorted.sublist (List.filter_sublist l),
    run.linesNodup.sublist ((List.filter_sublist l).map _),
    fun b mem => run.stored b (List.mem_filter.1 mem).1,
    fun b mem => run.trigger b (List.mem_filter.1 mem).1⟩

theorem storedRun_storedList (invariant : StoreInvariant env store) (ks : KeySet) :
    StoredRun store ks.anyMod (storedList store ks) := by
  unfold storedList
  split
  · exact storedRun_nil store _
  · obtain ⟨sorted, lines, triggers⟩ := invariant.listOf ks
    exact ⟨sorted, lines, fun _ mem => mem_allBindings_of_listOf mem,
      fun b mem => by rw [triggers b mem]⟩

theorem storedRun_exactRun (invariant : StoreInvariant env store) (c : KeyChain) :
    StoredRun store false (exactRun env store c) := by
  unfold Resolution.exactRun
  split
  · exact storedRun_nil store false
  · simpa [*] using (storedRun_storedList invariant c.back).filter _

theorem storedRun_wildcardRun (invariant : StoreInvariant env store) (c : KeyChain) :
    StoredRun store true (wildcardRun env store c) := by
  simpa using (storedRun_storedList invariant c.back.setAnyBit).filter _

/-- Two runs with one wildcard flag meet every assumption of `MergeActionListsByTrigger`. -/
theorem StoredRun.merge (invariant : StoreInvariant env store) {wildcard : Bool}
    {A B : List KeyBinding} (runA : StoredRun store wildcard A) (runB : StoredRun store wildcard B)
    (out : List KeyBinding) :
    ∃ M, mergeActionListsByTrigger A B out = out ++ M ∧ MergedByIndex A B M ∧
      ∀ x ∈ M, x.keyChain.back.anyMod = wildcard := by
  have ofRuns : ∀ x ∈ A ++ B, x ∈ store.allBindings ∧ x.keyChain.back.anyMod = wildcard :=
    fun x mem => (List.mem_append.1 mem).elim (fun m => ⟨runA.stored x m, runA.trigger x m⟩)
      fun m => ⟨runB.stored x m, runB.trigger x m⟩
  obtain ⟨M, result, merged⟩ := mergeActionListsByTrigger_merged A B out runA.sorted runB.sorted
    runA.linesNodup runB.linesNodup
    (fun x hx y hy => (ofRuns x hx).2.trans (ofRuns y hy).2.symm)
    fun a memA b memB same => invariant.eq_of_index_eq (runA.stored a memA) (runB.stored b memB) same
  exact ⟨M, result, merged, fun x mem => (ofRuns x ((merged.mem x).1 mem).1).2⟩

end Runs

/-- In every reachable store, a key press resolves to `X ++ Y`: `X` merges the exact-trigger
runs of the two chains and `Y` their wildcard runs, each keeping per action line only the
binding of least index, in increasing index order. -/
theorem getKeyBindingListOfChains_merges_runs (env : Collaborators) (store : BindingStore)
    (reachable : Reachable env store) (kc sc : KeyChain) :
    ∃ X Y, getKeyBindingListOfChains env store kc sc = X ++ Y ∧
      MergedByIndex (exactRun env store kc) (exactRun env store sc) X ∧
      MergedByIndex (wildcardRun env store kc) (wildcardRun env store sc) Y ∧
      (∀ x ∈ X, x.keyChain.back.anyMod = false) ∧ (∀ y ∈ Y, y.keyChain.back.anyMod = true) := by
  have invariant := reachable_storeInvariant reachable
  obtain ⟨X, first, mergedX, exactX⟩ :=
    (storedRun_exactRun invariant kc).merge invariant (storedRun_exactRun invariant sc) []
  obtain ⟨Y, second, mergedY, wildcardY⟩ :=
    (storedRun_wildcardRun invariant kc).merge invariant (storedRun_wildcardRun invariant sc) X
  refine ⟨X, Y, ?_, mergedX, mergedY, exactX, wildcardY⟩
  rw [getKeyBindingListOfChains_eq, first, List.nil_append, second]

theorem getKeyBindingListOfChains_merges_attack_runs :
    Reachable exampleCollaborators
        (addKeyBinding (addKeyBinding .empty exampleBindingA) exampleBindingScA) ∧
      ∃ X Y, getKeyBindingListOfChains exampleCollaborators
          (addKeyBinding (addKeyBinding .empty exampleBindingA) exampleBindingScA)
          (.single ⟨97, 0#8, .keyCode⟩) (.single ⟨4, 0#8, .scanCode⟩) = X ++ Y ∧
        MergedByIndex
          (exactRun exampleCollaborators
            (addKeyBinding (addKeyBinding .empty exampleBindingA) exampleBindingScA)
            (.single ⟨97, 0#8, .keyCode⟩))
          (exactRun exampleCollaborators
            (addKeyBinding (addKeyBinding .empty exampleBindingA) exampleBindingScA)
            (.single ⟨4, 0#8, .scanCode⟩)) X ∧
        MergedByIndex
          (wildcardRun exampleCollaborators
            (addKeyBinding (addKeyBinding .empty exampleBindingA) exampleBindingScA)
            (.single ⟨97, 0#8, .keyCode⟩))
          (wildcardRun exampleCollaborators
            (addKeyBinding (addKeyBinding .empty exampleBindingA) exampleBindingScA)
            (.single ⟨4, 0#8, .scanCode⟩)) Y ∧
        (∀ x ∈ X, x.keyChain.back.anyMod = false) ∧ (∀ y ∈ Y, y.keyChain.back.anyMod = true) :=
  ⟨reachable_attack_store,
    getKeyBindingListOfChains_merges_runs _ _ reachable_attack_store _ _⟩

/-! ### Listing every binding -/

theorem collectBindings_perm {store : BindingStore}
    {codeEntries scanEntries : List (KeySet × List KeyBinding)}
    (codeOrder : codeEntries.Perm store.codeBindings.entries)
    (scanOrder : scanEntries.Perm store.scanBindings.entries) :
    (collectBindings codeEntries scanEntries).Perm store.allBindings :=
  (codeOrder.flatMap_right _).append (scanOrder.flatMap_right _)

theorem pairwise_index_of_sorted_perm {env : Collaborators} {store : BindingStore}
    (invariant : StoreInvariant env store) {l : List KeyBinding} (perm : l.Perm store.allBindings)
    (sorted : l.Pairwise fun a b => !compareActionByBindingOrder b a) :
    l.Pairwise (·.bindingIndex < ·.bindingIndex) :=
  (sorted.and (List.pairwise_map.1 ((perm.map _).nodup_iff.2 invariant.indicesNodup))).imp
    fun ⟨le, ne⟩ => by
      simp only [compareActionByBindingOrder, Bool.not_eq_true', decide_eq_false_iff_not,
        Nat.not_lt] at le
      omega

theorem getKeyBindingList_sorted (store : BindingStore) :
    (getKeyBindingList store).Pairwise fun a b => !compareActionByBindingOrder b a :=
  List.sorted_mergeSort
    (fun a b c ab bc => by simp only [compareActionByBindingOrder] at *; simp at *; omega)
    (fun a b => by simp only [compareActionByBindingOrder]; simp; omega) _

theorem getKeyBindingList_perm (store : BindingStore) :
    (getKeyBindingList store).Perm store.allBindings :=
  (List.mergeSort_perm _ _).trans (collectBindings_perm (.refl _) (.refl _))

theorem getKeyBindingList_strict {env : Collaborators} {store : BindingStore}
    (invariant : StoreInvariant env store) :
    (getKeyBindingList store).Pairwise (·.bindingIndex < ·.bindingIndex) :=
  pairwise_index_of_sorted_perm invariant (getKeyBindingList_perm store)
    (getKeyBindingList_sorted store)

/-- For every enumeration order of the two maps and every sorted permutation `std::sort` may
return, `GetKeyBindingList()` lists every stored binding exactly once, in strictly increasing
index, and so is always the same list. -/
theorem getKeyBindingList_of_enumeration (env : Collaborators) (store : BindingStore)
    (reachable : Reachable env store) (codeEntries scanEntries : List (KeySet × List KeyBinding))
    (codeOrder : codeEntries.Perm store.codeBindings.entries)
    (scanOrder : scanEntries.Perm store.scanBindings.entries) (merged : List KeyBinding)
    (permuted : merged.Perm (collectBindings codeEntries scanEntries))
    (sorted : merged.Pairwise fun a b => !compareActionByBindingOrder b a) :
    merged.Nodup ∧ (∀ b, b ∈ merged ↔ b ∈ store.allBindings) ∧
      merged.Pairwise (·.bindingIndex < ·.bindingIndex) ∧ merged = getKeyBindingList store := by
  have invariant := reachable_storeInvariant reachable
  have perm := permuted.trans (collectBindings_perm codeOrder scanOrder)
  have strict := pairwise_index_of_sorted_perm invariant perm sorted
  have : IsAntisymm KeyBinding (·.bindingIndex < ·.bindingIndex) :=
    ⟨fun _ _ lt gt => absurd (lt.trans gt) (Nat.lt_irrefl _)⟩
  have nodup : merged.Nodup := strict.imp fun lt same => by subst same; exact Nat.lt_irrefl _ lt
  refine ⟨nodup, fun b => perm.mem_iff,
    strict, List.eq_of_perm_of_sorted (perm.trans (getKeyBindingList_perm store).symm) strict
      (getKeyBindingList_strict invariant)⟩

/-- `attackStore` after `Bind("up", "moveforward")`: the key-code map holds `a` and `Any+up`. -/
def moveStore : BindingStore :=
  addKeyBinding attackStore exampleBindingUp

theorem getKeyBindingList_of_swapped_enumeration :
    Reachable exampleCollaborators moveStore ∧
      moveStore.codeBindings.entries.reverse ≠ moveStore.codeBindings.entries ∧
      moveStore.codeBindings.entries.reverse.Perm moveStore.codeBindings.entries ∧
      moveStore.scanBindings.entries.Perm moveStore.scanBindings.entries ∧
      [{ exampleBindingA with bindingIndex := 1 }, { exampleBindingScA with bindingIndex := 2 },
          { exampleBindingUp with bindingIndex := 3 }].Perm
        (collectBindings moveStore.codeBindings.entries.reverse moveStore.scanBindings.entries) ∧
      [{ exampleBindingA with bindingIndex := 1 }, { exampleBindingScA with bindingIndex := 2 },
          { exampleBindingUp with bindingIndex := 3 }].Pairwise
        (fun a b => !compareActionByBindingOrder b a) ∧
      [{ exampleBindingA with bindingIndex := 1 }, { exampleBindingScA with bindingIndex := 2 },
          { exampleBindingUp with bindingIndex := 3 }].Nodup ∧
      (∀ b, b ∈ [{ exampleBindingA with bindingIndex := 1 },
          { exampleBindingScA with bindingIndex := 2 },
          { exampleBindingUp with bindingIndex := 3 }] ↔ b ∈ moveStore.allBindings) ∧
      [{ exampleBindingA with bindingIndex := 1 }, { exampleBindingScA with bindingIndex := 2 },
          { exampleBindingUp with bindingIndex := 3 }].Pairwise
        (·.bindingIndex < ·.bindingIndex) ∧
      [{ exampleBindingA with bindingIndex := 1 }, { exampleBindingScA with bindingIndex := 2 },
          { exampleBindingUp with bindingIndex := 3 }] = getKeyBindingList moveStore := by
  have reachable : Reachable exampleCollaborators moveStore := by
    simpa only [Mutation.apply, bind_of_made makeKeyBinding_up_moveforward] using
      Reachable.step (.bind "up" "moveforward") reachable_attack_store
  have reordered : moveStore.codeBindings.entries.reverse ≠ moveStore.codeBindings.entries := by
    decide
  have permuted : [{ exampleBindingA with bindingIndex := 1 },
      { exampleBindingScA with bindingIndex := 2 }, { exampleBindingUp with bindingIndex := 3 }].Perm
      (collectBindings moveStore.codeBindings.entries.reverse moveStore.scanBindings.entries) := by
    decide
  have sorted : [{ exampleBindingA with bindingIndex := 1 },
      { exampleBindingScA with bindingIndex := 2 }, { exampleBindingUp with bindingIndex := 3 }].Pairwise
      (fun a b => !compareActionByBindingOrder b a) := by decide
  exact ⟨reachable, reordered, List.reverse_perm _, .refl _, permuted, sorted,
    getKeyBindingList_of_enumeration _ _ reachable _ _ (List.reverse_perm _) (.refl _) _ permuted
      sorted⟩

end RecoilKeyBindings.Resolution
