import RecoilKeyBindings.Store

/-!
# The invariant of reachable stores

The stores reached from the empty one by `Bind`, `UnBind`, `UnBindKeyset`, `UnBindAction`
and `unbindall`. `Bind` is the only mutator that adds a binding, and it appends to one
list; every other mutator only shortens lists and erases emptied ones. The invariant is
proved once for each of these two shapes.

The mutators read the key tables through `CKeySet::Parse`, and between two calls `keysym`
extends the tables and `unbindall` resets them. `Reachable` keeps the tables fixed;
`SessionReachable` lets every call run with tables of its own. The invariant holds of both,
and under fixed tables every stored binding is also what `Bind` makes of its shortcut text
now, which is what replaying a saved key file needs.
-/

namespace RecoilKeyBindings.Invariants

open RecoilKeyBindings.Keys RecoilKeyBindings.ChainParser RecoilKeyBindings.Maps
open RecoilKeyBindings.Store

set_option autoImplicit false

inductive Mutation
  | bind (keystr line : String)
  | unBind (keystr command : String)
  | unBindKeyset (keystr : String)
  | unBindAction (command : String)
  | unbindall

/-- The store after a mutation; the results of the calls are dropped. -/
def Mutation.apply (env : Collaborators) (store : BindingStore) : Mutation → BindingStore
  | .bind keystr line => (Store.bind env store keystr line).1
  | .unBind keystr command => (Store.unBind env store keystr command).1
  | .unBindKeyset keystr => (Store.unBindKeyset env store keystr).1
  | .unBindAction command => (Store.unBindAction store command).1
  | .unbindall => Store.unbindall env

/-- The stores reached from the empty store by any sequence of mutations. -/
inductive Reachable (env : Collaborators) : BindingStore → Prop
  | empty : Reachable env BindingStore.empty
  | step {store : BindingStore} (mutation : Mutation) :
      Reachable env store → Reachable env (mutation.apply env store)

/-- The stores reached from the empty store when every mutation runs with the key tables of its
time. -/
inductive SessionReachable (env : Collaborators) : BindingStore → Prop
  | empty : SessionReachable env BindingStore.empty
  | step {store : BindingStore} (keyTables : KeyTables) (mutation : Mutation) :
      SessionReachable env store →
        SessionReachable env (mutation.apply (env.withKeyTables keyTables) store)

theorem Reachable.sessionReachable {env : Collaborators} {store : BindingStore}
    (reachable : Reachable env store) : SessionReachable env store := by
  induction reachable with
  | empty => exact .empty
  | step mutation _ reached => exact .step env.keyTables mutation reached

/-- What holds of one map: its keys are of its keyspace, no list is empty, every binding
sits under its trigger key set, and within a list the action lines are distinct and the
indices increase. -/
structure MapInvariant (keyCode : Bool) (bindings : KeyMap) : Prop where
  keyspace : ∀ ks l, (ks, l) ∈ bindings.entries → ks.isKeyCode = keyCode
  nonempty : ∀ ks l, (ks, l) ∈ bindings.entries → l ≠ []
  triggers : ∀ ks l, (ks, l) ∈ bindings.entries → ∀ b ∈ l, b.keyChain.back = ks
  linesNodup : ∀ ks l, (ks, l) ∈ bindings.entries → (l.map (·.action.line)).Nodup
  indexSorted : ∀ ks l, (ks, l) ∈ bindings.entries → l.Pairwise (·.bindingIndex < ·.bindingIndex)

/-- The invariant of reachable stores: both maps well formed, indices distinct across the
store and in `[1, bindingsCount]`, stateful commands under wildcard triggers, and every
binding as `Bind` built it from its shortcut text and some action line, with the key tables of
that call. -/
structure StoreInvariant (env : Collaborators) (store : BindingStore) : Prop where
  code : MapInvariant true store.codeBindings
  scan : MapInvariant false store.scanBindings
  indicesNodup : (store.allBindings.map (·.bindingIndex)).Nodup
  indicesBounded : ∀ b ∈ store.allBindings, 1 ≤ b.bindingIndex ∧ b.bindingIndex ≤ store.bindingsCount
  statefulWildcard : ∀ b ∈ store.allBindings,
    b.action.command ∈ statefulCommands → b.keyChain.back.anyMod = true
  madeByBind : ∀ b ∈ store.allBindings, ∃ keyTables line,
    makeKeyBinding (env.withKeyTables keyTables) b.boundWith line = some { b with bindingIndex := 0 }

theorem mapInvariant_empty (keyCode : Bool) : MapInvariant keyCode .empty :=
  ⟨by simp, by simp, by simp, by simp, by simp⟩

theorem storeInvariant_empty (env : Collaborators) : StoreInvariant env .empty := by
  refine ⟨mapInvariant_empty true, mapInvariant_empty false, ?_, ?_, ?_, ?_⟩ <;>
    simp [BindingStore.empty, BindingStore.allBindings]

section MakeKeyBinding

variable {env : Collaborators} {keystr line : String} {keyBinding : KeyBinding}

theorem makeKeyBinding_spec (made : makeKeyBinding env keystr line = some keyBinding) :
    keyBinding.bindingIndex = 0 ∧ keyBinding.action = env.action line ∧
      keyBinding.boundWith = keystr ∧ keyBinding.action.command ≠ "" ∧
      (keyBinding.action.command ∈ statefulCommands → keyBinding.keyChain.back.anyMod = true) := by
  simp only [makeKeyBinding] at made
  split_ifs at made with emptyCommand stateful <;>
  · split at made
    · cases made
    · split_ifs at made with emptyChain
      cases made
      simp_all

theorem makeKeyBinding_reindex (made : makeKeyBinding env keystr line = some keyBinding)
    (index : Nat) :
    makeKeyBinding env ({ keyBinding with bindingIndex := index } : KeyBinding).boundWith line =
      some { ({ keyBinding with bindingIndex := index } : KeyBinding) with bindingIndex := 0 } := by
  obtain ⟨zero, -, bound, -⟩ := makeKeyBinding_spec made
  cases keyBinding
  simp_all

end MakeKeyBinding

theorem StoreInvariant.bindingsOf {env : Collaborators} {store : BindingStore}
    (invariant : StoreInvariant env store) (ks : KeySet) :
    MapInvariant ks.isKeyCode (store.bindingsOf ks) := by
  unfold BindingStore.bindingsOf
  cases keyCode : ks.isKeyCode
  · simpa using invariant.scan
  · simpa using invariant.code

theorem maps_setBindingsOf {store : BindingStore} {ks : KeySet} {bindings : KeyMap}
    (code : MapInvariant true store.codeBindings) (scan : MapInvariant false store.scanBindings)
    (fresh : MapInvariant ks.isKeyCode bindings) :
    MapInvariant true (store.setBindingsOf ks bindings).codeBindings ∧
      MapInvariant false (store.setBindingsOf ks bindings).scanBindings := by
  rw [BindingStore.setBindingsOf_codeBindings, BindingStore.setBindingsOf_scanBindings]
  cases keyCode : ks.isKeyCode
  · simp only [keyCode] at fresh
    exact ⟨by simpa using code, by simpa using fresh⟩
  · simp only [keyCode] at fresh
    exact ⟨by simpa using fresh, by simpa using scan⟩

theorem allBindings_setBindingsOf_perm (store : BindingStore) (ks : KeySet) (bindings : KeyMap)
    (extra : List KeyBinding)
    (grown : bindings.flatValues.Perm ((store.bindingsOf ks).flatValues ++ extra)) :
    (store.setBindingsOf ks bindings).allBindings.Perm (store.allBindings ++ extra) := by
  unfold BindingStore.allBindings BindingStore.bindingsOf at *
  rw [BindingStore.setBindingsOf_codeBindings, BindingStore.setBindingsOf_scanBindings]
  cases keyCode : ks.isKeyCode <;> simp only [keyCode, if_false, if_true] at grown ⊢
  · simpa only [List.append_assoc] using grown.append_left _
  · refine (grown.append_right _).trans ?_
    simp only [List.append_assoc]
    exact List.perm_append_comm.append_left _

theorem mem_allBindings_of_bindingsOf {store : BindingStore} {ks k : KeySet} {l : List KeyBinding}
    {b : KeyBinding} (stored : (k, l) ∈ (store.bindingsOf ks).entries) (member : b ∈ l) :
    b ∈ store.allBindings := by
  have flat : b ∈ (store.bindingsOf ks).flatValues :=
    (UnorderedMap.mem_flatValues _ _).2 ⟨k, l, stored, member⟩
  unfold BindingStore.bindingsOf at flat
  unfold BindingStore.allBindings
  split at flat <;> simp [flat]

theorem mapInvariant_append {keyCode : Bool} {bindings : KeyMap} {ks : KeySet}
    {keyBinding : KeyBinding} (invariant : MapInvariant keyCode bindings)
    (keyspace : ks.isKeyCode = keyCode) (trigger : keyBinding.keyChain.back = ks)
    (newLine : ¬((bindings.find? ks).getD []).any (·.action.line == keyBinding.action.line))
    (newIndex : ∀ b ∈ (bindings.find? ks).getD [], b.bindingIndex < keyBinding.bindingIndex) :
    MapInvariant keyCode (bindings.set ks ((bindings.find? ks).getD [] ++ [keyBinding])) := by
  have current := bindings.find?_getD_of_forall ks []
    (fun l => (∀ b ∈ l, b.keyChain.back = ks) ∧ (l.map (·.action.line)).Nodup ∧
      l.Pairwise (·.bindingIndex < ·.bindingIndex)) (by simp)
    (fun l stored => ⟨invariant.triggers ks l stored, invariant.linesNodup ks l stored,
      invariant.indexSorted ks l stored⟩)
  obtain ⟨triggers, linesNodup, indexSorted⟩ := current
  simp only [List.any_eq_true, beq_iff_eq, not_exists, not_and] at newLine
  constructor <;> intro k l member <;> rw [UnorderedMap.mem_set] at member <;>
    rcases member with ⟨rfl, rfl⟩ | ⟨-, stored⟩
  · exact keyspace
  · exact invariant.keyspace k l stored
  · simp
  · exact invariant.nonempty k l stored
  · intro b member
    rcases List.mem_append.1 member with old | new
    · exact triggers b old
    · rw [List.mem_singleton.1 new, trigger]
  · exact invariant.triggers k l stored
  · rw [List.map_append, List.nodup_append]
    exact ⟨linesNodup, by simp, by simpa [List.Disjoint] using newLine⟩
  · exact invariant.linesNodup k l stored
  · rw [List.pairwise_append]
    exact ⟨indexSorted, by simp, by simpa using newIndex⟩
  · exact invariant.indexSorted k l stored

theorem StoreInvariant.addKeyBinding {env : Collaborators} {store : BindingStore}
    {keystr line : String} {keyBinding : KeyBinding} (invariant : StoreInvariant env store)
    (made : makeKeyBinding env keystr line = some keyBinding) :
    StoreInvariant env (Store.addKeyBinding store keyBinding) := by
  obtain ⟨-, -, -, -, stateful⟩ := makeKeyBinding_spec made
  simp only [Store.addKeyBinding, addActionToKeyMap_eq]
  split_ifs with duplicate
  · simpa using invariant
  · set ks := keyBinding.keyChain.back
    set numbered : KeyBinding := { keyBinding with bindingIndex := store.bindingsCount + 1 }
    have older : ∀ b ∈ ((store.bindingsOf ks).find? ks).getD [],
        b.bindingIndex < numbered.bindingIndex :=
      (store.bindingsOf ks).find?_getD_of_forall ks []
        (fun l => ∀ b ∈ l, b.bindingIndex < numbered.bindingIndex) (by simp)
        fun l stored b member => Nat.lt_succ_of_le
          (invariant.indicesBounded b (mem_allBindings_of_bindingsOf stored member)).2
    obtain ⟨code, scan⟩ := maps_setBindingsOf invariant.code invariant.scan
      (@mapInvariant_append _ _ _ numbered (invariant.bindingsOf ks) rfl rfl duplicate older)
    have grown := allBindings_setBindingsOf_perm store ks _ [numbered]
      (UnorderedMap.flatValues_set_append_perm (store.bindingsOf ks) ks [numbered])
    refine ⟨code, scan, ?_, fun b member => ?_, fun b member => ?_, fun b member => ?_⟩ <;>
      simp only [BindingStore.allBindings_with_bindingsCount] at *
    · refine (grown.map (·.bindingIndex)).nodup_iff.2 ?_
      rw [List.map_append, List.nodup_append]
      refine ⟨invariant.indicesNodup, by simp, ?_⟩
      simpa [List.Disjoint] using fun b member same =>
        Nat.lt_irrefl _ (same ▸ Nat.lt_succ_of_le (invariant.indicesBounded b member).2)
    all_goals rcases List.mem_append.1 (grown.mem_iff.1 member) with old | new
    · have bounds := invariant.indicesBounded b old
      exact ⟨bounds.1, Nat.le_succ_of_le bounds.2⟩
    · simp [List.mem_singleton.1 new, numbered]
    · exact invariant.statefulWildcard b old
    · simpa [List.mem_singleton.1 new, numbered] using stateful
    · exact invariant.madeByBind b old
    · rw [List.mem_singleton.1 new]
      exact ⟨env.keyTables, line, makeKeyBinding_reindex made _⟩

theorem mem_allBindings_addKeyBinding {store : BindingStore} {keyBinding b : KeyBinding}
    (member : b ∈ (Store.addKeyBinding store keyBinding).allBindings) :
    b ∈ store.allBindings ∨ b = { keyBinding with bindingIndex := store.bindingsCount + 1 } := by
  simp only [Store.addKeyBinding, addActionToKeyMap_eq] at member
  split_ifs at member
  · exact .inl (by simpa using member)
  · have grown := allBindings_setBindingsOf_perm store keyBinding.keyChain.back _ [_]
      (UnorderedMap.flatValues_set_append_perm _ keyBinding.keyChain.back
        [{ keyBinding with bindingIndex := store.bindingsCount + 1 }])
    rw [BindingStore.allBindings_with_bindingsCount] at member
    simpa using grown.mem_iff.1 member

/-- `shrunk` keeps, under each of its keys, a nonempty sublist of the list `bindings` has
there, and its flat values are a sublist of those of `bindings`. -/
structure MapShrinks (bindings shrunk : KeyMap) : Prop where
  lists : ∀ k l', (k, l') ∈ shrunk.entries →
    l' ≠ [] ∧ ∃ l, (k, l) ∈ bindings.entries ∧ l'.Sublist l
  flat : shrunk.flatValues.Sublist bindings.flatValues

theorem mapShrinks_refl {bindings : KeyMap} (nonempty : ∀ k l, (k, l) ∈ bindings.entries → l ≠ []) :
    MapShrinks bindings bindings :=
  ⟨fun k l stored => ⟨nonempty k l stored, l, stored, List.Sublist.refl l⟩, List.Sublist.refl _⟩

theorem MapInvariant.shrink {keyCode : Bool} {bindings shrunk : KeyMap}
    (invariant : MapInvariant keyCode bindings) (shrinks : MapShrinks bindings shrunk) :
    MapInvariant keyCode shrunk := by
  constructor <;> intro k l' stored <;> obtain ⟨nonempty, l, original, sublist⟩ :=
    shrinks.lists k l' stored
  · exact invariant.keyspace k l original
  · exact nonempty
  · exact fun b member => invariant.triggers k l original b (sublist.subset member)
  · exact (sublist.map _).nodup (invariant.linesNodup k l original)
  · exact (invariant.indexSorted k l original).sublist sublist

/-- `shrunk` keeps the counter of `store` and shrinks both its maps. -/
structure StoreShrinks (store shrunk : BindingStore) : Prop where
  code : MapShrinks store.codeBindings shrunk.codeBindings
  scan : MapShrinks store.scanBindings shrunk.scanBindings
  count : shrunk.bindingsCount = store.bindingsCount

theorem StoreShrinks.sublist {store shrunk : BindingStore} (shrinks : StoreShrinks store shrunk) :
    shrunk.allBindings.Sublist store.allBindings :=
  shrinks.code.flat.append shrinks.scan.flat

theorem StoreInvariant.shrink {env : Collaborators} {store shrunk : BindingStore}
    (invariant : StoreInvariant env store) (shrinks : StoreShrinks store shrunk) :
    StoreInvariant env shrunk := by
  have sublist := shrinks.sublist
  refine ⟨invariant.code.shrink shrinks.code, invariant.scan.shrink shrinks.scan,
    (sublist.map _).nodup invariant.indicesNodup, fun b member => ?_,
    fun b member => invariant.statefulWildcard b (sublist.subset member),
    fun b member => invariant.madeByBind b (sublist.subset member)⟩
  rw [shrinks.count]
  exact invariant.indicesBounded b (sublist.subset member)

section Shrinking

variable {env : Collaborators} {store : BindingStore}

theorem StoreInvariant.shrinks_refl (invariant : StoreInvariant env store) :
    StoreShrinks store store :=
  ⟨mapShrinks_refl invariant.code.nonempty, mapShrinks_refl invariant.scan.nonempty, rfl⟩

theorem StoreInvariant.shrinks_setBindingsOf {ks : KeySet} {shrunk : KeyMap}
    (invariant : StoreInvariant env store) (shrinks : MapShrinks (store.bindingsOf ks) shrunk) :
    StoreShrinks store (store.setBindingsOf ks shrunk) := by
  refine ⟨?_, ?_, by simp⟩ <;>
    simp only [BindingStore.setBindingsOf_codeBindings, BindingStore.setBindingsOf_scanBindings]
  all_goals
    unfold BindingStore.bindingsOf at shrinks
    split <;> simp_all [mapShrinks_refl invariant.code.nonempty,
      mapShrinks_refl invariant.scan.nonempty]

end Shrinking

theorem mapShrinks_erase {bindings : KeyMap} (nonempty : ∀ k l, (k, l) ∈ bindings.entries → l ≠ [])
    (ks : KeySet) : MapShrinks bindings (bindings.erase ks) := by
  refine ⟨fun k l stored => ?_, UnorderedMap.flatValues_erase_sublist _ _⟩
  have original := ((UnorderedMap.mem_erase _ _ _ _).1 stored).2
  exact ⟨nonempty k l original, l, original, List.Sublist.refl l⟩

theorem mapShrinks_unBind {bindings : KeyMap} (nonempty : ∀ k l, (k, l) ∈ bindings.entries → l ≠ [])
    {ks : KeySet} {keyBindingList : List KeyBinding} (stored : (ks, keyBindingList) ∈ bindings.entries)
    (command : String) :
    let kept := (removeCommandFromList keyBindingList command).1
    MapShrinks bindings
      (if kept.isEmpty then (bindings.set ks kept).erase ks else bindings.set ks kept) := by
  intro kept
  have filtered : kept.Sublist keyBindingList := List.filter_sublist _
  have setSublist := UnorderedMap.flatValues_set_sublist _ _ _ _ stored filtered
  split_ifs with emptied
  · refine ⟨fun k l' member => ?_, (UnorderedMap.flatValues_erase_sublist _ _).trans setSublist⟩
    obtain ⟨other, member⟩ := (UnorderedMap.mem_erase _ _ _ _).1 member
    rcases (UnorderedMap.mem_set _ _ _ _ _).1 member with ⟨same, -⟩ | ⟨-, original⟩
    · exact absurd same other
    · exact ⟨nonempty k l' original, l', original, List.Sublist.refl l'⟩
  · refine ⟨fun k l' member => ?_, setSublist⟩
    rcases (UnorderedMap.mem_set _ _ _ _ _).1 member with ⟨rfl, rfl⟩ | ⟨-, original⟩
    · exact ⟨by simpa [List.isEmpty_iff] using emptied, keyBindingList, stored, filtered⟩
    · exact ⟨nonempty k l' original, l', original, List.Sublist.refl l'⟩

theorem mapShrinks_removeActionFromKeyMap (bindings : KeyMap) (command : String) :
    MapShrinks bindings (removeActionFromKeyMap command bindings).1 := by
  refine ⟨fun k l' member => ?_, UnorderedMap.flatValues_updateAll_sublist _ _ fun k l l' kept => ?_⟩
  · obtain ⟨l, original, kept⟩ := (UnorderedMap.mem_updateAll _ _ _ _).1 member
    simp only [removeCommandFromList] at kept
    split_ifs at kept with emptied
    cases kept
    exact ⟨by simpa [List.isEmpty_iff] using emptied, l, original, List.filter_sublist _⟩
  · simp only [removeCommandFromList] at kept
    split_ifs at kept
    cases kept
    exact List.filter_sublist _

section Preservation

variable {env : Collaborators} {store : BindingStore}

theorem StoreInvariant.shrinks_unBind (invariant : StoreInvariant env store)
    (keystr command : String) : StoreShrinks store (Store.unBind env store keystr command).1 := by
  unfold Store.unBind
  cases env.parse keystr with
  | none => exact invariant.shrinks_refl
  | some ks =>
      dsimp only
      cases found : (store.bindingsOf ks).find? ks with
      | none => exact invariant.shrinks_refl
      | some keyBindingList =>
          exact invariant.shrinks_setBindingsOf (mapShrinks_unBind (invariant.bindingsOf ks).nonempty
            ((UnorderedMap.find?_eq_some_iff _ _ _).1 found) command)

theorem StoreInvariant.shrinks_unBindKeyset (invariant : StoreInvariant env store)
    (keystr : String) : StoreShrinks store (Store.unBindKeyset env store keystr).1 := by
  unfold Store.unBindKeyset
  cases env.parse keystr with
  | none => exact invariant.shrinks_refl
  | some ks =>
      dsimp only
      cases (store.bindingsOf ks).find? ks with
      | none => exact invariant.shrinks_refl
      | some _ =>
          exact invariant.shrinks_setBindingsOf
            (mapShrinks_erase (invariant.bindingsOf ks).nonempty ks)

theorem StoreInvariant.shrinks_unBindAction (invariant : StoreInvariant env store)
    (command : String) : StoreShrinks store (Store.unBindAction store command).1 := by
  have code := mapShrinks_removeActionFromKeyMap store.codeBindings command
  simp only [Store.unBindAction]
  split_ifs
  · exact ⟨code, mapShrinks_refl invariant.scan.nonempty, rfl⟩
  · exact ⟨code, mapShrinks_removeActionFromKeyMap store.scanBindings command, rfl⟩

theorem StoreInvariant.bind (invariant : StoreInvariant env store) (keystr line : String) :
    StoreInvariant env (Store.bind env store keystr line).1 := by
  unfold Store.bind
  cases made : makeKeyBinding env keystr line with
  | none => exact invariant
  | some keyBinding => exact invariant.addKeyBinding made

theorem StoreInvariant.unBind (invariant : StoreInvariant env store) (keystr command : String) :
    StoreInvariant env (Store.unBind env store keystr command).1 :=
  invariant.shrink (invariant.shrinks_unBind keystr command)

theorem StoreInvariant.unBindKeyset (invariant : StoreInvariant env store) (keystr : String) :
    StoreInvariant env (Store.unBindKeyset env store keystr).1 :=
  invariant.shrink (invariant.shrinks_unBindKeyset keystr)

theorem StoreInvariant.unBindAction (invariant : StoreInvariant env store) (command : String) :
    StoreInvariant env (Store.unBindAction store command).1 :=
  invariant.shrink (invariant.shrinks_unBindAction command)

theorem StoreInvariant.apply (invariant : StoreInvariant env store) :
    ∀ mutation : Mutation, StoreInvariant env (mutation.apply env store)
  | .bind keystr line => invariant.bind keystr line
  | .unBind keystr command => invariant.unBind keystr command
  | .unBindKeyset keystr => invariant.unBindKeyset keystr
  | .unBindAction command => invariant.unBindAction command
  | .unbindall => (storeInvariant_empty env).bind "enter" "chat"

theorem StoreInvariant.withKeyTables (invariant : StoreInvariant env store) (keyTables : KeyTables) :
    StoreInvariant (env.withKeyTables keyTables) store :=
  ⟨invariant.code, invariant.scan, invariant.indicesNodup, invariant.indicesBounded,
    invariant.statefulWildcard, invariant.madeByBind⟩

end Preservation

theorem reachable_unbindall (env : Collaborators) : Reachable env (unbindall env) :=
  @Reachable.step env .empty .unbindall .empty

theorem sessionReachable_storeInvariant {env : Collaborators} {store : BindingStore}
    (reachable : SessionReachable env store) : StoreInvariant env store := by
  induction reachable with
  | empty => exact storeInvariant_empty env
  | step keyTables mutation _ invariant =>
    exact ((invariant.withKeyTables keyTables).apply mutation).withKeyTables env.keyTables

theorem reachable_storeInvariant {env : Collaborators} {store : BindingStore}
    (reachable : Reachable env store) : StoreInvariant env store :=
  sessionReachable_storeInvariant reachable.sessionReachable

/-! ### Stored bindings under fixed key tables -/

section MadeByBind

variable {env : Collaborators} {store : BindingStore}

theorem mem_allBindings_bind {keystr line : String} {b : KeyBinding}
    (member : b ∈ (Store.bind env store keystr line).1.allBindings) :
    b ∈ store.allBindings ∨
      ∃ line, makeKeyBinding env b.boundWith line = some { b with bindingIndex := 0 } := by
  unfold Store.bind at member
  split at member
  · exact .inl member
  · next keyBinding made =>
    refine (mem_allBindings_addKeyBinding member).imp_right fun numbered => ?_
    subst numbered
    exact ⟨line, makeKeyBinding_reindex made _⟩

theorem StoreInvariant.mem_apply (invariant : StoreInvariant env store) {b : KeyBinding} :
    ∀ mutation : Mutation, b ∈ (mutation.apply env store).allBindings →
      b ∈ store.allBindings ∨
        ∃ line, makeKeyBinding env b.boundWith line = some { b with bindingIndex := 0 }
  | .bind _ _, member => mem_allBindings_bind member
  | .unBind keystr command, member =>
    .inl ((invariant.shrinks_unBind keystr command).sublist.subset member)
  | .unBindKeyset keystr, member =>
    .inl ((invariant.shrinks_unBindKeyset keystr).sublist.subset member)
  | .unBindAction command, member =>
    .inl ((invariant.shrinks_unBindAction command).sublist.subset member)
  | .unbindall, member =>
    .inr ((mem_allBindings_bind member).resolve_left
      (by simp [BindingStore.empty, BindingStore.allBindings]))

theorem Reachable.madeByBind (reachable : Reachable env store) :
    ∀ b ∈ store.allBindings,
      ∃ line, makeKeyBinding env b.boundWith line = some { b with bindingIndex := 0 } := by
  induction reachable with
  | empty => simp [BindingStore.empty, BindingStore.allBindings]
  | step mutation reached made =>
    exact fun b member => ((reachable_storeInvariant reached).mem_apply mutation member).elim
      (made b) id

end MadeByBind

/-! ### Reading a store that satisfies the invariant -/

theorem mem_allBindings_of_listOf {store : BindingStore} {ks : KeySet} {b : KeyBinding}
    (member : b ∈ store.listOf ks) : b ∈ store.allBindings := by
  unfold BindingStore.listOf at member
  cases found : (store.bindingsOf ks).find? ks with
  | none => simp [found] at member
  | some l =>
      rw [found, Option.getD_some] at member
      exact mem_allBindings_of_bindingsOf ((UnorderedMap.find?_eq_some_iff _ _ _).1 found) member

section Reading

variable {env : Collaborators} {store : BindingStore}

theorem StoreInvariant.eq_of_index_eq (invariant : StoreInvariant env store) {b b' : KeyBinding}
    (stored : b ∈ store.allBindings) (stored' : b' ∈ store.allBindings)
    (same : b.bindingIndex = b'.bindingIndex) : b = b' :=
  List.inj_on_of_nodup_map invariant.indicesNodup stored stored' same

theorem StoreInvariant.listOf (invariant : StoreInvariant env store) (ks : KeySet) :
    (store.listOf ks).Pairwise (·.bindingIndex < ·.bindingIndex) ∧
      ((store.listOf ks).map (·.action.line)).Nodup ∧
      ∀ b ∈ store.listOf ks, b.keyChain.back = ks :=
  UnorderedMap.find?_getD_of_forall _ ks []
    (fun l => l.Pairwise (·.bindingIndex < ·.bindingIndex) ∧ (l.map (·.action.line)).Nodup ∧
      ∀ b ∈ l, b.keyChain.back = ks)
    ⟨.nil, .nil, by simp⟩ fun _ stored =>
      have map := invariant.bindingsOf ks
      ⟨map.indexSorted _ _ stored, map.linesNodup _ _ stored, map.triggers _ _ stored⟩

end Reading

end RecoilKeyBindings.Invariants
