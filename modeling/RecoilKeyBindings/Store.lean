import RecoilKeyBindings.ChainParser
import RecoilKeyBindings.Maps

/-!
# The binding store and its mutators

`CKeyBindings` keeps one map per keyspace from a trigger key set to its bindings, and a
counter that numbers every binding it stores. This module transcribes `AddActionToKeyMap`,
`Bind`, `UnBind`, `UnBindKeyset`, `RemoveCommandFromList`, `RemoveActionFromKeyMap`,
`UnBindAction` and the store part of the `unbindall` command. Logging and the debug flag
are not modelled; `keyCodes.Reset()` only touches the key tables behind `Collaborators`.
-/

namespace RecoilKeyBindings.Store

open RecoilKeyBindings.Keys RecoilKeyBindings.ChainParser RecoilKeyBindings.Maps

set_option autoImplicit false

/-- `KeyMap`: trigger key set to its bindings in the order they were added. -/
abbrev KeyMap := UnorderedMap KeySet (List KeyBinding)

/-- The binding store of `CKeyBindings`: `codeBindings`, `scanBindings` and
`bindingsCount`, the last an unbounded counter. -/
structure BindingStore where
  codeBindings : KeyMap
  scanBindings : KeyMap
  bindingsCount : Nat

/-- The store after `Init`, and after `Kill` empties it. -/
def BindingStore.empty : BindingStore := ⟨.empty, .empty, 0⟩

def statefulCommands : List String :=
  ["drawinmap", "moveforward", "moveback", "moveright", "moveleft", "moveup", "movedown",
    "moveslow", "movefast", "movetilt", "movereset", "moverotate"]

namespace BindingStore

/-- `ks.IsKeyCode() ? codeBindings : scanBindings`. -/
def bindingsOf (store : BindingStore) (ks : KeySet) : KeyMap :=
  if ks.isKeyCode then store.codeBindings else store.scanBindings

def setBindingsOf (store : BindingStore) (ks : KeySet) (bindings : KeyMap) : BindingStore :=
  if ks.isKeyCode then { store with codeBindings := bindings }
  else { store with scanBindings := bindings }

/-- Every stored binding: the key-code map's lists, then the scan-code map's. -/
def allBindings (store : BindingStore) : List KeyBinding :=
  store.codeBindings.flatValues ++ store.scanBindings.flatValues

def listOf (store : BindingStore) (ks : KeySet) : List KeyBinding :=
  ((store.bindingsOf ks).find? ks).getD []

@[simp] theorem bindingsCount_empty : BindingStore.empty.bindingsCount = 0 := rfl

@[simp] theorem listOf_empty (ks : KeySet) : BindingStore.empty.listOf ks = [] := by
  unfold listOf bindingsOf
  split <;> rfl

@[simp] theorem bindingsOf_with_bindingsCount (store : BindingStore) (bindingsCount : Nat)
    (ks : KeySet) :
    ({ store with bindingsCount } : BindingStore).bindingsOf ks = store.bindingsOf ks := rfl

@[simp] theorem listOf_with_bindingsCount (store : BindingStore) (bindingsCount : Nat)
    (ks : KeySet) : ({ store with bindingsCount } : BindingStore).listOf ks = store.listOf ks := rfl

@[simp] theorem allBindings_with_bindingsCount (store : BindingStore) (bindingsCount : Nat) :
    ({ store with bindingsCount } : BindingStore).allBindings = store.allBindings := rfl

@[simp] theorem setBindingsOf_bindingsCount (store : BindingStore) (ks : KeySet)
    (bindings : KeyMap) : (store.setBindingsOf ks bindings).bindingsCount = store.bindingsCount := by
  unfold setBindingsOf; split <;> rfl

theorem setBindingsOf_codeBindings (store : BindingStore) (ks : KeySet) (bindings : KeyMap) :
    (store.setBindingsOf ks bindings).codeBindings =
      if ks.isKeyCode then bindings else store.codeBindings := by
  unfold setBindingsOf; split <;> rfl

theorem setBindingsOf_scanBindings (store : BindingStore) (ks : KeySet) (bindings : KeyMap) :
    (store.setBindingsOf ks bindings).scanBindings =
      if ks.isKeyCode then store.scanBindings else bindings := by
  unfold setBindingsOf; split <;> rfl

@[simp] theorem bindingsOf_setBindingsOf (store : BindingStore) (ks : KeySet) (bindings : KeyMap) :
    (store.setBindingsOf ks bindings).bindingsOf ks = bindings := by
  unfold setBindingsOf bindingsOf; split <;> simp_all

theorem bindingsOf_setBindingsOf_other (store : BindingStore) (ks ks' : KeySet)
    (bindings : KeyMap) :
    (store.setBindingsOf ks bindings).bindingsOf ks' =
      if ks'.isKeyCode = ks.isKeyCode then bindings else store.bindingsOf ks' := by
  unfold setBindingsOf bindingsOf
  cases ks.isKeyCode <;> cases ks'.isKeyCode <;> rfl

@[simp] theorem setBindingsOf_bindingsOf (store : BindingStore) (ks : KeySet) :
    store.setBindingsOf ks (store.bindingsOf ks) = store := by
  unfold setBindingsOf bindingsOf; split <;> rfl

end BindingStore

/-- `AddActionToKeyMap(bindings, keyBinding)` with the counter it increments: a binding whose
action line is already stored under its trigger key set is dropped, any other is numbered
`++bindingsCount` and appended. -/
def addActionToKeyMap (bindings : KeyMap) (bindingsCount : Nat) (keyBinding : KeyBinding) :
    KeyMap × Nat :=
  let ks := keyBinding.keyChain.back
  match bindings.find? ks with
  | none => (bindings.set ks [{ keyBinding with bindingIndex := bindingsCount + 1 }], bindingsCount + 1)
  | some keyBindingList =>
      if keyBindingList.any (·.action.line == keyBinding.action.line) then (bindings, bindingsCount)
      else
        (bindings.set ks (keyBindingList ++ [{ keyBinding with bindingIndex := bindingsCount + 1 }]),
          bindingsCount + 1)

theorem addActionToKeyMap_eq (bindings : KeyMap) (bindingsCount : Nat) (keyBinding : KeyBinding) :
    addActionToKeyMap bindings bindingsCount keyBinding =
      let keyBindingList := (bindings.find? keyBinding.keyChain.back).getD []
      if keyBindingList.any (·.action.line == keyBinding.action.line) then (bindings, bindingsCount)
      else
        (bindings.set keyBinding.keyChain.back
            (keyBindingList ++ [{ keyBinding with bindingIndex := bindingsCount + 1 }]),
          bindingsCount + 1) := by
  simp only [addActionToKeyMap]
  cases bindings.find? keyBinding.keyChain.back <;> simp

/-- Whether the list of the binding's trigger key set holds its action line already: the test
of `AddActionToKeyMap`. -/
def lineBound (store : BindingStore) (keyBinding : KeyBinding) : Bool :=
  (store.listOf keyBinding.keyChain.back).any (·.action.line == keyBinding.action.line)

/-- The binding `Bind(keystr, line)` hands to `AddActionToKeyMap`, or `none` where `Bind`
returns `false`: an empty command, or a shortcut that does not parse to a chain. The trigger
chord of a stateful command gets the wildcard bit. -/
def makeKeyBinding (env : Collaborators) (keystr line : String) : Option KeyBinding :=
  let action := env.action line
  if action.command = "" then none
  else
    match parseShortcut env keystr with
    | none => none
    | some keySets =>
        if empty : keySets = [] then none
        else
          let keyChain : KeyChain := ⟨keySets, empty⟩
          let keyChain :=
            if action.command ∈ statefulCommands then keyChain.modifyBack KeySet.setAnyBit
            else keyChain
          some { action, keyChain, boundWith := keystr, bindingIndex := 0 }

/-- `AddActionToKeyMap` on the map of the trigger chord's keyspace. -/
def addKeyBinding (store : BindingStore) (keyBinding : KeyBinding) : BindingStore :=
  let ks := keyBinding.keyChain.back
  let (bindings, bindingsCount) :=
    addActionToKeyMap (store.bindingsOf ks) store.bindingsCount keyBinding
  { store.setBindingsOf ks bindings with bindingsCount }

theorem listOf_addKeyBinding (store : BindingStore) (keyBinding : KeyBinding) (ks : KeySet) :
    (addKeyBinding store keyBinding).listOf ks =
      if lineBound store keyBinding = false ∧ ks = keyBinding.keyChain.back then
        store.listOf ks ++ [{ keyBinding with bindingIndex := store.bindingsCount + 1 }]
      else store.listOf ks := by
  simp only [addKeyBinding, addActionToKeyMap_eq]
  by_cases bound : lineBound store keyBinding = true
  · have found := bound
    simp only [lineBound, BindingStore.listOf] at found
    simp [found, bound]
  · simp only [lineBound, BindingStore.listOf, Bool.not_eq_true] at bound
    simp only [bound, Bool.false_eq_true, if_false, BindingStore.listOf_with_bindingsCount]
    simp only [BindingStore.listOf, BindingStore.bindingsOf_setBindingsOf_other]
    by_cases same : ks = keyBinding.keyChain.back
    · subst same
      simp [lineBound, BindingStore.listOf, bound]
    · have other : ¬(lineBound store keyBinding = false ∧ ks = keyBinding.keyChain.back) :=
        fun both => same both.2
      rw [if_neg other]
      split_ifs with sameSpace
      · rw [UnorderedMap.find?_set, if_neg same]
        unfold BindingStore.bindingsOf
        rw [sameSpace]
      · rfl

@[simp] theorem bindingsCount_addKeyBinding (store : BindingStore) (keyBinding : KeyBinding) :
    (addKeyBinding store keyBinding).bindingsCount =
      if lineBound store keyBinding then store.bindingsCount else store.bindingsCount + 1 := by
  simp only [addKeyBinding, addActionToKeyMap_eq, lineBound, BindingStore.listOf]
  split_ifs <;> simp

def bind (env : Collaborators) (store : BindingStore) (keystr line : String) :
    BindingStore × Bool :=
  match makeKeyBinding env keystr line with
  | none => (store, false)
  | some keyBinding => (addKeyBinding store keyBinding, true)

/-- `RemoveCommandFromList`: the list without the bindings of `command`, and whether there
were any. -/
def removeCommandFromList (keyBindingList : List KeyBinding) (command : String) :
    List KeyBinding × Bool :=
  (keyBindingList.filter (·.action.command != command),
    keyBindingList.any (·.action.command == command))

/-- `CKeyBindings::UnBind`: the list of the parsed key set loses the bindings of `command`,
and is erased once empty. -/
def unBind (env : Collaborators) (store : BindingStore) (keystr command : String) :
    BindingStore × Bool :=
  match env.parse keystr with
  | none => (store, false)
  | some ks =>
      let bindings := store.bindingsOf ks
      match bindings.find? ks with
      | none => (store, false)
      | some keyBindingList =>
          let removed := removeCommandFromList keyBindingList command
          let bindings := bindings.set ks removed.1
          let bindings := if removed.1.isEmpty then bindings.erase ks else bindings
          (store.setBindingsOf ks bindings, removed.2)

theorem unBind_spec (env : Collaborators) (store : BindingStore) {keystr : String} {ks : KeySet}
    (parsed : env.parse keystr = some ks) (command : String) :
    (unBind env store keystr command).2 = (store.listOf ks).any (·.action.command == command) ∧
      (unBind env store keystr command).1.listOf ks =
        (store.listOf ks).filter (·.action.command != command) := by
  unfold unBind BindingStore.listOf
  simp only [parsed]
  cases found : (store.bindingsOf ks).find? ks with
  | none => simp [BindingStore.listOf, found]
  | some keyBindingList =>
      simp only [removeCommandFromList, Option.getD_some, true_and, BindingStore.listOf,
        BindingStore.bindingsOf_setBindingsOf]
      split_ifs with emptied
      · simpa [List.isEmpty_iff] using emptied.symm
      · simp

theorem listOf_unBind_of_ne (env : Collaborators) (store : BindingStore) {keystr : String}
    {ks ks' : KeySet} (parsed : env.parse keystr = some ks) (command : String) (other : ks' ≠ ks) :
    (unBind env store keystr command).1.listOf ks' = store.listOf ks' := by
  unfold unBind BindingStore.listOf
  simp only [parsed]
  cases found : (store.bindingsOf ks).find? ks with
  | none => rfl
  | some keyBindingList =>
      simp only [BindingStore.bindingsOf_setBindingsOf_other]
      split_ifs with sameSpace <;>
        simp [other, BindingStore.bindingsOf, sameSpace]

def unBindKeyset (env : Collaborators) (store : BindingStore) (keystr : String) :
    BindingStore × Bool :=
  match env.parse keystr with
  | none => (store, false)
  | some ks =>
      let bindings := store.bindingsOf ks
      match bindings.find? ks with
      | none => (store, false)
      | some _ => (store.setBindingsOf ks (bindings.erase ks), true)

theorem unBindKeyset_spec (env : Collaborators) (store : BindingStore) {keystr : String}
    {ks : KeySet} (parsed : env.parse keystr = some ks) :
    (unBindKeyset env store keystr).2 = ((store.bindingsOf ks).find? ks).isSome ∧
      ((unBindKeyset env store keystr).1.bindingsOf ks).find? ks = none := by
  unfold unBindKeyset
  simp only [parsed]
  cases found : (store.bindingsOf ks).find? ks <;> simp [found]

/-- `RemoveActionFromKeyMap(command, bindings)`: every list loses the bindings of `command`,
lists left empty are erased, and the result says whether any binding was removed. -/
def removeActionFromKeyMap (command : String) (bindings : KeyMap) : KeyMap × Bool :=
  (bindings.updateAll fun _ keyBindingList =>
      let keyBindingList := (removeCommandFromList keyBindingList command).1
      if keyBindingList.isEmpty then none else some keyBindingList,
    bindings.values.any fun keyBindingList => (removeCommandFromList keyBindingList command).2)

/-- `CKeyBindings::UnBindAction`: `RemoveActionFromKeyMap(command, codeBindings) ||
RemoveActionFromKeyMap(command, scanBindings)`. The scan-code map is only visited when the
key-code map held no binding of `command`. -/
def unBindAction (store : BindingStore) (command : String) : BindingStore × Bool :=
  let code := removeActionFromKeyMap command store.codeBindings
  if code.2 then ({ store with codeBindings := code.1 }, true)
  else
    let scan := removeActionFromKeyMap command store.scanBindings
    ({ store with codeBindings := code.1, scanBindings := scan.1 }, scan.2)

/-- The store after the `unbindall` command, whatever it was before: both maps cleared, the
counter reset, and `Bind("enter", "chat")` as the bare minimum. -/
def unbindall (env : Collaborators) : BindingStore :=
  (bind env BindingStore.empty "enter" "chat").1

end RecoilKeyBindings.Store
