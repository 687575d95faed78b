import RecoilKeyBindings.Invariants

/-!
# Laws of the mutators

A failed call leaves the store as it was; `UnBindAction` stops after the key-code map once
that map held the command; `UnBind` with the shortcut text `Bind` was given undoes the bind
unless `Bind` forced the wildcard bit; and binding a sequence twice is binding it once.
-/

namespace RecoilKeyBindings.MutatorLaws

open RecoilKeyBindings.Keys RecoilKeyBindings.ChainParser RecoilKeyBindings.Maps
open RecoilKeyBindings.Store RecoilKeyBindings.Invariants

set_option autoImplicit false

/-- A small key table for concrete runs: `a`, `up` and `enter` as key codes, `sc_a` as the
scan code of `a`, and actions whose command is their whole line. The table has no user
symbols. -/
def exampleCollaborators : Collaborators where
  parseWith _ keystr :=
    if keystr = "a" then some ⟨97, 0#8, .keyCode⟩
    else if keystr = "sc_a" then some ⟨4, 0#8, .scanCode⟩
    else if keystr = "up" then some ⟨1073741906, 0#8, .keyCode⟩
    else if keystr = "enter" then some ⟨13, 0#8, .keyCode⟩
    else none
  fit _ _ := true
  action line := ⟨line, "", line, line⟩
  commaCodeWith _ := 44
  acceptsKeySymbol _ _ _ _ := true
  keyFiles _ := []
  tokenize line _ := ((line.data.splitOn ' ').filter (· ≠ [])).map String.mk
  toLower s := s
  keyNameWith _ _ := ""
  saveUserKeySymbols _ := []
  unitComment _ := ""
  keyTables := .builtIn

theorem bind_of_made {env : Collaborators} {store : BindingStore} {keystr line : String}
    {keyBinding : KeyBinding} (made : makeKeyBinding env keystr line = some keyBinding) :
    bind env store keystr line = (addKeyBinding store keyBinding, true) := by
  simp [Store.bind, made]

/-! ## Concrete bindings and stores -/

def exampleBindingA : KeyBinding :=
  ⟨⟨"attack", "", "attack", "attack"⟩, .single ⟨97, 0#8, .keyCode⟩, "a", 0⟩

def exampleBindingScA : KeyBinding :=
  ⟨⟨"attack", "", "attack", "attack"⟩, .single ⟨4, 0#8, .scanCode⟩, "sc_a", 0⟩

def exampleBindingAJump : KeyBinding :=
  ⟨⟨"jump", "", "jump", "jump"⟩, .single ⟨97, 0#8, .keyCode⟩, "a", 0⟩

/-- `moveforward` is stateful, so `Bind("up", "moveforward")` stores it under `Any+up`. -/
def exampleBindingUp : KeyBinding :=
  ⟨⟨"moveforward", "", "moveforward", "moveforward"⟩, .single ⟨1073741906, 0x10#8, .keyCode⟩,
    "up", 0⟩

theorem makeKeyBinding_a_attack :
    makeKeyBinding exampleCollaborators "a" "attack" = some exampleBindingA := by
  simp only [makeKeyBinding]
  rw [parseShortcut_of_plain _ _ (by decide) (by decide) (by decide)]
  decide

theorem makeKeyBinding_sc_a_attack :
    makeKeyBinding exampleCollaborators "sc_a" "attack" = some exampleBindingScA := by
  simp only [makeKeyBinding]
  rw [parseShortcut_of_plain _ _ (by decide) (by decide) (by decide)]
  decide

theorem makeKeyBinding_a_jump :
    makeKeyBinding exampleCollaborators "a" "jump" = some exampleBindingAJump := by
  simp only [makeKeyBinding]
  rw [parseShortcut_of_plain _ _ (by decide) (by decide) (by decide)]
  decide

theorem makeKeyBinding_up_moveforward :
    makeKeyBinding exampleCollaborators "up" "moveforward" = some exampleBindingUp := by
  simp only [makeKeyBinding]
  rw [parseShortcut_of_plain _ _ (by decide) (by decide) (by decide)]
  decide

/-- `attack` bound to the key code and to the scan code of `a`. -/
def attackStore : BindingStore :=
  addKeyBinding (addKeyBinding .empty exampleBindingA) exampleBindingScA

theorem reachable_attack_store : Reachable exampleCollaborators attackStore := by
  have reached := @Reachable.step exampleCollaborators _ (.bind "sc_a" "attack")
    (.step (.bind "a" "attack") .empty)
  simpa only [Mutation.apply, bind_of_made makeKeyBinding_a_attack,
    bind_of_made makeKeyBinding_sc_a_attack] using reached

section Failure

variable {env : Collaborators} {store : BindingStore}

theorem bind_failed (keystr line : String) (failed : (bind env store keystr line).2 = false) :
    (bind env store keystr line).1 = store := by
  unfold Store.bind at failed ⊢
  split
  · rfl
  · next made => simp [made] at failed

theorem unBindKeyset_failed (keystr : String)
    (failed : (unBindKeyset env store keystr).2 = false) :
    (unBindKeyset env store keystr).1 = store := by
  unfold Store.unBindKeyset at failed ⊢
  split
  · rfl
  · next ks parsed =>
      simp only [parsed] at failed
      dsimp only
      split
      · rfl
      · next found => simp [found] at failed

theorem removeCommandFromList_of_not_removed (keyBindingList : List KeyBinding) (command : String)
    (kept : (removeCommandFromList keyBindingList command).2 = false) :
    (removeCommandFromList keyBindingList command).1 = keyBindingList := by
  simp only [removeCommandFromList, List.any_eq_false, beq_iff_eq] at kept ⊢
  exact List.filter_eq_self.2 fun b member => by simpa using kept b member

theorem removeActionFromKeyMap_of_not_removed {bindings : KeyMap}
    (nonempty : ∀ k l, (k, l) ∈ bindings.entries → l ≠ []) (command : String)
    (kept : (removeActionFromKeyMap command bindings).2 = false) :
    (removeActionFromKeyMap command bindings).1 = bindings := by
  simp only [removeActionFromKeyMap, List.any_eq_false, UnorderedMap.values] at kept ⊢
  refine UnorderedMap.updateAll_of_forall _ _ fun k l stored => ?_
  have unchanged := removeCommandFromList_of_not_removed l command
    (by simpa using kept l (List.mem_map.2 ⟨(k, l), stored, rfl⟩))
  simp [unchanged, List.isEmpty_iff, nonempty k l stored]

theorem unBind_failed (invariant : StoreInvariant env store) (keystr command : String)
    (failed : (unBind env store keystr command).2 = false) :
    (unBind env store keystr command).1 = store := by
  unfold Store.unBind at failed ⊢
  split
  · rfl
  · next ks parsed =>
      simp only [parsed] at failed
      dsimp only
      split
      · rfl
      · next keyBindingList found =>
          simp only [found] at failed
          have stored := (UnorderedMap.find?_eq_some_iff _ _ _).1 found
          have nonempty : keyBindingList.isEmpty = false := by
            simpa [List.isEmpty_iff] using (invariant.bindingsOf ks).nonempty ks keyBindingList stored
          simp only [removeCommandFromList_of_not_removed keyBindingList command failed,
            UnorderedMap.set_of_mem _ _ _ stored, nonempty, Bool.false_eq_true, if_false,
            BindingStore.setBindingsOf_bindingsOf]

theorem unBindAction_failed (invariant : StoreInvariant env store) (command : String)
    (failed : (unBindAction store command).2 = false) : (unBindAction store command).1 = store := by
  simp only [Store.unBindAction] at failed ⊢
  split_ifs at failed ⊢ with removedCode
  rw [removeActionFromKeyMap_of_not_removed invariant.code.nonempty command
      (by simpa using removedCode),
    removeActionFromKeyMap_of_not_removed invariant.scan.nonempty command failed]

end Failure

/-- In every reachable store, a call of `Bind`, `UnBind`, `UnBindKeyset` or `UnBindAction`
that returns `false` leaves the maps and the counter as they were. -/
theorem failed_mutators_leave_store (env : Collaborators) (store : BindingStore)
    (reachable : Reachable env store) :
    (∀ keystr line, (bind env store keystr line).2 = false →
      (bind env store keystr line).1 = store) ∧
    (∀ keystr command, (unBind env store keystr command).2 = false →
      (unBind env store keystr command).1 = store) ∧
    (∀ keystr, (unBindKeyset env store keystr).2 = false →
      (unBindKeyset env store keystr).1 = store) ∧
    (∀ command, (unBindAction store command).2 = false →
      (unBindAction store command).1 = store) :=
  have invariant := reachable_storeInvariant reachable
  ⟨bind_failed, unBind_failed invariant, unBindKeyset_failed, unBindAction_failed invariant⟩

theorem failed_mutators_leave_attack_store :
    Reachable exampleCollaborators attackStore ∧
      (∀ keystr line, (bind exampleCollaborators attackStore keystr line).2 = false →
        (bind exampleCollaborators attackStore keystr line).1 = attackStore) ∧
      (∀ keystr command, (unBind exampleCollaborators attackStore keystr command).2 = false →
        (unBind exampleCollaborators attackStore keystr command).1 = attackStore) ∧
      (∀ keystr, (unBindKeyset exampleCollaborators attackStore keystr).2 = false →
        (unBindKeyset exampleCollaborators attackStore keystr).1 = attackStore) ∧
      (∀ command, (unBindAction attackStore command).2 = false →
        (unBindAction attackStore command).1 = attackStore) :=
  ⟨reachable_attack_store,
    failed_mutators_leave_store exampleCollaborators attackStore reachable_attack_store⟩

/-! ## `UnBindAction` and the short-circuit `||` -/

theorem removeActionFromKeyMap_removes (bindings : KeyMap) (command : String) :
    ∀ b ∈ (removeActionFromKeyMap command bindings).1.flatValues, b.action.command ≠ command := by
  intro b member
  obtain ⟨k, l', stored, inList⟩ := (UnorderedMap.mem_flatValues _ _).1 member
  obtain ⟨l, -, kept⟩ := (UnorderedMap.mem_updateAll _ _ _ _).1 stored
  simp only [removeCommandFromList] at kept
  split_ifs at kept
  cases kept
  simpa using (List.mem_filter.1 inList).2

theorem unBindAction_removes (store : BindingStore) (command : String) :
    (∀ b ∈ (unBindAction store command).1.codeBindings.flatValues, b.action.command ≠ command) ∧
      ((removeActionFromKeyMap command store.codeBindings).2 = false →
        ∀ b ∈ (unBindAction store command).1.scanBindings.flatValues,
          b.action.command ≠ command) := by
  simp only [Store.unBindAction]
  split_ifs with removedCode
  · exact ⟨removeActionFromKeyMap_removes _ _, fun noneRemoved => by
      simp [removedCode] at noneRemoved⟩
  · exact ⟨removeActionFromKeyMap_removes _ _, fun _ => removeActionFromKeyMap_removes _ _⟩

/-- `attack` bound to the key code and to the scan code of `a`: `UnBindAction("attack")`
reports success after the key-code map and leaves the scan-code binding in place. -/
theorem unBindAction_keeps_scan_binding :
    Reachable exampleCollaborators (addKeyBinding (addKeyBinding .empty exampleBindingA)
        exampleBindingScA) ∧
      (unBindAction (addKeyBinding (addKeyBinding .empty exampleBindingA) exampleBindingScA)
        "attack").2 = true ∧
      ∃ b ∈ (unBindAction (addKeyBinding (addKeyBinding .empty exampleBindingA)
          exampleBindingScA) "attack").1.scanBindings.flatValues,
        b.action.command = "attack" :=
  ⟨reachable_attack_store, by decide⟩

/-! ## `UnBind` after `Bind` -/

theorem addKeyBinding_of_lineBound (store : BindingStore) (keyBinding : KeyBinding)
    (bound : lineBound store keyBinding = true) : addKeyBinding store keyBinding = store := by
  have found := bound
  simp only [lineBound, BindingStore.listOf] at found
  simp [Store.addKeyBinding, addActionToKeyMap_eq, found]

theorem lineBound_addKeyBinding (store : BindingStore) (keyBinding other : KeyBinding)
    (bound : lineBound store other = true ∨ other = keyBinding) :
    lineBound (addKeyBinding store keyBinding) other = true := by
  unfold lineBound at bound ⊢
  rw [listOf_addKeyBinding]
  split_ifs with added
  · rcases bound with bound | rfl
    · simp [bound]
    · simp
  · rcases bound with bound | rfl
    · exact bound
    · unfold lineBound at added
      simpa using added

theorem made_of_bind {env : Collaborators} {store : BindingStore} {keystr line : String}
    (bound : (bind env store keystr line).2 = true) :
    ∃ keyBinding, makeKeyBinding env keystr line = some keyBinding := by
  unfold Store.bind at bound
  split at bound
  · cases bound
  · next keyBinding made => exact ⟨keyBinding, made⟩

theorem makeKeyBinding_back {env : Collaborators} {keystr line : String} {ks : KeySet}
    {keyBinding : KeyBinding} (chain : parseShortcut env keystr = some [ks])
    (made : makeKeyBinding env keystr line = some keyBinding) :
    keyBinding.keyChain.back =
      if (env.action line).command ∈ statefulCommands then ks.setAnyBit else ks := by
  simp only [makeKeyBinding, chain] at made
  split_ifs at made <;> cases made <;> simp_all

/-- `moveforward` is stateful, so `Bind("up", "moveforward")` stores it under `Any+up`, and
`UnBind("up", "moveforward")` looks under `up` and fails. -/
theorem unBind_misses_wildcard_bind :
    Reachable exampleCollaborators .empty ∧
      parseShortcut exampleCollaborators "up" = some [⟨1073741906, 0#8, .keyCode⟩] ∧
      exampleCollaborators.parse "up" = some ⟨1073741906, 0#8, .keyCode⟩ ∧
      (bind exampleCollaborators .empty "up" "moveforward").2 = true ∧
      (unBind exampleCollaborators (bind exampleCollaborators .empty "up" "moveforward").1 "up"
        "moveforward").2 = false := by
  refine ⟨.empty, by rw [parseShortcut_of_plain _ _ (by decide) (by decide) (by decide)]; rfl,
    rfl, ?_⟩
  simp only [bind_of_made makeKeyBinding_up_moveforward]
  decide

/-- After a successful `Bind(keystr, line)` the list of the new binding's trigger holds a
binding of the command of `line` (the new one, or the one of the same line that kept it out),
when the command of an action is determined by its line. -/
theorem command_listed_of_made {env : Collaborators} {store : BindingStore}
    (reachable : Reachable env store) {keystr line : String} {keyBinding : KeyBinding}
    (made : makeKeyBinding env keystr line = some keyBinding)
    (commandOfLine : ∀ other, (env.action other).line = (env.action line).line →
      (env.action other).command = (env.action line).command) :
    ∃ b ∈ (addKeyBinding store keyBinding).listOf keyBinding.keyChain.back,
      b.action.command = (env.action line).command := by
  obtain ⟨-, action, -⟩ := makeKeyBinding_spec made
  have storeBound : Reachable env (addKeyBinding store keyBinding) := by
    simpa [Mutation.apply, bind_of_made made] using Reachable.step (.bind keystr line) reachable
  have lineThere := lineBound_addKeyBinding store keyBinding keyBinding (.inr rfl)
  simp only [lineBound, List.any_eq_true, beq_iff_eq] at lineThere
  obtain ⟨b, member, sameLine⟩ := lineThere
  obtain ⟨other, remade⟩ := storeBound.madeByBind b (mem_allBindings_of_listOf member)
  have otherAction := (makeKeyBinding_spec remade).2.1
  simp only at otherAction
  rw [otherAction] at sameLine
  exact ⟨b, member, otherAction ▸ commandOfLine other (sameLine.trans (congrArg Action.line action))⟩

/-- `UnBind` with the shortcut text a successful `Bind` was given finds the bound command and
drops it from the list `Bind` used, and `UnBindKeyset` with that text erases the list, when
`Bind` did not move the binding to the wildcard key set and the command of an action is
determined by its line. -/
theorem unBind_undoes_bind {env : Collaborators} {store : BindingStore}
    (reachable : Reachable env store) {keystr line : String} {ks : KeySet}
    (chain : parseShortcut env keystr = some [ks]) (parsed : env.parse keystr = some ks)
    (notForced : (env.action line).command ∉ statefulCommands ∨ ks.setAnyBit = ks)
    (commandOfLine : ∀ other, (env.action other).line = (env.action line).line →
      (env.action other).command = (env.action line).command)
    (bound : (bind env store keystr line).2 = true) :
    (unBind env (bind env store keystr line).1 keystr (env.action line).command).2 = true ∧
      (∀ b ∈ (unBind env (bind env store keystr line).1 keystr (env.action line).command).1.listOf
        ks, b.action.command ≠ (env.action line).command) ∧
      (unBindKeyset env (bind env store keystr line).1 keystr).2 = true ∧
      ((unBindKeyset env (bind env store keystr line).1 keystr).1.bindingsOf ks).find? ks =
        none := by
  obtain ⟨keyBinding, made⟩ := made_of_bind bound
  have trigger : keyBinding.keyChain.back = ks := by
    rw [makeKeyBinding_back chain made]
    rcases notForced with plain | wildcard
    · simp [plain]
    · simp [wildcard]
  obtain ⟨b, member, command⟩ := command_listed_of_made reachable made commandOfLine
  rw [trigger] at member
  have listed : ((addKeyBinding store keyBinding).bindingsOf ks).find? ks ≠ none := by
    intro absent
    simp [BindingStore.listOf, absent] at member
  obtain ⟨removed, kept⟩ := unBind_spec env (addKeyBinding store keyBinding) parsed
    (env.action line).command
  obtain ⟨erased, gone⟩ := unBindKeyset_spec env (addKeyBinding store keyBinding) parsed
  simp only [bind_of_made made]
  refine ⟨?_, ?_, ?_, gone⟩
  · rw [removed, List.any_eq_true]
    exact ⟨b, member, by simp [command]⟩
  · intro b' kept'
    rw [kept] at kept'
    simpa using (List.mem_filter.1 kept').2
  · rw [erased]
    exact Option.ne_none_iff_isSome.1 listed

theorem unBind_undoes_bind_of_attack :
    Reachable exampleCollaborators attackStore ∧
      parseShortcut exampleCollaborators "a" = some [⟨97, 0#8, .keyCode⟩] ∧
      exampleCollaborators.parse "a" = some ⟨97, 0#8, .keyCode⟩ ∧
      ((exampleCollaborators.action "jump").command ∉ statefulCommands ∨
        (⟨97, 0#8, .keyCode⟩ : KeySet).setAnyBit = ⟨97, 0#8, .keyCode⟩) ∧
      (∀ other, (exampleCollaborators.action other).line =
          (exampleCollaborators.action "jump").line →
        (exampleCollaborators.action other).command =
          (exampleCollaborators.action "jump").command) ∧
      (bind exampleCollaborators attackStore "a" "jump").2 = true ∧
      (unBind exampleCollaborators (bind exampleCollaborators attackStore "a" "jump").1 "a"
        "jump").2 = true ∧
      (∀ b ∈ (unBind exampleCollaborators (bind exampleCollaborators attackStore "a" "jump").1 "a"
          "jump").1.listOf ⟨97, 0#8, .keyCode⟩, b.action.command ≠ "jump") ∧
      (unBindKeyset exampleCollaborators (bind exampleCollaborators attackStore "a" "jump").1
        "a").2 = true ∧
      ((unBindKeyset exampleCollaborators (bind exampleCollaborators attackStore "a" "jump").1
        "a").1.bindingsOf ⟨97, 0#8, .keyCode⟩).find? ⟨97, 0#8, .keyCode⟩ = none := by
  have chain : parseShortcut exampleCollaborators "a" = some [⟨97, 0#8, .keyCode⟩] := by
    rw [parseShortcut_of_plain _ _ (by decide) (by decide) (by decide)]; rfl
  have notForced : (exampleCollaborators.action "jump").command ∉ statefulCommands := by decide
  have bound : (bind exampleCollaborators attackStore "a" "jump").2 = true := by
    simp [bind_of_made makeKeyBinding_a_jump]
  exact ⟨reachable_attack_store, chain, rfl, .inl notForced, fun _ same => same, bound,
    unBind_undoes_bind reachable_attack_store chain rfl (.inl notForced) (fun _ same => same)
      bound⟩

/-! ## Binding twice -/

/-- `Bind` applied to every pair in order, as `LoadDefaults` and a key file of bind lines do. -/
def bindAll (env : Collaborators) (store : BindingStore) (pairs : List (String × String)) :
    BindingStore :=
  pairs.foldl (fun store pair => (bind env store pair.1 pair.2).1) store

theorem bindAll_cons (env : Collaborators) (store : BindingStore) (pair : String × String)
    (rest : List (String × String)) :
    bindAll env store (pair :: rest) = bindAll env (bind env store pair.1 pair.2).1 rest := rfl

theorem lineBound_bindAll_of_lineBound (env : Collaborators) (pairs : List (String × String))
    (store : BindingStore) (keyBinding : KeyBinding) (bound : lineBound store keyBinding = true) :
    lineBound (bindAll env store pairs) keyBinding = true := by
  induction pairs generalizing store with
  | nil => exact bound
  | cons pair rest induction =>
      rw [bindAll_cons]
      apply induction
      unfold Store.bind
      split
      · exact bound
      · exact lineBound_addKeyBinding _ _ _ (.inl bound)

theorem lineBound_bindAll (env : Collaborators) (pairs : List (String × String))
    (store : BindingStore) : ∀ pair ∈ pairs, ∀ keyBinding,
      makeKeyBinding env pair.1 pair.2 = some keyBinding →
        lineBound (bindAll env store pairs) keyBinding = true := by
  induction pairs generalizing store with
  | nil => simp
  | cons pair rest induction =>
      intro bound member keyBinding made
      rw [bindAll_cons]
      rcases List.mem_cons.1 member with rfl | later
      · apply lineBound_bindAll_of_lineBound
        rw [bind_of_made made]
        exact lineBound_addKeyBinding _ _ _ (.inr rfl)
      · exact induction _ bound later keyBinding made

theorem bindAll_of_lineBound (env : Collaborators) (pairs : List (String × String))
    (store : BindingStore) (bound : ∀ pair ∈ pairs, ∀ keyBinding,
      makeKeyBinding env pair.1 pair.2 = some keyBinding → lineBound store keyBinding = true) :
    bindAll env store pairs = store := by
  induction pairs with
  | nil => rfl
  | cons pair rest induction =>
      have unchanged : (bind env store pair.1 pair.2).1 = store := by
        unfold Store.bind
        split
        · rfl
        · next keyBinding made =>
            exact addKeyBinding_of_lineBound _ _ (bound pair (List.mem_cons_self _ _) keyBinding made)
      rw [bindAll_cons, unchanged]
      exact induction fun other member => bound other (List.mem_cons_of_mem _ member)

/-- From any store, binding a sequence of pairs a second time leaves the maps and the counter
as the first pass left them. -/
theorem bindAll_bindAll (env : Collaborators) (store : BindingStore)
    (pairs : List (String × String)) :
    bindAll env (bindAll env store pairs) pairs = bindAll env store pairs :=
  bindAll_of_lineBound env pairs _ (lineBound_bindAll env pairs store)

end RecoilKeyBindings.MutatorLaws
