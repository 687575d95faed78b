import RecoilKeyBindings.Commands

/-!
# Saving the bindings and replaying them

`FileSave` writes `unbindall`, `unbind enter chat` and then one `bind` line per binding of
`GetKeyBindingList()`, in index order. Replaying those lines gives back every list of the saved
store, whatever state the replay starts from: the two commands leave both maps empty, and
binding in index order appends every binding to the list of its trigger after the bindings of
that list that come before it, with the next value of the counter. Only the indices change, by
a map that keeps their order: the counter the replay starts from plus the rank of the index.
-/

namespace RecoilKeyBindings.RoundTrip

open RecoilKeyBindings.Keys RecoilKeyBindings.ChainParser RecoilKeyBindings.Maps
open RecoilKeyBindings.Store RecoilKeyBindings.Invariants RecoilKeyBindings.MutatorLaws
open RecoilKeyBindings.Resolution RecoilKeyBindings.Commands

set_option autoImplicit false

/-- The `bind` lines of `FileSave`, as the (shortcut, action line) pairs they hold. -/
def savedBindings (store : BindingStore) : List (String × String) :=
  (getKeyBindingList store).map fun b => (b.boundWith, b.action.rawline)

def renameIndex (rename : Nat → Nat) (b : KeyBinding) : KeyBinding :=
  { b with bindingIndex := rename b.bindingIndex }

/-- The index the replay gives to the saved binding of index `i`, the counter having reached
`start`: `start` plus the rank of `i` among the saved indices. -/
def replayIndex (store : BindingStore) (start i : Nat) : Nat :=
  start + (getKeyBindingList store).countP (·.bindingIndex ≤ i)

/-! ### Reading a store through its lists -/

section Lists

variable {env : Collaborators} {store : BindingStore}

theorem mem_listOf_of_mem_allBindings (invariant : StoreInvariant env store) {b : KeyBinding}
    (stored : b ∈ store.allBindings) : b ∈ store.listOf b.keyChain.back := by
  have ofMap : ∀ {keyCode : Bool} {bindings : KeyMap}, MapInvariant keyCode bindings →
      (∀ ks : KeySet, ks.isKeyCode = keyCode → store.bindingsOf ks = bindings) →
      b ∈ bindings.flatValues → b ∈ store.listOf b.keyChain.back := by
    intro keyCode bindings map ofKeySet flat
    obtain ⟨k, l, entry, member⟩ := (UnorderedMap.mem_flatValues _ _).1 flat
    rw [map.triggers k l entry b member, BindingStore.listOf, ofKeySet k (map.keyspace k l entry),
      (UnorderedMap.find?_eq_some_iff _ _ _).2 entry]
    exact member
  rcases List.mem_append.1 stored with flat | flat
  · exact ofMap invariant.code (fun ks code => by simp [BindingStore.bindingsOf, code]) flat
  · exact ofMap invariant.scan (fun ks scan => by simp [BindingStore.bindingsOf, scan]) flat

theorem find?_eq_none_of_keyspace {keyCode : Bool} {bindings : KeyMap}
    (map : MapInvariant keyCode bindings) {ks : KeySet} (other : ks.isKeyCode ≠ keyCode) :
    bindings.find? ks = none :=
  (UnorderedMap.find?_eq_none_iff _ _).2 fun l entry => other (map.keyspace ks l entry)

theorem find?_eq_of_getD {keyCode : Bool} {bindings bindings' : KeyMap}
    (map : MapInvariant keyCode bindings) (map' : MapInvariant keyCode bindings')
    {g : KeyBinding → KeyBinding} (ks : KeySet)
    (lists : (bindings'.find? ks).getD [] = ((bindings.find? ks).getD []).map g) :
    bindings'.find? ks = (bindings.find? ks).map (·.map g) := by
  have stored : ∀ {m : KeyMap} {keyCode : Bool}, MapInvariant keyCode m → ∀ l, m.find? ks = some l →
      l ≠ [] := fun map l found =>
    map.nonempty ks l ((UnorderedMap.find?_eq_some_iff _ _ _).1 found)
  cases found : bindings.find? ks with
  | none =>
    cases found' : bindings'.find? ks with
    | none => rfl
    | some l' =>
      simp only [found, found', Option.getD_some, Option.getD_none, List.map_nil] at lists
      exact absurd lists (stored map' l' found')
  | some l =>
    cases found' : bindings'.find? ks with
    | none =>
      simp only [found, found', Option.getD_some, Option.getD_none] at lists
      exact absurd (by simpa using lists.symm) (stored map l found)
    | some l' =>
      simp only [found, found', Option.getD_some] at lists
      simp [lists]

theorem maps_of_listOf {env' : Collaborators} {S R : BindingStore}
    (invariant : StoreInvariant env S) (invariant' : StoreInvariant env' R)
    {g : KeyBinding → KeyBinding} (lists : ∀ ks, R.listOf ks = (S.listOf ks).map g) (ks : KeySet) :
    R.codeBindings.find? ks = (S.codeBindings.find? ks).map (·.map g) ∧
      R.scanBindings.find? ks = (S.scanBindings.find? ks).map (·.map g) := by
  have list := lists ks
  cases keyCode : ks.isKeyCode
  · rw [find?_eq_none_of_keyspace invariant.code (by simp [keyCode]),
      find?_eq_none_of_keyspace invariant'.code (by simp [keyCode])]
    exact ⟨rfl, find?_eq_of_getD invariant.scan invariant'.scan ks
      (by simpa [BindingStore.listOf, BindingStore.bindingsOf, keyCode] using list)⟩
  · rw [find?_eq_none_of_keyspace invariant.scan (by simp [keyCode]),
      find?_eq_none_of_keyspace invariant'.scan (by simp [keyCode])]
    exact ⟨find?_eq_of_getD invariant.code invariant'.code ks
      (by simpa [BindingStore.listOf, BindingStore.bindingsOf, keyCode] using list), rfl⟩

end Lists

/-! ### Replaying in index order -/

section Replay

variable {env : Collaborators} {S : BindingStore}

theorem makeKeyBinding_saved (reachable : Reachable env S) {b : KeyBinding}
    (stored : b ∈ S.allBindings) (reproduces : env.action b.action.rawline = b.action) :
    makeKeyBinding env b.boundWith b.action.rawline = some { b with bindingIndex := 0 } := by
  obtain ⟨line, made⟩ := reachable.madeByBind b stored
  have sameAction : env.action b.action.rawline = env.action line :=
    reproduces.trans (makeKeyBinding_spec made).2.1
  rw [← made]
  simp only [makeKeyBinding, sameAction]

theorem filter_mem_append_of_sorted {l done : List KeyBinding} {b : KeyBinding}
    (sorted : l.Pairwise (·.bindingIndex < ·.bindingIndex)) (member : b ∈ l) (notDone : b ∉ done)
    (before : ∀ x ∈ l, x ∈ done ↔ x.bindingIndex < b.bindingIndex) :
    l.filter (· ∈ done ++ [b]) = l.filter (· ∈ done) ++ [b] := by
  induction l with
  | nil => exact absurd member (List.not_mem_nil b)
  | cons x l ih =>
    obtain ⟨first, sorted⟩ := List.pairwise_cons.1 sorted
    by_cases same : x = b
    · subst same
      -- everything after `b` has a larger index, so it is neither in `done` nor `b`
      have after : ∀ y ∈ l, ¬ (y ∈ done ∨ y = x) := fun y mem inDone => by
        have larger := first y mem
        rcases inDone with inDone | rfl
        · exact absurd ((before y (List.mem_cons_of_mem _ mem)).1 inDone) (Nat.lt_asymm larger)
        · exact Nat.lt_irrefl _ larger
      have emptyAfter : l.filter (· ∈ done ++ [x]) = [] :=
        List.filter_eq_nil_iff.2 fun y mem => by simpa using after y mem
      have emptyBefore : l.filter (· ∈ done) = [] :=
        List.filter_eq_nil_iff.2 fun y mem => by simpa using fun inDone => after y mem (.inl inDone)
      rw [List.filter_cons_of_pos (by simp), List.filter_cons_of_neg (by simpa using notDone),
        emptyAfter, emptyBefore]
      rfl
    · have inRest : b ∈ l := (List.mem_cons.1 member).resolve_left (Ne.symm same)
      have inDone : x ∈ done := (before x (List.mem_cons_self _ _)).2 (first b inRest)
      rw [List.filter_cons_of_pos (by simpa using .inl inDone),
        List.filter_cons_of_pos (by simpa using inDone),
        ih sorted inRest fun y mem => before y (List.mem_cons_of_mem _ mem)]
      rfl

theorem mem_prefix_iff_lt {done rest : List KeyBinding} {b x : KeyBinding}
    (sorted : (done ++ b :: rest).Pairwise (·.bindingIndex < ·.bindingIndex))
    (mem : x ∈ done ++ b :: rest) : x ∈ done ↔ x.bindingIndex < b.bindingIndex := by
  obtain ⟨-, sortedRest, across⟩ := List.pairwise_append.1 sorted
  refine ⟨fun inDone => across x inDone b (List.mem_cons_self _ _), fun lt => ?_⟩
  rcases List.mem_append.1 mem with inDone | inRest
  · exact inDone
  · rcases List.mem_cons.1 inRest with rfl | later
    · exact absurd lt (Nat.lt_irrefl _)
    · exact absurd ((List.pairwise_cons.1 sortedRest).1 x later) (Nat.lt_asymm lt)

theorem replayIndex_of_saved {done rest : List KeyBinding} {b : KeyBinding}
    (sorted : (done ++ b :: rest).Pairwise (·.bindingIndex < ·.bindingIndex))
    (saved : done ++ b :: rest = getKeyBindingList S) (start : Nat) :
    replayIndex S start b.bindingIndex = start + done.length + 1 := by
  obtain ⟨sortedDone, sortedRest, across⟩ := List.pairwise_append.1 sorted
  have smaller : done.countP (·.bindingIndex ≤ b.bindingIndex) = done.length :=
    List.countP_eq_length.2 fun x mem => by
      simpa using Nat.le_of_lt (across x mem b (List.mem_cons_self _ _))
  have larger : rest.countP (·.bindingIndex ≤ b.bindingIndex) = 0 :=
    List.countP_eq_zero.2 fun x mem => by
      simpa using (List.pairwise_cons.1 sortedRest).1 x mem
  rw [replayIndex, ← saved, List.countP_append, List.countP_cons_of_pos _ _ (by simp), smaller,
    larger]
  omega

theorem replayIndex_lt (start : Nat) {b b' : KeyBinding}
    (stored' : b' ∈ S.allBindings) (lt : b.bindingIndex < b'.bindingIndex) :
    replayIndex S start b.bindingIndex < replayIndex S start b'.bindingIndex := by
  have sub : ((getKeyBindingList S).filter (·.bindingIndex ≤ b.bindingIndex)).Sublist
      ((getKeyBindingList S).filter (·.bindingIndex ≤ b'.bindingIndex)) :=
    List.monotone_filter_right _ fun x le => by simp at le ⊢; omega
  have counted : b' ∈ (getKeyBindingList S).filter (·.bindingIndex ≤ b'.bindingIndex) :=
    List.mem_filter.2 ⟨(getKeyBindingList_perm S).mem_iff.2 stored', by simp⟩
  simp only [replayIndex, List.countP_eq_length_filter, Nat.add_lt_add_iff_left]
  refine Nat.lt_of_le_of_ne sub.length_le fun same => ?_
  have inSmaller : b' ∈ (getKeyBindingList S).filter (·.bindingIndex ≤ b.bindingIndex) := by
    rw [sub.eq_of_length same]
    exact counted
  have : b'.bindingIndex ≤ b.bindingIndex := by simpa using (List.mem_filter.1 inSmaller).2
  omega

/-- Binding the saved bindings after `done`, in order, to a store that holds the lists of
`S` cut to `done` and renamed, gives the lists of `S` renamed. -/
theorem listOf_bindAll_saved (reachable : Reachable env S)
    (reproduces : ∀ b ∈ S.allBindings, env.action b.action.rawline = b.action) (start : Nat)
    (rest done : List KeyBinding) (saved : done ++ rest = getKeyBindingList S) (R : BindingStore)
    (count : R.bindingsCount = start + done.length)
    (lists : ∀ ks, R.listOf ks =
      ((S.listOf ks).filter (· ∈ done)).map (renameIndex (replayIndex S start))) (ks : KeySet) :
    (bindAll env R (rest.map fun b => (b.boundWith, b.action.rawline))).listOf ks =
      (S.listOf ks).map (renameIndex (replayIndex S start)) := by
  induction rest generalizing done R with
  | nil =>
    rw [List.append_nil] at saved
    have all : (S.listOf ks).filter (· ∈ done) = S.listOf ks := List.filter_eq_self.2 fun x mem => by
      simpa [saved, (getKeyBindingList_perm S).mem_iff] using mem_allBindings_of_listOf mem
    simpa [bindAll, all] using lists ks
  | cons b rest ih =>
    have invariant := reachable_storeInvariant reachable
    have sorted := getKeyBindingList_strict invariant
    rw [← saved] at sorted
    -- the bindings of `S` before `b` in the replay are those of smaller index
    have before : ∀ x ∈ S.allBindings, x ∈ done ↔ x.bindingIndex < b.bindingIndex := fun x mem =>
      mem_prefix_iff_lt sorted (saved ▸ (getKeyBindingList_perm S).mem_iff.2 mem)
    have stored : b ∈ S.allBindings :=
      (getKeyBindingList_perm S).mem_iff.1 (saved ▸ List.mem_append_right _ (List.mem_cons_self _ _))
    have notDone : b ∉ done := fun mem => Nat.lt_irrefl _ ((before b stored).1 mem)
    have inList := mem_listOf_of_mem_allBindings invariant stored
    obtain ⟨sortedList, linesList, -⟩ := invariant.listOf b.keyChain.back
    have fresh : lineBound R { b with bindingIndex := 0 } = false := by
      simp only [lineBound, lists, List.any_map, List.any_eq_false, List.mem_filter,
        decide_eq_true_eq, Function.comp, renameIndex, beq_iff_eq]
      exact fun x ⟨mem, inDone⟩ same => notDone (TriggerMerge.eq_of_line_eq linesList mem inList same ▸ inDone)
    rw [List.map_cons, bindAll_cons, bind_of_made (makeKeyBinding_saved reachable stored
      (reproduces b stored))]
    refine ih (done ++ [b]) (by simpa using saved) _ (by simp [fresh, count, Nat.add_assoc]) fun ks' => ?_
    rw [listOf_addKeyBinding]
    by_cases trigger : ks' = b.keyChain.back
    · subst trigger
      rw [if_pos ⟨fresh, rfl⟩, lists, filter_mem_append_of_sorted sortedList inList notDone
        fun x mem => before x (mem_allBindings_of_listOf mem)]
      simp [renameIndex, replayIndex_of_saved sorted saved, count, Nat.add_assoc]
    · rw [if_neg fun both => trigger both.2, lists]
      congr 1
      refine List.filter_congr fun x mem => ?_
      have : x ≠ b := fun same => trigger ((invariant.listOf ks').2.2 x mem ▸ same ▸ rfl)
      simp [this]

end Replay

/-! ### Clearing the store -/

section Clearing

variable {env : Collaborators}

@[simp] theorem afterMutation_store (s : KeyBindings) (result : BindingStore × Bool) :
    (afterMutation s result).1.store = result.1 := by
  unfold afterMutation
  split <;> simp

theorem listOf_unBind_enter_chat (chat : (env.action "chat").command = "chat") (ks' : KeySet) :
    (unBind env (unbindall env) "enter" "chat").1.listOf ks' = [] := by
  have plain := parseShortcut_of_plain env "enter" (by decide) (by decide) (by decide)
  cases parsed : env.parse "enter" with
  | none =>
    have failed : makeKeyBinding env "enter" "chat" = none := by
      simp [makeKeyBinding, plain, parsed]
    simp [unbindall, Store.bind, failed, Store.unBind, parsed]
  | some ks =>
    have made : makeKeyBinding env "enter" "chat" =
        some ⟨env.action "chat", .single ks, "enter", 0⟩ := by
      simp [makeKeyBinding, plain, parsed, chat, statefulCommands]
      rfl
    have added : ∀ k, (unbindall env).listOf k =
        if k = ks then [⟨env.action "chat", .single ks, "enter", 1⟩] else [] := fun k => by
      rw [unbindall, bind_of_made made, listOf_addKeyBinding]
      by_cases same : k = ks <;> simp [same, lineBound]
    by_cases same : ks' = ks
    · subst same
      rw [(unBind_spec env _ parsed "chat").2, added]
      simp [chat]
    · rw [listOf_unBind_of_ne env _ parsed "chat" same, added, if_neg same]

end Clearing

/-- Replaying what `FileSave` writes rebuilds the saved store: from any state, `unbindall`,
`unbind enter chat` and then `Bind` of every saved binding's shortcut and raw line, in index
order, give both maps the keys of the saved store and under each the same bindings in the same
order, with indices renamed by a map that keeps their order. The action constructor must give
each saved action back from its raw line, `chat` must be the command of the line `chat`, and
the two command lines must split into the words they have. -/
theorem replay_saved_bindings (env : Collaborators) (S : BindingStore) (reachable : Reachable env S)
    (reproduces : ∀ b ∈ S.allBindings, env.action b.action.rawline = b.action)
    (chat : (env.action "chat").command = "chat")
    (wordsUnbindall : env.tokenize "unbindall" 2 = ["unbindall"])
    (wordsUnbind : env.tokenize "unbind enter chat" 2 = ["unbind", "enter", "chat"])
    (lowerUnbindall : env.toLower "unbindall" = "unbindall")
    (lowerUnbind : env.toLower "unbind" = "unbind") (start : KeyBindings) (fuel : Nat) :
    ∃ cleared enterless : KeyBindings, ∃ r r' : Bool,
      executeCommand env (fuel + 1) start "unbindall" = some (cleared, r) ∧
      executeCommand env (fuel + 1) cleared "unbind enter chat" = some (enterless, r') ∧
      ∃ rename : Nat → Nat,
        (∀ b ∈ S.allBindings, ∀ b' ∈ S.allBindings, b.bindingIndex < b'.bindingIndex →
          rename b.bindingIndex < rename b'.bindingIndex) ∧
        ∀ ks, (bindAll env enterless.store (savedBindings S)).codeBindings.find? ks =
            (S.codeBindings.find? ks).map (·.map (renameIndex rename)) ∧
          (bindAll env enterless.store (savedBindings S)).scanBindings.find? ks =
            (S.scanBindings.find? ks).map (·.map (renameIndex rename)) := by
  have invariant := reachable_storeInvariant reachable
  -- `unbindall` resets the key tables, so both command lines run with the built-in ones
  have emptied : SessionReachable env (unBind (env.withKeyTables .builtIn)
      (unbindall (env.withKeyTables .builtIn)) "enter" "chat").1 :=
    .step .builtIn (.unBind "enter" "chat") (.step .builtIn .unbindall .empty)
  obtain ⟨cleared, executeUnbindall, clearedStore, clearedTables⟩ : ∃ cleared : KeyBindings × Bool,
      executeCommand env (fuel + 1) start "unbindall" = some cleared ∧
        cleared.1.store = unbindall (env.withKeyTables .builtIn) ∧ cleared.1.keyTables = .builtIn :=
    ⟨({ start with store := unbindall (env.withKeyTables .builtIn), keyTables := .builtIn }.finishCommand,
      false), by simp [executeCommand, wordsUnbindall, lowerUnbindall], finishCommand_store _,
      finishCommand_keyTables _⟩
  obtain ⟨enterless, executeUnbind, enterlessStore⟩ : ∃ enterless : KeyBindings × Bool,
      executeCommand env (fuel + 1) cleared.1 "unbind enter chat" = some enterless ∧
        enterless.1.store = (unBind (env.withKeyTables .builtIn)
          (unbindall (env.withKeyTables .builtIn)) "enter" "chat").1 :=
    ⟨afterMutation cleared.1
        (unBind (env.withKeyTables cleared.1.keyTables) cleared.1.store "enter" "chat"),
      by simp [executeCommand, wordsUnbind, lowerUnbind], by simp [clearedStore, clearedTables]⟩
  refine ⟨cleared.1, enterless.1, cleared.2, enterless.2, executeUnbindall, executeUnbind,
    replayIndex S enterless.1.store.bindingsCount,
    fun b _ b' stored' lt => replayIndex_lt _ stored' lt, fun ks => ?_⟩
  exact maps_of_listOf invariant
    (sessionReachable_storeInvariant (sessionReachable_bindAll (enterlessStore ▸ emptied) env.keyTables _))
    (listOf_bindAll_saved reachable reproduces _ (getKeyBindingList S) [] (List.nil_append _) _
      (by simp) (by simp [enterlessStore, @listOf_unBind_enter_chat (env.withKeyTables .builtIn) chat]))
    ks

theorem replay_saved_attack_bindings :
    Reachable exampleCollaborators attackStore ∧
      (∀ b ∈ attackStore.allBindings, exampleCollaborators.action b.action.rawline = b.action) ∧
      (exampleCollaborators.action "chat").command = "chat" ∧
      exampleCollaborators.tokenize "unbindall" 2 = ["unbindall"] ∧
      exampleCollaborators.tokenize "unbind enter chat" 2 = ["unbind", "enter", "chat"] ∧
      exampleCollaborators.toLower "unbindall" = "unbindall" ∧
      exampleCollaborators.toLower "unbind" = "unbind" ∧
      ∃ cleared enterless : KeyBindings, ∃ r r' : Bool,
        executeCommand exampleCollaborators 1 .init "unbindall" = some (cleared, r) ∧
        executeCommand exampleCollaborators 1 cleared "unbind enter chat" = some (enterless, r') ∧
        ∃ rename : Nat → Nat,
          (∀ b ∈ attackStore.allBindings, ∀ b' ∈ attackStore.allBindings,
            b.bindingIndex < b'.bindingIndex → rename b.bindingIndex < rename b'.bindingIndex) ∧
          ∀ ks, (bindAll exampleCollaborators enterless.store
              (savedBindings attackStore)).codeBindings.find? ks =
              (attackStore.codeBindings.find? ks).map (·.map (renameIndex rename)) ∧
            (bindAll exampleCollaborators enterless.store
              (savedBindings attackStore)).scanBindings.find? ks =
              (attackStore.scanBindings.find? ks).map (·.map (renameIndex rename)) :=
  ⟨reachable_attack_store, by decide, rfl, by decide, by decide, rfl, rfl,
    replay_saved_bindings _ _ reachable_attack_store (by decide) rfl (by decide) (by decide) rfl rfl
      .init 0⟩

end RecoilKeyBindings.RoundTrip
