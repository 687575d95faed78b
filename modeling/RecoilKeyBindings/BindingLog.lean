import RecoilKeyBindings.RoundTrip

/-!
# The store refines a log of bindings

What the two hash maps of `CKeyBindings` and their counter are for: the bindings in the order
they were bound (`Log`). `GetKeyBindingList()` reads that log off a store (`logOf`), and for a
store in its invariant the log is a complete view of it: the list under every key set is the
log cut to that trigger (`listOf_eq_filter`), so a key press resolves through the log alone.
Every mutator acts on the log as one list operation: `Bind` appends the numbered binding
unless its trigger holds its line already, `UnBind`, `UnBindKeyset` and `UnBindAction` filter,
and `unbindall` starts again from `Bind("enter", "chat")`. The tests of `UnBind` and
`UnBindKeyset` read only their own arguments, so a sequence of them filters the log the same
way in any order; the test of `UnBindAction` reads the log, so it does not.
-/

namespace RecoilKeyBindings.BindingLog

open RecoilKeyBindings.Keys RecoilKeyBindings.Maps RecoilKeyBindings.Store
open RecoilKeyBindings.Invariants RecoilKeyBindings.Resolution RecoilKeyBindings.TriggerMerge
open RecoilKeyBindings.RoundTrip RecoilKeyBindings.MutatorLaws

set_option autoImplicit false

/-- The bindings of a store in the order they were bound, with the counter that numbers them:
indices increase along the log and none passes the counter. -/
@[ext] structure Log where
  bindings : List KeyBinding
  bindingsCount : Nat
  ordered : bindings.Pairwise (·.bindingIndex < ·.bindingIndex)
  bounded : ∀ b ∈ bindings, b.bindingIndex ≤ bindingsCount

namespace Log

def empty : Log := ⟨[], 0, .nil, fun b member => (List.not_mem_nil b member).elim⟩

def keep (log : Log) (keep : KeyBinding → Bool) : Log :=
  ⟨log.bindings.filter keep, log.bindingsCount, log.ordered.sublist (List.filter_sublist _),
    fun b member => log.bounded b (List.mem_filter.1 member).1⟩

def push (log : Log) (keyBinding : KeyBinding) : Log :=
  ⟨log.bindings ++ [{ keyBinding with bindingIndex := log.bindingsCount + 1 }],
    log.bindingsCount + 1,
    List.pairwise_append.2 ⟨log.ordered, List.pairwise_singleton _ _, fun b member _ appended => by
      rw [List.mem_singleton.1 appended]
      exact Nat.lt_succ_of_le (log.bounded b member)⟩,
    fun b member => (List.mem_append.1 member).elim
      (fun old => Nat.le_succ_of_le (log.bounded b old))
      fun appended => by rw [List.mem_singleton.1 appended]⟩

def holds (log : Log) (keyBinding : KeyBinding) : Bool :=
  log.bindings.any fun b =>
    b.keyChain.back == keyBinding.keyChain.back && b.action.line == keyBinding.action.line

def bind (env : Collaborators) (log : Log) (keystr line : String) : Log × Bool :=
  match makeKeyBinding env keystr line with
  | none => (log, false)
  | some keyBinding => (if log.holds keyBinding then log else log.push keyBinding, true)

/-- `UnBind` on the log: the bindings of `command` triggered by the parsed key set go. -/
def unBind (env : Collaborators) (log : Log) (keystr command : String) : Log × Bool :=
  match env.parse keystr with
  | none => (log, false)
  | some ks =>
    (log.keep fun b => !(b.keyChain.back == ks && b.action.command == command),
      log.bindings.any fun b => b.keyChain.back == ks && b.action.command == command)

/-- `UnBindKeyset` on the log: the bindings triggered by the parsed key set go. -/
def unBindKeyset (env : Collaborators) (log : Log) (keystr : String) : Log × Bool :=
  match env.parse keystr with
  | none => (log, false)
  | some ks => (log.keep (·.keyChain.back != ks), log.bindings.any (·.keyChain.back == ks))

/-- `UnBindAction` on the log: the key-code bindings of `command` go when there is one, and
the bindings of `command` in either keyspace otherwise. -/
def unBindAction (log : Log) (command : String) : Log × Bool :=
  if log.bindings.any (fun b => b.keyChain.back.isKeyCode && b.action.command == command) then
    (log.keep fun b => !(b.keyChain.back.isKeyCode && b.action.command == command), true)
  else (log.keep (·.action.command != command), log.bindings.any (·.action.command == command))

def unbindall (env : Collaborators) : Log := (empty.bind env "enter" "chat").1

def call (env : Collaborators) (log : Log) : Mutation → Log × Bool
  | .bind keystr line => log.bind env keystr line
  | .unBind keystr command => log.unBind env keystr command
  | .unBindKeyset keystr => log.unBindKeyset env keystr
  | .unBindAction command => log.unBindAction command
  | .unbindall => (unbindall env, false)

@[simp] theorem bindings_keep (log : Log) (p : KeyBinding → Bool) :
    (log.keep p).bindings = log.bindings.filter p := rfl

@[simp] theorem bindingsCount_keep (log : Log) (p : KeyBinding → Bool) :
    (log.keep p).bindingsCount = log.bindingsCount := rfl

@[simp] theorem bindings_push (log : Log) (keyBinding : KeyBinding) :
    (log.push keyBinding).bindings =
      log.bindings ++ [{ keyBinding with bindingIndex := log.bindingsCount + 1 }] := rfl

@[simp] theorem bindingsCount_push (log : Log) (keyBinding : KeyBinding) :
    (log.push keyBinding).bindingsCount = log.bindingsCount + 1 := rfl

/-- `L(ks)` read off the log: the bindings it triggers, none for a negative key. -/
def storedList (log : Log) (ks : KeySet) : List KeyBinding :=
  if ks.key < 0 then [] else log.bindings.filter (·.keyChain.back == ks)

/-- A key press resolved on the log, as `GetKeyBindingList(kc, sc)` resolves it on the maps:
the exact runs of both chains merged, then their wildcard runs. -/
def getKeyBindingListOfChains (env : Collaborators) (log : Log) (kc sc : KeyChain) :
    List KeyBinding :=
  let exactRun := fun c : KeyChain =>
    if c.back.anyMod then [] else fittingBindings env c (log.storedList c.back)
  let wildcardRun := fun c : KeyChain => fittingBindings env c (log.storedList c.back.setAnyBit)
  mergeActionListsByTrigger (wildcardRun kc) (wildcardRun sc)
    (mergeActionListsByTrigger (exactRun kc) (exactRun sc) [])

end Log

/-- What a mutation of the store returns: the value of the call, `false` for the `unbindall`
command. -/
def mutationResult (env : Collaborators) (store : BindingStore) : Mutation → Bool
  | .bind keystr line => (Store.bind env store keystr line).2
  | .unBind keystr command => (Store.unBind env store keystr command).2
  | .unBindKeyset keystr => (Store.unBindKeyset env store keystr).2
  | .unBindAction command => (Store.unBindAction store command).2
  | .unbindall => false

/-! ### The log a store stands for -/

section Listing

variable {env : Collaborators} {store : BindingStore}

/-- The log of a store in its invariant: `GetKeyBindingList()` and the counter. -/
def logOf (invariant : StoreInvariant env store) : Log :=
  ⟨getKeyBindingList store, store.bindingsCount, getKeyBindingList_strict invariant,
    fun b member => (invariant.indicesBounded b ((getKeyBindingList_perm store).mem_iff.1 member)).2⟩

@[simp] theorem bindings_logOf (invariant : StoreInvariant env store) :
    (logOf invariant).bindings = getKeyBindingList store := rfl

@[simp] theorem bindingsCount_logOf (invariant : StoreInvariant env store) :
    (logOf invariant).bindingsCount = store.bindingsCount := rfl

theorem nodup_of_ordered {l : List KeyBinding}
    (ordered : l.Pairwise (·.bindingIndex < ·.bindingIndex)) : l.Nodup :=
  ordered.imp fun lt same => by subst same; exact Nat.lt_irrefl _ lt

theorem mem_allBindings_iff (invariant : StoreInvariant env store) (b : KeyBinding) :
    b ∈ store.allBindings ↔ b ∈ store.listOf b.keyChain.back :=
  ⟨mem_listOf_of_mem_allBindings invariant, mem_allBindings_of_listOf⟩

theorem eq_of_ordered_of_mem_iff {l l' : List KeyBinding}
    (ordered : l.Pairwise (·.bindingIndex < ·.bindingIndex))
    (ordered' : l'.Pairwise (·.bindingIndex < ·.bindingIndex)) (mem : ∀ b, b ∈ l ↔ b ∈ l') :
    l = l' := by
  have : IsAntisymm KeyBinding (·.bindingIndex < ·.bindingIndex) :=
    ⟨fun _ _ lt gt => absurd (lt.trans gt) (Nat.lt_irrefl _)⟩
  exact List.eq_of_perm_of_sorted
    ((List.perm_ext_iff_of_nodup (nodup_of_ordered ordered) (nodup_of_ordered ordered')).2 mem)
    ordered ordered'

theorem getKeyBindingList_eq_of_mem (invariant : StoreInvariant env store) {l : List KeyBinding}
    (ordered : l.Pairwise (·.bindingIndex < ·.bindingIndex))
    (mem : ∀ b, b ∈ l ↔ b ∈ store.listOf b.keyChain.back) : getKeyBindingList store = l :=
  eq_of_ordered_of_mem_iff (getKeyBindingList_strict invariant) ordered fun b => by
    rw [(getKeyBindingList_perm store).mem_iff, mem_allBindings_iff invariant, mem]

theorem listOf_eq_filter (invariant : StoreInvariant env store) (ks : KeySet) :
    store.listOf ks = (logOf invariant).bindings.filter (·.keyChain.back == ks) := by
  obtain ⟨sorted, -, triggers⟩ := invariant.listOf ks
  refine eq_of_ordered_of_mem_iff sorted
    ((getKeyBindingList_strict invariant).sublist (List.filter_sublist _)) fun b => ?_
  rw [bindings_logOf, List.mem_filter, (getKeyBindingList_perm store).mem_iff,
    mem_allBindings_iff invariant, beq_iff_eq]
  constructor
  · intro member
    rw [triggers b member]
    exact ⟨member, rfl⟩
  · rintro ⟨member, rfl⟩
    exact member

theorem mem_getKeyBindingList_iff (invariant : StoreInvariant env store) (b : KeyBinding) :
    b ∈ getKeyBindingList store ↔ b ∈ store.listOf b.keyChain.back :=
  (getKeyBindingList_perm store).mem_iff.trans (mem_allBindings_iff invariant b)

theorem logOf_of_listOf_filter {store' : BindingStore} (invariant : StoreInvariant env store)
    (invariant' : StoreInvariant env store') (keep : KeyBinding → Bool)
    (lists : ∀ ks, store'.listOf ks = (store.listOf ks).filter keep)
    (count : store'.bindingsCount = store.bindingsCount) :
    logOf invariant' = (logOf invariant).keep keep := by
  refine Log.ext (getKeyBindingList_eq_of_mem invariant' ((logOf invariant).keep keep).ordered
    fun b => ?_) count
  rw [lists, Log.bindings_keep, List.mem_filter, List.mem_filter, bindings_logOf,
    mem_getKeyBindingList_iff invariant]

end Listing

theorem attackStore_invariant : StoreInvariant exampleCollaborators attackStore :=
  reachable_storeInvariant reachable_attack_store

/-! ### Every mutator is a list operation on the log -/

section Mutators

variable {env : Collaborators} {store : BindingStore}

theorem holds_logOf (invariant : StoreInvariant env store) (keyBinding : KeyBinding) :
    (logOf invariant).holds keyBinding = lineBound store keyBinding := by
  rw [lineBound, listOf_eq_filter invariant, List.any_filter, Log.holds]

theorem logOf_addKeyBinding (invariant : StoreInvariant env store) {keystr line : String}
    {keyBinding : KeyBinding} (made : makeKeyBinding env keystr line = some keyBinding) :
    logOf (invariant.addKeyBinding made) =
      if lineBound store keyBinding then logOf invariant else (logOf invariant).push keyBinding := by
  have invariant' := invariant.addKeyBinding made
  cases bound : lineBound store keyBinding
  · rw [if_neg Bool.false_ne_true]
    refine Log.ext (getKeyBindingList_eq_of_mem invariant' ((logOf invariant).push _).ordered
      fun b => ?_) (by simp [bound])
    rw [listOf_addKeyBinding, Log.bindings_push, bindings_logOf, bindingsCount_logOf]
    by_cases trigger : b.keyChain.back = keyBinding.keyChain.back
    · rw [if_pos ⟨bound, trigger⟩, List.mem_append, List.mem_append,
        mem_getKeyBindingList_iff invariant]
    · have other : b ∉ [{ keyBinding with bindingIndex := store.bindingsCount + 1 }] :=
        fun appended => trigger (by rw [List.mem_singleton.1 appended])
      rw [if_neg fun both => trigger both.2, List.mem_append, mem_getKeyBindingList_iff invariant,
        or_iff_left other]
  · rw [if_pos rfl]
    refine Log.ext (getKeyBindingList_eq_of_mem invariant' (getKeyBindingList_strict invariant)
      fun b => ?_) (by simp [bound])
    rw [listOf_addKeyBinding, if_neg (by simp [bound]), bindings_logOf,
      mem_getKeyBindingList_iff invariant]

theorem bind_refines_log (invariant : StoreInvariant env store) (keystr line : String) :
    logOf (invariant.bind keystr line) = ((logOf invariant).bind env keystr line).1 ∧
      (Store.bind env store keystr line).2 = ((logOf invariant).bind env keystr line).2 := by
  unfold Log.bind
  split
  · next unmade => simp [Store.bind, unmade]
  · next keyBinding made =>
    simp only [MutatorLaws.bind_of_made made, holds_logOf invariant, and_true]
    exact logOf_addKeyBinding invariant made

theorem listOf_unBind (invariant : StoreInvariant env store) {keystr : String} {ks : KeySet}
    (parsed : env.parse keystr = some ks) (command : String) (ks' : KeySet) :
    (unBind env store keystr command).1.listOf ks' =
      (store.listOf ks').filter fun b => !(b.keyChain.back == ks && b.action.command == command) := by
  obtain ⟨-, -, triggers⟩ := invariant.listOf ks'
  by_cases same : ks' = ks
  · subst same
    rw [(unBind_spec env store parsed command).2]
    exact List.filter_congr fun b member => by simp [triggers b member, bne]
  · rw [listOf_unBind_of_ne env store parsed command same, eq_comm, List.filter_eq_self]
    intro b member
    simp [triggers b member, same]

theorem bindingsCount_unBind (keystr command : String) :
    (unBind env store keystr command).1.bindingsCount = store.bindingsCount := by
  unfold Store.unBind
  cases env.parse keystr with
  | none => rfl
  | some ks =>
    dsimp only
    cases (store.bindingsOf ks).find? ks <;> simp

theorem unBind_refines_log (invariant : StoreInvariant env store) (keystr command : String) :
    logOf (invariant.unBind keystr command) = ((logOf invariant).unBind env keystr command).1 ∧
      (Store.unBind env store keystr command).2 =
        ((logOf invariant).unBind env keystr command).2 := by
  unfold Log.unBind
  split
  · next unparsed =>
    have unchanged : unBind env store keystr command = (store, false) := by
      simp [Store.unBind, unparsed]
    exact ⟨Log.ext (by simp [unchanged]) (by simp [unchanged]), by rw [unchanged]⟩
  · next ks parsed =>
    refine ⟨logOf_of_listOf_filter invariant _ _ (listOf_unBind invariant parsed command)
      (bindingsCount_unBind keystr command), ?_⟩
    rw [(unBind_spec env store parsed command).1, listOf_eq_filter invariant, List.any_filter]

theorem listOf_unBindKeyset (invariant : StoreInvariant env store) {keystr : String} {ks : KeySet}
    (parsed : env.parse keystr = some ks) (ks' : KeySet) :
    (unBindKeyset env store keystr).1.listOf ks' =
      (store.listOf ks').filter (·.keyChain.back != ks) := by
  obtain ⟨-, -, triggers⟩ := invariant.listOf ks'
  by_cases same : ks' = ks
  · subst same
    rw [List.filter_eq_nil_iff.2 fun b member => by simp [triggers b member], BindingStore.listOf,
      (unBindKeyset_spec env store parsed).2]
    rfl
  · rw [List.filter_eq_self.2 fun b member => by simp [triggers b member, same]]
    unfold Store.unBindKeyset BindingStore.listOf
    simp only [parsed]
    split
    · rfl
    · simp only [BindingStore.bindingsOf_setBindingsOf_other]
      split_ifs with sameSpace <;> simp [same, BindingStore.bindingsOf, sameSpace]

theorem bindingsCount_unBindKeyset (keystr : String) :
    (unBindKeyset env store keystr).1.bindingsCount = store.bindingsCount := by
  unfold Store.unBindKeyset
  cases env.parse keystr with
  | none => rfl
  | some ks =>
    dsimp only
    cases (store.bindingsOf ks).find? ks <;> simp

theorem isSome_find?_eq_any (invariant : StoreInvariant env store) (ks : KeySet) :
    ((store.bindingsOf ks).find? ks).isSome = (logOf invariant).bindings.any (·.keyChain.back == ks) := by
  have listed : ((store.bindingsOf ks).find? ks).isSome = !(store.listOf ks).isEmpty := by
    unfold BindingStore.listOf
    cases found : (store.bindingsOf ks).find? ks with
    | none => rfl
    | some l =>
      simpa [List.isEmpty_iff] using
        (invariant.bindingsOf ks).nonempty ks l ((UnorderedMap.find?_eq_some_iff _ _ _).1 found)
  rw [listed, listOf_eq_filter invariant, Bool.eq_iff_iff]
  simp [List.isEmpty_iff, List.any_eq_true]

theorem unBindKeyset_refines_log (invariant : StoreInvariant env store) (keystr : String) :
    logOf (invariant.unBindKeyset keystr) = ((logOf invariant).unBindKeyset env keystr).1 ∧
      (Store.unBindKeyset env store keystr).2 = ((logOf invariant).unBindKeyset env keystr).2 := by
  unfold Log.unBindKeyset
  split
  · next unparsed =>
    have unchanged : unBindKeyset env store keystr = (store, false) := by
      simp [Store.unBindKeyset, unparsed]
    exact ⟨Log.ext (by simp [unchanged]) (by simp [unchanged]), by rw [unchanged]⟩
  · next ks parsed =>
    exact ⟨logOf_of_listOf_filter invariant _ _ (listOf_unBindKeyset invariant parsed)
      (bindingsCount_unBindKeyset keystr),
      (unBindKeyset_spec env store parsed).1.trans (isSome_find?_eq_any invariant ks)⟩

theorem getD_find?_removeActionFromKeyMap (command : String) (bindings : KeyMap) (ks : KeySet) :
    ((removeActionFromKeyMap command bindings).1.find? ks).getD [] =
      ((bindings.find? ks).getD []).filter (·.action.command != command) := by
  simp only [removeActionFromKeyMap, UnorderedMap.find?_updateAll, removeCommandFromList]
  cases bindings.find? ks with
  | none => rfl
  | some l =>
    rw [Option.some_bind, Option.getD_some]
    split
    · next emptied => exact (List.isEmpty_iff.1 emptied).symm
    · rfl

theorem removeActionFromKeyMap_snd (command : String) (bindings : KeyMap) :
    (removeActionFromKeyMap command bindings).2 = bindings.flatValues.any (·.action.command == command) := by
  rw [Bool.eq_iff_iff]
  simp [removeActionFromKeyMap, removeCommandFromList, UnorderedMap.values,
    UnorderedMap.flatValues]
  exact ⟨fun ⟨l, ⟨k, entry⟩, found⟩ => ⟨k, l, entry, found⟩,
    fun ⟨k, l, entry, found⟩ => ⟨l, ⟨k, entry⟩, found⟩⟩

theorem keyspace_of_mem_flatValues {keyCode : Bool} {bindings : KeyMap}
    (map : MapInvariant keyCode bindings) {b : KeyBinding} (member : b ∈ bindings.flatValues) :
    b.keyChain.back.isKeyCode = keyCode := by
  obtain ⟨k, l, entry, inList⟩ := (UnorderedMap.mem_flatValues _ _).1 member
  rw [map.triggers k l entry b inList]
  exact map.keyspace k l entry

theorem mem_flatValues_iff (invariant : StoreInvariant env store) (b : KeyBinding) :
    (b ∈ store.codeBindings.flatValues ↔
      b ∈ (logOf invariant).bindings ∧ b.keyChain.back.isKeyCode = true) ∧
    (b ∈ store.scanBindings.flatValues ↔
      b ∈ (logOf invariant).bindings ∧ b.keyChain.back.isKeyCode = false) := by
  rw [bindings_logOf, (getKeyBindingList_perm store).mem_iff, BindingStore.allBindings,
    List.mem_append]
  have code := keyspace_of_mem_flatValues invariant.code (b := b)
  have scan := keyspace_of_mem_flatValues invariant.scan (b := b)
  constructor <;> constructor
  · exact fun member => ⟨.inl member, code member⟩
  · rintro ⟨member | member, keyCode⟩
    exacts [member, absurd (scan member) (by simp [keyCode])]
  · exact fun member => ⟨.inr member, scan member⟩
  · rintro ⟨member | member, keyCode⟩
    exacts [absurd (code member) (by simp [keyCode]), member]

theorem listOf_unBindAction (invariant : StoreInvariant env store) (command : String)
    (ks : KeySet) :
    (unBindAction store command).1.listOf ks = (store.listOf ks).filter
      (if (removeActionFromKeyMap command store.codeBindings).2 then
        fun b => !(b.keyChain.back.isKeyCode && b.action.command == command)
      else (·.action.command != command)) := by
  obtain ⟨-, -, triggers⟩ := invariant.listOf ks
  by_cases removed : (removeActionFromKeyMap command store.codeBindings).2 = true <;>
    cases keyCode : ks.isKeyCode <;>
    simp only [Store.unBindAction, removed, keyCode, if_true, if_false, Bool.false_eq_true,
      BindingStore.listOf, BindingStore.bindingsOf, getD_find?_removeActionFromKeyMap] at triggers ⊢
  · exact (List.filter_eq_self.2 fun b member => by simp [triggers b member, keyCode]).symm
  · exact List.filter_congr fun b member => by simp [triggers b member, keyCode, bne]

theorem bindingsCount_unBindAction (command : String) :
    (unBindAction store command).1.bindingsCount = store.bindingsCount := by
  unfold Store.unBindAction
  dsimp only
  split <;> rfl

theorem unBindAction_refines_log (invariant : StoreInvariant env store) (command : String) :
    logOf (invariant.unBindAction command) = ((logOf invariant).unBindAction command).1 ∧
      (Store.unBindAction store command).2 = ((logOf invariant).unBindAction command).2 := by
  have code : (removeActionFromKeyMap command store.codeBindings).2 = (logOf invariant).bindings.any
      fun b => b.keyChain.back.isKeyCode && b.action.command == command := by
    rw [removeActionFromKeyMap_snd, Bool.eq_iff_iff]
    simp [List.any_eq_true, (mem_flatValues_iff invariant _).1, and_assoc]
  have lists := logOf_of_listOf_filter invariant (invariant.unBindAction command) _
    (listOf_unBindAction invariant command) (bindingsCount_unBindAction command)
  unfold Log.unBindAction
  rw [← code]
  split_ifs with removed
  · exact ⟨by simpa [removed] using lists, by simp [Store.unBindAction, removed]⟩
  · refine ⟨by simpa [removed] using lists, ?_⟩
    simp only [Store.unBindAction, removed, Bool.false_eq_true, if_false]
    rw [removeActionFromKeyMap_snd, Bool.eq_iff_iff, List.any_eq_true, List.any_eq_true]
    simp only [code, List.any_eq_true, Bool.and_eq_true, beq_iff_eq, not_exists, not_and] at removed
    constructor
    · rintro ⟨b, member, same⟩
      exact ⟨b, ((mem_flatValues_iff invariant b).2.1 member).1, same⟩
    · rintro ⟨b, member, same⟩
      exact ⟨b, (mem_flatValues_iff invariant b).2.2 ⟨member, Bool.eq_false_iff.2
        fun keyCode => removed b member keyCode (beq_iff_eq.1 same)⟩, same⟩

theorem logOf_empty : logOf (storeInvariant_empty env) = Log.empty :=
  Log.ext (getKeyBindingList_perm BindingStore.empty).eq_nil rfl

theorem unbindall_refines_log :
    logOf ((storeInvariant_empty env).bind "enter" "chat") = Log.unbindall env := by
  rw [(bind_refines_log (storeInvariant_empty env) "enter" "chat").1, logOf_empty]
  rfl

/-- One mutation of a store in its invariant is one operation on its log, and returns what that
operation returns. -/
theorem mutation_refines_log (invariant : StoreInvariant env store) (mutation : Mutation) :
    logOf (invariant.apply mutation) = ((logOf invariant).call env mutation).1 ∧
      mutationResult env store mutation = ((logOf invariant).call env mutation).2 := by
  cases mutation with
  | bind keystr line => exact bind_refines_log invariant keystr line
  | unBind keystr command => exact unBind_refines_log invariant keystr command
  | unBindKeyset keystr => exact unBindKeyset_refines_log invariant keystr
  | unBindAction command => exact unBindAction_refines_log invariant command
  | unbindall => exact ⟨unbindall_refines_log, rfl⟩

end Mutators

/-! ### Whole runs -/

def runMutations (env : Collaborators) (store : BindingStore) (mutations : List Mutation) :
    BindingStore :=
  mutations.foldl (fun store mutation => mutation.apply env store) store

def Log.run (env : Collaborators) (log : Log) (mutations : List Mutation) : Log :=
  mutations.foldl (fun log mutation => (log.call env mutation).1) log

section Runs

variable {env : Collaborators}

theorem storeInvariant_runMutations {store : BindingStore} (invariant : StoreInvariant env store) :
    ∀ mutations, StoreInvariant env (runMutations env store mutations)
  | [] => invariant
  | mutation :: mutations => storeInvariant_runMutations (invariant.apply mutation) mutations

theorem logOf_runMutations {store : BindingStore} (invariant : StoreInvariant env store)
    (mutations : List Mutation) :
    logOf (storeInvariant_runMutations invariant mutations) = (logOf invariant).run env mutations := by
  induction mutations generalizing store with
  | nil => rfl
  | cons mutation mutations ih =>
    rw [Log.run, List.foldl_cons, ← (mutation_refines_log invariant mutation).1]
    exact ih (invariant.apply mutation)

/-- Every run of mutations from the empty store lists, in `GetKeyBindingList()`, the log that
the same run builds by appending and filtering, counts as far as that log, and the next mutation
returns what the log operation returns. -/
theorem runMutations_refines_log (env : Collaborators) (mutations : List Mutation)
    (mutation : Mutation) :
    getKeyBindingList (runMutations env .empty mutations) = (Log.empty.run env mutations).bindings ∧
      (runMutations env .empty mutations).bindingsCount =
        (Log.empty.run env mutations).bindingsCount ∧
      mutationResult env (runMutations env .empty mutations) mutation =
        ((Log.empty.run env mutations).call env mutation).2 := by
  have invariant := storeInvariant_runMutations (storeInvariant_empty env) mutations
  have run := logOf_runMutations (storeInvariant_empty env) mutations
  rw [logOf_empty] at run
  refine ⟨congrArg Log.bindings run, congrArg Log.bindingsCount run, ?_⟩
  rw [(mutation_refines_log invariant mutation).2, run]

end Runs

/-! ### Reading the store through its log -/

section Reading

variable {env : Collaborators} {store : BindingStore}

theorem storedList_eq_log (invariant : StoreInvariant env store) (ks : KeySet) :
    storedList store ks = (logOf invariant).storedList ks := by
  rw [storedList, Log.storedList, listOf_eq_filter invariant]

theorem getKeyBindingListOfChains_eq_log (invariant : StoreInvariant env store) (kc sc : KeyChain) :
    getKeyBindingListOfChains env store kc sc =
      (logOf invariant).getKeyBindingListOfChains env kc sc := by
  rw [getKeyBindingListOfChains_eq]
  simp only [exactRun, wildcardRun, storedList_eq_log invariant]
  rfl

/-- Two stores in their invariant that list the same bindings in `GetKeyBindingList()` hold the
same list under every key set and resolve every key press to the same bindings. -/
theorem stores_agree_of_same_listing {store' : BindingStore} (invariant : StoreInvariant env store)
    (invariant' : StoreInvariant env store') (same : getKeyBindingList store = getKeyBindingList store') :
    (∀ ks, store.listOf ks = store'.listOf ks) ∧
      ∀ kc sc, getKeyBindingListOfChains env store kc sc = getKeyBindingListOfChains env store' kc sc := by
  refine ⟨fun ks => by rw [listOf_eq_filter invariant, listOf_eq_filter invariant', bindings_logOf,
    bindings_logOf, same], fun kc sc => ?_⟩
  rw [getKeyBindingListOfChains_eq_log invariant, getKeyBindingListOfChains_eq_log invariant']
  simp only [Log.getKeyBindingListOfChains, Log.storedList, bindings_logOf, same]

/-- `attack` bound to `a`, against the store holding it under the key code and the scan code
of `a` after `UnBindKeyset("sc_a")`: the counters differ and the listings agree. -/
theorem stores_agree_after_unBindKeyset :
    StoreInvariant exampleCollaborators (addKeyBinding .empty exampleBindingA) ∧
      StoreInvariant exampleCollaborators (unBindKeyset exampleCollaborators attackStore "sc_a").1 ∧
      getKeyBindingList (addKeyBinding .empty exampleBindingA) =
        getKeyBindingList (unBindKeyset exampleCollaborators attackStore "sc_a").1 ∧
      (∀ ks, (addKeyBinding .empty exampleBindingA).listOf ks =
        (unBindKeyset exampleCollaborators attackStore "sc_a").1.listOf ks) ∧
      ∀ kc sc, getKeyBindingListOfChains exampleCollaborators (addKeyBinding .empty exampleBindingA)
          kc sc =
        getKeyBindingListOfChains exampleCollaborators
          (unBindKeyset exampleCollaborators attackStore "sc_a").1 kc sc :=
  have invariant : StoreInvariant exampleCollaborators (addKeyBinding .empty exampleBindingA) :=
    StoreInvariant.addKeyBinding (storeInvariant_empty _) makeKeyBinding_a_attack
  have invariant' := StoreInvariant.unBindKeyset attackStore_invariant "sc_a"
  have same : getKeyBindingList (addKeyBinding .empty exampleBindingA) =
      getKeyBindingList (unBindKeyset exampleCollaborators attackStore "sc_a").1 := rfl
  ⟨invariant, invariant', same, stores_agree_of_same_listing invariant invariant' same⟩

theorem getKeyBindingListOfChains_eq_append (invariant : StoreInvariant env store)
    (kc sc : KeyChain) :
    ∃ X Y, getKeyBindingListOfChains env store kc sc = X ++ Y ∧
      MergedByIndex (exactRun env store kc) (exactRun env store sc) X ∧
      MergedByIndex (wildcardRun env store kc) (wildcardRun env store sc) Y := by
  obtain ⟨X, first, mergedX, -⟩ :=
    (storedRun_exactRun invariant kc).merge invariant (storedRun_exactRun invariant sc) []
  obtain ⟨Y, second, mergedY, -⟩ :=
    (storedRun_wildcardRun invariant kc).merge invariant (storedRun_wildcardRun invariant sc) X
  exact ⟨X, Y, by rw [getKeyBindingListOfChains_eq, first, List.nil_append, second], mergedX,
    mergedY⟩

theorem mem_exactRun_iff (c : KeyChain) (x : KeyBinding) :
    x ∈ exactRun env store c ↔ c.back.anyMod = false ∧ 0 ≤ c.back.key ∧
      x ∈ store.listOf c.back ∧ env.fit c x.keyChain = true := by
  unfold exactRun fittingBindings storedList
  by_cases negative : c.back.key < 0
  · simp [negative, Int.not_le.2 negative]
  · cases c.back.anyMod <;> simp [negative, Int.not_lt.1 negative]

theorem mem_wildcardRun_iff (c : KeyChain) (x : KeyBinding) :
    x ∈ wildcardRun env store c ↔ 0 ≤ c.back.key ∧
      x ∈ store.listOf c.back.setAnyBit ∧ env.fit c x.keyChain = true := by
  unfold wildcardRun fittingBindings storedList
  by_cases negative : c.back.key < 0
  · simp [negative, Int.not_le.2 negative]
  · simp [negative, Int.not_lt.1 negative]

theorem mem_runs_of_mem_listOf {c : KeyChain} {b : KeyBinding}
    (exactOrWildcard : c.back.anyMod = false ∨ c.back.setAnyBit = c.back)
    (nonnegative : 0 ≤ c.back.key) (stored : b ∈ store.listOf c.back) (fits : env.fit c b.keyChain = true) :
    b ∈ exactRun env store c ∨ b ∈ wildcardRun env store c := by
  rcases exactOrWildcard with exact | wildcard
  · exact .inl ((mem_exactRun_iff c b).2 ⟨exact, nonnegative, stored, fits⟩)
  · rw [← wildcard] at stored
    exact .inr ((mem_wildcardRun_iff c b).2 ⟨nonnegative, stored, fits⟩)

theorem line_resolved_of_mem_runs (invariant : StoreInvariant env store) (kc sc : KeyChain)
    {b : KeyBinding}
    (inRuns : b ∈ exactRun env store kc ∨ b ∈ wildcardRun env store kc ∨
      b ∈ exactRun env store sc ∨ b ∈ wildcardRun env store sc) :
    ∃ x ∈ getKeyBindingListOfChains env store kc sc, x.action.line = b.action.line := by
  obtain ⟨X, Y, result, mergedX, mergedY⟩ := getKeyBindingListOfChains_eq_append invariant kc sc
  rw [result]
  rcases inRuns with exact | wildcard | exact | wildcard
  · obtain ⟨x, member, same⟩ := mergedX.covers b (List.mem_append_left _ exact)
    exact ⟨x, List.mem_append_left _ member, same⟩
  · obtain ⟨x, member, same⟩ := mergedY.covers b (List.mem_append_left _ wildcard)
    exact ⟨x, List.mem_append_right _ member, same⟩
  · obtain ⟨x, member, same⟩ := mergedX.covers b (List.mem_append_right _ exact)
    exact ⟨x, List.mem_append_left _ member, same⟩
  · obtain ⟨x, member, same⟩ := mergedY.covers b (List.mem_append_right _ wildcard)
    exact ⟨x, List.mem_append_right _ member, same⟩

/-- Every binding a key press on a store in its invariant resolves to is a stored binding
triggered by the last key set of one of the two chains, as it is (when that key set is not a
wildcard) or with the wildcard bit set, whose key is not negative and whose chain that chain
fits. -/
theorem resolved_bindings_sound (invariant : StoreInvariant env store) (kc sc : KeyChain) :
    ∀ x ∈ getKeyBindingListOfChains env store kc sc, x ∈ store.allBindings ∧
      ∃ c ∈ [kc, sc], env.fit c x.keyChain = true ∧ 0 ≤ c.back.key ∧
        (c.back.anyMod = false ∧ x.keyChain.back = c.back ∨ x.keyChain.back = c.back.setAnyBit) := by
  intro x member
  obtain ⟨X, Y, result, mergedX, mergedY⟩ := getKeyBindingListOfChains_eq_append invariant kc sc
  have fromList : ∀ ks, x ∈ store.listOf ks → x ∈ store.allBindings ∧ x.keyChain.back = ks :=
    fun ks stored => ⟨mem_allBindings_of_listOf stored, (invariant.listOf ks).2.2 x stored⟩
  have fromRuns : ∀ c ∈ [kc, sc], x ∈ exactRun env store c ∨ x ∈ wildcardRun env store c →
      x ∈ store.allBindings ∧ ∃ c ∈ [kc, sc], env.fit c x.keyChain = true ∧ 0 ≤ c.back.key ∧
        (c.back.anyMod = false ∧ x.keyChain.back = c.back ∨ x.keyChain.back = c.back.setAnyBit) := by
    rintro c chain (exact | wildcard)
    · obtain ⟨exactBack, nonnegative, stored, fits⟩ := (mem_exactRun_iff c x).1 exact
      obtain ⟨stored, trigger⟩ := fromList _ stored
      exact ⟨stored, c, chain, fits, nonnegative, .inl ⟨exactBack, trigger⟩⟩
    · obtain ⟨nonnegative, stored, fits⟩ := (mem_wildcardRun_iff c x).1 wildcard
      obtain ⟨stored, trigger⟩ := fromList _ stored
      exact ⟨stored, c, chain, fits, nonnegative, .inr trigger⟩
  rw [result, List.mem_append] at member
  rcases member with inX | inY
  · rcases List.mem_append.1 ((mergedX.mem x).1 inX).1 with run | run
    exacts [fromRuns kc (by simp) (.inl run), fromRuns sc (by simp) (.inl run)]
  · rcases List.mem_append.1 ((mergedY.mem x).1 inY).1 with run | run
    exacts [fromRuns kc (by simp) (.inr run), fromRuns sc (by simp) (.inr run)]

theorem resolved_bindings_sound_on_attack_store :
    StoreInvariant exampleCollaborators attackStore ∧
      ∀ x ∈ getKeyBindingListOfChains exampleCollaborators attackStore
          (.single ⟨97, 0#8, .keyCode⟩) (.single ⟨4, 0#8, .scanCode⟩),
        x ∈ attackStore.allBindings ∧
          ∃ c ∈ [KeyChain.single ⟨97, 0#8, .keyCode⟩, KeyChain.single ⟨4, 0#8, .scanCode⟩],
            exampleCollaborators.fit c x.keyChain = true ∧ 0 ≤ c.back.key ∧
              (c.back.anyMod = false ∧ x.keyChain.back = c.back ∨
                x.keyChain.back = c.back.setAnyBit) :=
  ⟨attackStore_invariant, resolved_bindings_sound attackStore_invariant _ _⟩

end Reading

/-! ### Removals in any order -/

def isRemoval : Mutation → Bool
  | .unBind _ _ | .unBindKeyset _ => true
  | _ => false

/-- The bindings an `UnBind` or `UnBindKeyset` call keeps, read off its own arguments; a key
text that does not parse keeps every binding. -/
def removalKeeps (env : Collaborators) : Mutation → KeyBinding → Bool
  | .unBind keystr command => match env.parse keystr with
    | none => fun _ => true
    | some ks => fun b => !(b.keyChain.back == ks && b.action.command == command)
  | .unBindKeyset keystr => match env.parse keystr with
    | none => fun _ => true
    | some ks => (·.keyChain.back != ks)
  | _ => fun _ => true

section Removals

variable {env : Collaborators}

theorem Log.keep_true (log : Log) : log.keep (fun _ => true) = log :=
  Log.ext (List.filter_true _) rfl

theorem Log.keep_keep (log : Log) (p q : KeyBinding → Bool) :
    (log.keep p).keep q = log.keep fun b => p b && q b :=
  Log.ext (by simp [List.filter_filter, Bool.and_comm]) rfl

theorem Log.call_of_isRemoval (log : Log) {mutation : Mutation}
    (removal : isRemoval mutation = true) :
    (log.call env mutation).1 = log.keep (removalKeeps env mutation) := by
  cases mutation with
  | unBind keystr command =>
    simp only [Log.call, Log.unBind, removalKeeps]
    split <;> simp [Log.keep_true]
  | unBindKeyset keystr =>
    simp only [Log.call, Log.unBindKeyset, removalKeeps]
    split <;> simp [Log.keep_true]
  | _ => cases removal

theorem Log.run_of_removals (log : Log) {mutations : List Mutation}
    (removals : ∀ m ∈ mutations, isRemoval m = true) :
    log.run env mutations = log.keep fun b => mutations.all (removalKeeps env · b) := by
  induction mutations generalizing log with
  | nil => exact (Log.keep_true log).symm
  | cons mutation mutations ih =>
    rw [Log.run, List.foldl_cons, Log.call_of_isRemoval log (removals _ (List.mem_cons_self _ _))]
    rw [← Log.run, ih _ fun m member => removals m (List.mem_cons_of_mem _ member), Log.keep_keep]
    simp only [List.all_cons]

/-- A sequence of `UnBind` and `UnBindKeyset` calls on a store in its invariant leaves the
same listing, and so the same key-press resolution, in whatever order the calls are made,
although what each call returns may depend on the order. -/
theorem removals_reorder {store : BindingStore} (invariant : StoreInvariant env store)
    {mutations mutations' : List Mutation} (removals : ∀ m ∈ mutations, isRemoval m = true)
    (reordered : mutations.Perm mutations') :
    getKeyBindingList (runMutations env store mutations) =
        getKeyBindingList (runMutations env store mutations') ∧
      ∀ kc sc, getKeyBindingListOfChains env (runMutations env store mutations) kc sc =
        getKeyBindingListOfChains env (runMutations env store mutations') kc sc := by
  have first := storeInvariant_runMutations invariant mutations
  have second := storeInvariant_runMutations invariant mutations'
  have same : logOf first = logOf second := by
    rw [logOf_runMutations invariant, logOf_runMutations invariant, Log.run_of_removals _ removals,
      Log.run_of_removals _ fun m member => removals m (reordered.mem_iff.2 member)]
    congr 1
    funext b
    rw [Bool.eq_iff_iff, List.all_eq_true, List.all_eq_true]
    exact ⟨fun kept m member => kept m (reordered.mem_iff.2 member),
      fun kept m member => kept m (reordered.mem_iff.1 member)⟩
  refine ⟨by rw [← bindings_logOf first, same, bindings_logOf], fun kc sc => ?_⟩
  rw [getKeyBindingListOfChains_eq_log first, getKeyBindingListOfChains_eq_log second, same]

theorem removals_reorder_on_attack_store :
    StoreInvariant exampleCollaborators attackStore ∧
      (∀ m ∈ [Mutation.unBind "a" "attack", .unBindKeyset "sc_a"], isRemoval m = true) ∧
      [Mutation.unBind "a" "attack", .unBindKeyset "sc_a"].Perm
        [.unBindKeyset "sc_a", .unBind "a" "attack"] ∧
      getKeyBindingList (runMutations exampleCollaborators attackStore
          [.unBind "a" "attack", .unBindKeyset "sc_a"]) =
        getKeyBindingList (runMutations exampleCollaborators attackStore
          [.unBindKeyset "sc_a", .unBind "a" "attack"]) ∧
      ∀ kc sc, getKeyBindingListOfChains exampleCollaborators (runMutations exampleCollaborators
          attackStore [.unBind "a" "attack", .unBindKeyset "sc_a"]) kc sc =
        getKeyBindingListOfChains exampleCollaborators (runMutations exampleCollaborators
          attackStore [.unBindKeyset "sc_a", .unBind "a" "attack"]) kc sc :=
  have removals : ∀ m ∈ [Mutation.unBind "a" "attack", .unBindKeyset "sc_a"],
      isRemoval m = true := by decide
  have reordered : [Mutation.unBind "a" "attack", .unBindKeyset "sc_a"].Perm
      [.unBindKeyset "sc_a", .unBind "a" "attack"] := .swap _ _ _
  ⟨attackStore_invariant, removals, reordered,
    removals_reorder attackStore_invariant removals reordered⟩

end Removals

/-! ### Binding, then reading -/

section BindThenRead

variable {env : Collaborators} {store : BindingStore}

/-- When `Bind(keystr, line)` returns true on a store in its invariant and stores a new line
under its trigger, everything read off the listing grows at its end: `GetKeyBindingList()`
gains the numbered binding last, the hotkey index `BuildHotkeyMap` rebuilds is the old one
with the shortcut added under the action's name, and `FileSave` writes the old lines and one
more bind line. -/
theorem bind_appends_to_listing (invariant : StoreInvariant env store) {keystr line : String}
    {keyBinding : KeyBinding} (made : makeKeyBinding env keystr line = some keyBinding)
    (fresh : lineBound store keyBinding = false) (s : Commands.KeyBindings) :
    getKeyBindingList (bind env store keystr line).1 =
        getKeyBindingList store ++ [{ keyBinding with bindingIndex := store.bindingsCount + 1 }] ∧
      Commands.buildHotkeyMap (bind env store keystr line).1 =
        Commands.addHotkey (Commands.buildHotkeyMap store) keyBinding ∧
      Commands.fileSave env { s with store := (bind env store keystr line).1 } =
        Commands.fileSave env { s with store } ++ [Commands.bindLine env keyBinding] := by
  have listing : getKeyBindingList (bind env store keystr line).1 =
      getKeyBindingList store ++ [{ keyBinding with bindingIndex := store.bindingsCount + 1 }] := by
    rw [MutatorLaws.bind_of_made made, ← bindings_logOf (invariant.addKeyBinding made),
      logOf_addKeyBinding invariant made, fresh, if_neg Bool.false_ne_true, Log.bindings_push]
    rfl
  refine ⟨listing, ?_, ?_⟩
  · rw [Commands.buildHotkeyMap, listing, List.foldl_append]
    rfl
  · simp only [Commands.fileSave, listing, List.map_append, List.append_assoc]
    rfl

theorem bind_appends_attack_to_listing :
    StoreInvariant exampleCollaborators attackStore ∧
      makeKeyBinding exampleCollaborators "a" "jump" = some exampleBindingAJump ∧
      lineBound attackStore exampleBindingAJump = false ∧
      getKeyBindingList (bind exampleCollaborators attackStore "a" "jump").1 =
        getKeyBindingList attackStore ++ [{ exampleBindingAJump with bindingIndex := 2 + 1 }] ∧
      Commands.buildHotkeyMap (bind exampleCollaborators attackStore "a" "jump").1 =
        Commands.addHotkey (Commands.buildHotkeyMap attackStore) exampleBindingAJump ∧
      Commands.fileSave exampleCollaborators
          { Commands.KeyBindings.init with store := (bind exampleCollaborators attackStore "a" "jump").1 } =
        Commands.fileSave exampleCollaborators { Commands.KeyBindings.init with store := attackStore } ++
          [Commands.bindLine exampleCollaborators exampleBindingAJump] :=
  have fresh : lineBound attackStore exampleBindingAJump = false := by decide
  ⟨attackStore_invariant, makeKeyBinding_a_jump, fresh,
    bind_appends_to_listing attackStore_invariant makeKeyBinding_a_jump fresh _⟩

end BindThenRead

end RecoilKeyBindings.BindingLog
