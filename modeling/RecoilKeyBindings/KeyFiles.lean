import RecoilKeyBindings.Commands

/-!
# Nested key files

`keyload` and `keyreload` inside a key file run `Load` again, to any depth and around any cycle
of files. `Load` refuses a file already on the load stack and pushes only a new one, so no call
of a run begins from a stack that names a file twice; and with finitely many non-empty key
files the nesting ends, since every nested `Load` that runs lines puts one more of those files
on the stack (`pendingFiles`). Every call gives back the stack and the rebuild switch it began
with.

`executeCommandBody` is the body of `ExecuteCommand` with the nested call as a parameter, and
`executeCommandChecked` runs it with a check of the stack at the start of every call, at every
depth.
-/

namespace RecoilKeyBindings.KeyFiles

open RecoilKeyBindings.Keys RecoilKeyBindings.Store RecoilKeyBindings.MutatorLaws
open RecoilKeyBindings.Commands

set_option autoImplicit false

/-- The body of `ExecuteCommand(line)`, given `ExecuteCommand` for the lines it runs in turn. -/
def executeCommandBody (env : Collaborators)
    (executeCommand : KeyBindings → String → Option (KeyBindings × Bool)) (s : KeyBindings)
    (line : String) : Option (KeyBindings × Bool) :=
  match env.tokenize line 2 with
  | [] => some (s, false)
  | word :: args =>
    let command := env.toLower word
    if command == "keydebug" then some (s.finishCommand, false)
    else if command == "keyload" then keyloadCommand env executeCommand s args
    else if command == "keyreload" then keyreloadCommand env executeCommand s args
    else if command == "keydefaults" then some ((loadDefaults env s).finishCommand, false)
    else if command == "fakemeta" && 1 < args.length + 1 then
      some (fakemetaCommand env s (args.getD 0 ""))
    else if command == "keysym" && 2 < args.length + 1 then
      some (keysymCommand env s (args.getD 0 "") (args.getD 1 ""))
    else if command == "bind" && 2 < args.length + 1 then
      some (afterMutation s
        (bind (env.withKeyTables s.keyTables) s.store (args.getD 0 "") (args.getD 1 "")))
    else if command == "unbind" && 2 < args.length + 1 then
      some (afterMutation s
        (unBind (env.withKeyTables s.keyTables) s.store (args.getD 0 "") (args.getD 1 "")))
    else if command == "unbindaction" && 1 < args.length + 1 then
      some (afterMutation s (unBindAction s.store (args.getD 0 "")))
    else if command == "unbindkeyset" && 1 < args.length + 1 then
      some (afterMutation s (unBindKeyset (env.withKeyTables s.keyTables) s.store (args.getD 0 "")))
    else if command == "unbindall" then
      some ({ s with store := unbindall (env.withKeyTables .builtIn), keyTables := .builtIn }.finishCommand,
        false)
    else some (s, false)

theorem executeCommand_succ (env : Collaborators) (fuel : Nat) (s : KeyBindings) (line : String) :
    executeCommand env (fuel + 1) s line =
      executeCommandBody env (executeCommand env fuel) s line :=
  rfl

/-- `ExecuteCommand` with a check at the start of every call, at every depth of nesting: a call
that begins from a load stack naming a file twice fails. -/
def executeCommandChecked (env : Collaborators) :
    Nat → KeyBindings → String → Option (KeyBindings × Bool)
  | 0, _, _ => none
  | fuel + 1, s, line =>
    if s.loadStack.Nodup then executeCommandBody env (executeCommandChecked env fuel) s line
    else none

/-- The listed key files that are not on the load stack. -/
def pendingFiles (names loadStack : List String) : Nat :=
  (names.filter (· ∉ loadStack)).length

/-- `CSimpleParser::Tokenize` and `StringToLower` read the two lines `keyreload` runs as the
`unbindall` and `unbind` commands they are. -/
structure ReadsReloadLines (env : Collaborators) : Prop where
  wordsUnbindall : env.tokenize "unbindall" 2 = ["unbindall"]
  wordsUnbind : env.tokenize "unbind enter chat" 2 = ["unbind", "enter", "chat"]
  lowerUnbindall : env.toLower "unbindall" = "unbindall"
  lowerUnbind : env.toLower "unbind" = "unbind"

theorem pendingFiles_push_lt {names loadStack : List String} {filename : String}
    (listed : filename ∈ names) (fresh : filename ∉ loadStack) :
    pendingFiles names (loadStack ++ [filename]) < pendingFiles names loadStack := by
  have pushed : names.filter (· ∉ loadStack ++ [filename]) =
      (names.filter (· ∉ loadStack)).filter (· ≠ filename) := by
    rw [List.filter_filter]
    congr
    funext name
    simp [and_comm]
  rw [pendingFiles, pendingFiles, pushed]
  exact List.length_filter_lt_length_iff_exists.2
    ⟨filename, List.mem_filter.2 ⟨listed, by simpa using fresh⟩, by simp⟩

theorem pendingFiles_le (names loadStack : List String) :
    pendingFiles names loadStack ≤ names.length :=
  List.length_filter_le _ _

theorem executeCommand_reloadLines {env : Collaborators} (reads : ReadsReloadLines env)
    (fuel : Nat) (s : KeyBindings) :
    (executeCommand env (fuel + 1) s "unbindall").isSome ∧
      (executeCommand env (fuel + 1) s "unbind enter chat").isSome :=
  ⟨by simp [executeCommand, reads.wordsUnbindall, reads.lowerUnbindall],
    by simp [executeCommand, reads.wordsUnbind, reads.lowerUnbind]⟩

/-! ### No call begins from a stack naming a file twice -/

section Checked

variable {env : Collaborators}
variable {execute execute' : KeyBindings → String → Option (KeyBindings × Bool)}
variable (executeFrame : ∀ s line s' r, execute s line = some (s', r) → Frame env s s')

include executeFrame

theorem foldlM_congr {loadStack : List String}
    (agree : ∀ t line, t.loadStack = loadStack → execute t line = execute' t line)
    (lines : List String) (s : KeyBindings) (onStack : s.loadStack = loadStack) :
    lines.foldlM (fun s line => (execute s line).map Prod.fst) s =
      lines.foldlM (fun s line => (execute' s line).map Prod.fst) s := by
  induction lines generalizing s with
  | nil => rfl
  | cons line lines ih =>
    simp only [List.foldlM_cons]
    rw [← agree s line onStack]
    cases ran : execute s line with
    | none => rfl
    | some result => exact ih result.1 ((executeFrame _ _ _ _ ran).loadStack.trans onStack)

variable (agree : ∀ t line, t.loadStack.Nodup → execute t line = execute' t line)

include agree

/-- `Load` pushes only a file not on the stack, so its lines run from a stack without
duplicates. -/
theorem load_congr (s : KeyBindings) (nodup : s.loadStack.Nodup) (filename : String) :
    load execute env s filename = load execute' env s filename := by
  simp only [load]
  split
  · rfl
  · next fresh =>
    have pushed : (s.loadStack ++ [filename]).Nodup := by
      simpa [List.nodup_append] using ⟨nodup, fresh⟩
    rw [foldlM_congr executeFrame (fun t line onStack => agree t line (onStack ▸ pushed)) _
      { s with buildHotkeyMap := false, loadStack := s.loadStack ++ [filename] } rfl]

theorem keyloadCommand_congr (s : KeyBindings) (nodup : s.loadStack.Nodup) (args : List String) :
    keyloadCommand env execute s args = keyloadCommand env execute' s args := by
  simp only [keyloadCommand]
  rw [load_congr executeFrame agree _ ((frame_keyloadDefaults s args).nodup nodup)]

theorem keyreloadCommand_congr (s : KeyBindings) (nodup : s.loadStack.Nodup)
    (args : List String) :
    keyreloadCommand env execute s args = keyreloadCommand env execute' s args := by
  simp only [keyreloadCommand, ← agree s "unbindall" nodup]
  cases cleared : execute s "unbindall" with
  | none => rfl
  | some cleared' =>
    have clearedNodup := (executeFrame _ _ _ _ cleared).nodup nodup
    simp only [Option.bind_eq_bind, Option.some_bind, ← agree _ "unbind enter chat" clearedNodup]
    cases unbound : execute cleared'.1 "unbind enter chat" with
    | none => rfl
    | some unbound' =>
      exact keyloadCommand_congr executeFrame agree _
        ((executeFrame _ _ _ _ unbound).nodup clearedNodup) args

theorem executeCommandBody_congr (s : KeyBindings) (nodup : s.loadStack.Nodup) (line : String) :
    executeCommandBody env execute s line = executeCommandBody env execute' s line := by
  unfold executeCommandBody
  split
  · rfl
  · simp only [keyloadCommand_congr executeFrame agree s nodup,
      keyreloadCommand_congr executeFrame agree s nodup]

end Checked

/-- From a load stack without duplicates, no call of a run, at any depth of nesting, begins
from a stack that names a file twice: the checked run is the run. -/
theorem executeCommandChecked_eq {env : Collaborators} (fuel : Nat) :
    ∀ s line, s.loadStack.Nodup →
      executeCommandChecked env fuel s line = executeCommand env fuel s line := by
  induction fuel with
  | zero => intro _ _ _; rfl
  | succ fuel ih =>
    intro s line nodup
    rw [executeCommandChecked, if_pos nodup, executeCommand_succ]
    exact (executeCommandBody_congr
      (fun t line t' r ran => (executeCommand_result fuel t line t' r ran).2.frame)
      (fun t line nodup => (ih t line nodup).symm) s nodup line).symm

/-! ### The nesting ends -/

section Termination

variable {env : Collaborators} {execute : KeyBindings → String → Option (KeyBindings × Bool)}
variable (executeFrame : ∀ s line s' r, execute s line = some (s', r) → Frame env s s')
variable (names : List String) (finite : ∀ filename ∉ names, env.keyFiles filename = [])

include executeFrame

theorem foldlM_isSome {loadStack : List String}
    (runs : ∀ t line, t.loadStack = loadStack → (execute t line).isSome) (lines : List String)
    (s : KeyBindings) (onStack : s.loadStack = loadStack) :
    (lines.foldlM (fun s line => (execute s line).map Prod.fst) s).isSome := by
  induction lines generalizing s with
  | nil => rfl
  | cons line lines ih =>
    obtain ⟨result, ran⟩ := Option.isSome_iff_exists.1 (runs s line onStack)
    simp only [List.foldlM_cons, ran]
    exact ih result.1 ((executeFrame _ _ _ _ ran).loadStack.trans onStack)

include finite

/-- `Load` runs the lines of a file only after putting it on the stack, so a nested call has
fewer listed files pending. -/
theorem load_isSome (s : KeyBindings)
    (runs : ∀ t line, pendingFiles names t.loadStack < pendingFiles names s.loadStack →
      (execute t line).isSome) (filename : String) :
    (load execute env s filename).isSome := by
  simp only [load]
  split
  · rfl
  · next fresh =>
    by_cases listed : filename ∈ names
    · rw [Option.isSome_map']
      exact foldlM_isSome executeFrame (fun t line onStack => runs t line
        (onStack ▸ pendingFiles_push_lt listed fresh)) _ _ rfl
    · simp [finite filename listed]

theorem keyloadCommand_isSome (s : KeyBindings)
    (runs : ∀ t line, pendingFiles names t.loadStack < pendingFiles names s.loadStack →
      (execute t line).isSome) (args : List String) :
    (keyloadCommand env execute s args).isSome := by
  have defaults : Frame env s _ := frame_keyloadDefaults s args
  simp only [keyloadCommand, Option.isSome_map']
  exact load_isSome executeFrame names finite _
    (fun t line fewer => runs t line (defaults.loadStack ▸ fewer)) _

theorem keyreloadCommand_isSome (s : KeyBindings)
    (clears : ∀ t, t.loadStack = s.loadStack →
      (execute t "unbindall").isSome ∧ (execute t "unbind enter chat").isSome)
    (runs : ∀ t line, pendingFiles names t.loadStack < pendingFiles names s.loadStack →
      (execute t line).isSome) (args : List String) :
    (keyreloadCommand env execute s args).isSome := by
  obtain ⟨cleared, ranClear⟩ := Option.isSome_iff_exists.1 (clears s rfl).1
  have sameClear := (executeFrame _ _ _ _ ranClear).loadStack
  obtain ⟨unbound, ranUnbind⟩ := Option.isSome_iff_exists.1 (clears cleared.1 sameClear).2
  have sameUnbind := (executeFrame _ _ _ _ ranUnbind).loadStack.trans sameClear
  simp only [keyreloadCommand, Option.bind_eq_bind, ranClear, ranUnbind, Option.some_bind]
  exact keyloadCommand_isSome executeFrame names finite _
    (fun t line fewer => runs t line (sameUnbind ▸ fewer)) args

end Termination

theorem executeCommandBody_isSome {env : Collaborators}
    {execute : KeyBindings → String → Option (KeyBindings × Bool)} (s : KeyBindings)
    (loads : ∀ args, (keyloadCommand env execute s args).isSome)
    (reloads : ∀ args, (keyreloadCommand env execute s args).isSome) (line : String) :
    (executeCommandBody env execute s line).isSome := by
  unfold executeCommandBody
  split
  · rfl
  · simp only [apply_ite Option.isSome, Option.isSome_some, loads, reloads, ite_self]

theorem executeCommand_isSome {env : Collaborators} (names : List String)
    (finite : ∀ filename ∉ names, env.keyFiles filename = []) (reads : ReadsReloadLines env)
    (fuel : Nat) :
    ∀ s line, pendingFiles names s.loadStack + 2 ≤ fuel → (executeCommand env fuel s line).isSome := by
  induction fuel with
  | zero => intro _ _ enough; omega
  | succ fuel ih =>
    intro s line enough
    obtain ⟨fuel, rfl⟩ : ∃ f, fuel = f + 1 := ⟨fuel - 1, by omega⟩
    have executeFrame : ∀ t line t' r, executeCommand env (fuel + 1) t line = some (t', r) →
        Frame env t t' := fun t line t' r ran => (executeCommand_result _ t line t' r ran).2.frame
    have runs : ∀ t line, pendingFiles names t.loadStack < pendingFiles names s.loadStack →
        (executeCommand env (fuel + 1) t line).isSome := fun t line fewer => ih t line (by omega)
    rw [executeCommand_succ]
    exact executeCommandBody_isSome s
      (keyloadCommand_isSome executeFrame names finite s runs)
      (keyreloadCommand_isSome executeFrame names finite s
        (fun t _ => executeCommand_reloadLines reads fuel t) runs) line

/-- With finitely many non-empty key files (`names` lists them), from a load stack without
duplicates, `ExecuteCommand(line)` completes through any nesting of `keyload` and `keyreload`,
cycles included, once the nesting depth allowed is two more than the number of those files;
no call of the run, at any depth, begins from a stack naming a file twice; and every call of
`ExecuteCommand` or `Load` that returns gives back the load stack and the rebuild switch it
began with. -/
theorem executeCommand_terminates_with_nodup_stacks (env : Collaborators) (names : List String)
    (finite : ∀ filename ∉ names, env.keyFiles filename = []) (reads : ReadsReloadLines env)
    (s : KeyBindings) (line : String) (nodup : s.loadStack.Nodup) :
    (∃ s' r, ∀ fuel, names.length + 2 ≤ fuel →
        executeCommand env fuel s line = some (s', r) ∧
          executeCommandChecked env fuel s line = some (s', r)) ∧
      (∀ fuel t line' t' r, executeCommand env fuel t line' = some (t', r) →
        t'.loadStack = t.loadStack ∧ t'.buildHotkeyMap = t.buildHotkeyMap) ∧
      (∀ fuel t filename t' r, load (executeCommand env fuel) env t filename = some (t', r) →
        t'.loadStack = t.loadStack ∧ t'.buildHotkeyMap = t.buildHotkeyMap) := by
  have executeFrame : ∀ fuel t line' t' r, executeCommand env fuel t line' = some (t', r) →
      Frame env t t' := fun fuel t line' t' r ran => (executeCommand_result fuel t line' t' r ran).2.frame
  have completes := executeCommand_isSome names finite reads (names.length + 2) s line
    (by have := pendingFiles_le names s.loadStack; omega)
  obtain ⟨⟨s', r⟩, ran⟩ := Option.isSome_iff_exists.1 completes
  refine ⟨⟨s', r, fun fuel enough => ?_⟩, fun fuel t line' t' r ran => ?_,
    fun fuel t filename t' r loaded => ?_⟩
  · have later := executeCommand_of_le enough s line _ ran
    exact ⟨later, (executeCommandChecked_eq fuel s line nodup).trans later⟩
  · have frame := executeFrame fuel t line' t' r ran
    exact ⟨frame.loadStack, frame.buildHotkeyMap⟩
  · have frame := frame_load (executeFrame fuel) loaded
    exact ⟨frame.loadStack, frame.buildHotkeyMap⟩

/-- Two key files that load each other, `b.txt` also binding `a`. -/
def cyclicCollaborators : Collaborators :=
  { exampleCollaborators with
    keyFiles := fun filename =>
      if filename = "a.txt" then ["keyload b.txt"]
      else if filename = "b.txt" then ["keyload a.txt", "bind a attack"] else [] }

theorem cyclicCollaborators_finite :
    ∀ filename ∉ ["a.txt", "b.txt"], cyclicCollaborators.keyFiles filename = [] := by
  intro filename unlisted
  simp only [List.mem_cons, List.not_mem_nil, or_false, not_or] at unlisted
  simp [cyclicCollaborators, unlisted.1, unlisted.2]

theorem executeCommand_terminates_on_cyclic_files :
    (∀ filename ∉ ["a.txt", "b.txt"], cyclicCollaborators.keyFiles filename = []) ∧
      ReadsReloadLines cyclicCollaborators ∧ KeyBindings.init.loadStack.Nodup ∧
      (∃ s' r, ∀ fuel, ["a.txt", "b.txt"].length + 2 ≤ fuel →
        executeCommand cyclicCollaborators fuel .init "keyload a.txt" = some (s', r) ∧
          executeCommandChecked cyclicCollaborators fuel .init "keyload a.txt" = some (s', r)) ∧
      (∀ fuel t line' t' r, executeCommand cyclicCollaborators fuel t line' = some (t', r) →
        t'.loadStack = t.loadStack ∧ t'.buildHotkeyMap = t.buildHotkeyMap) ∧
      (∀ fuel t filename t' r,
        load (executeCommand cyclicCollaborators fuel) cyclicCollaborators t filename = some (t', r) →
          t'.loadStack = t.loadStack ∧ t'.buildHotkeyMap = t.buildHotkeyMap) :=
  have reads : ReadsReloadLines cyclicCollaborators := ⟨by decide, by decide, rfl, rfl⟩
  ⟨cyclicCollaborators_finite, reads, List.nodup_nil,
    executeCommand_terminates_with_nodup_stacks cyclicCollaborators ["a.txt", "b.txt"]
      cyclicCollaborators_finite reads .init "keyload a.txt" List.nodup_nil⟩

/-! ### What a command reads of the state

`ExecuteCommand` reads the bindings, the key tables and the load stack, never the hotkey map,
the meta key or the rebuild switch, so two states that agree on the first three stay in
agreement through any line, nested key files included. `keyreload` replaces the bindings and
the key tables by those of `unbindall` before it loads, so what it leaves depends on the load
stack alone. -/

/-- Two states with the same bindings, key tables and load stack. -/
structure SameBindings (s t : KeyBindings) : Prop where
  store : s.store = t.store
  loadStack : s.loadStack = t.loadStack
  keyTables : s.keyTables = t.keyTables

/-- Two results of a command: both fail, or both answer the same and leave states with the
same bindings, key tables and load stack. -/
def SameResult (result result' : Option (KeyBindings × Bool)) : Prop :=
  Option.Rel (fun a b => SameBindings a.1 b.1 ∧ a.2 = b.2) result result'

section OptionRel

variable {α β γ δ : Type} {r : α → β → Prop} {q : γ → δ → Prop} {a : Option α} {b : Option β}

theorem optionRel_bind (related : Option.Rel r a b) {f : α → Option γ} {g : β → Option δ}
    (step : ∀ x y, r x y → Option.Rel q (f x) (g y)) : Option.Rel q (a.bind f) (b.bind g) := by
  cases related with
  | none => exact .none
  | some holds => exact step _ _ holds

theorem optionRel_map (related : Option.Rel r a b) {f : α → γ} {g : β → δ}
    (step : ∀ x y, r x y → q (f x) (g y)) : Option.Rel q (a.map f) (b.map g) := by
  cases related with
  | none => exact .none
  | some holds => exact .some (step _ _ holds)

end OptionRel

section SameState

variable {env : Collaborators} {s t : KeyBindings}

theorem SameBindings.finishCommand (same : SameBindings s t) :
    SameBindings s.finishCommand t.finishCommand :=
  ⟨by simp [same.store], by simp [same.loadStack], by simp [same.keyTables]⟩

theorem SameBindings.result (same : SameBindings s t) (r : Bool) :
    SameResult (some (s, r)) (some (t, r)) :=
  .some ⟨same, rfl⟩

theorem sameResult_ite {c : Prop} [Decidable c] {yes no yes' no' : Option (KeyBindings × Bool)}
    (onYes : SameResult yes yes') (onNo : SameResult no no') :
    SameResult (if c then yes else no) (if c then yes' else no') := by
  split
  exacts [onYes, onNo]

theorem SameResult.map_store {result result' : Option (KeyBindings × Bool)}
    (same : SameResult result result') :
    result.map (·.1.store) = result'.map (·.1.store) := by
  cases same with
  | none => rfl
  | some related => exact congrArg some related.1.store

theorem sameBindings_loadDefaults (same : SameBindings s t) :
    SameBindings (loadDefaults env s) (loadDefaults env t) := by
  obtain ⟨_, set⟩ := setFakeMetaKey_eq env { s with buildHotkeyMap := false } "space"
  obtain ⟨_, set'⟩ := setFakeMetaKey_eq env { t with buildHotkeyMap := false } "space"
  simp only [loadDefaults, set, set']
  exact ⟨by rw [same.store, same.keyTables], same.loadStack, same.keyTables⟩

theorem sameResult_afterMutation (same : SameBindings s t) (result : BindingStore × Bool) :
    SameResult (some (afterMutation s result)) (some (afterMutation t result)) := by
  have stored : SameBindings { s with store := result.1 } { t with store := result.1 } :=
    ⟨rfl, same.loadStack, same.keyTables⟩
  unfold afterMutation
  split
  exacts [stored.finishCommand.result false, stored.result false]

theorem setFakeMetaKey_snd (sameTables : s.keyTables = t.keyTables) (keystr : String) :
    (setFakeMetaKey env s keystr).2 = (setFakeMetaKey env t keystr).2 := by
  unfold setFakeMetaKey
  rw [sameTables]
  split
  · rfl
  · split
    · rfl
    · split <;> rfl

theorem sameResult_fakemetaCommand (same : SameBindings s t) (keystr : String) :
    SameResult (some (fakemetaCommand env s keystr)) (some (fakemetaCommand env t keystr)) := by
  obtain ⟨_, set⟩ := setFakeMetaKey_eq env s keystr
  obtain ⟨_, set'⟩ := setFakeMetaKey_eq env t keystr
  have kept : SameBindings (setFakeMetaKey env s keystr).1 (setFakeMetaKey env t keystr).1 := by
    rw [set, set']
    exact ⟨same.store, same.loadStack, same.keyTables⟩
  unfold fakemetaCommand
  dsimp only
  rw [setFakeMetaKey_snd same.keyTables]
  split
  exacts [kept.finishCommand.result false, kept.result false]

theorem sameResult_keysymCommand (same : SameBindings s t) (keysym code : String) :
    SameResult (some (keysymCommand env s keysym code)) (some (keysymCommand env t keysym code)) := by
  have added : SameBindings { s with keyTables := (addKeySymbol env t.keyTables keysym code).1 }
      { t with keyTables := (addKeySymbol env t.keyTables keysym code).1 } :=
    ⟨same.store, same.loadStack, rfl⟩
  unfold keysymCommand
  dsimp only
  rw [same.keyTables]
  split
  exacts [added.finishCommand.result false, same.result false]

section Nested

variable {execute : KeyBindings → String → Option (KeyBindings × Bool)}
variable (executeSame : ∀ s t line, SameBindings s t → SameResult (execute s line) (execute t line))

include executeSame

theorem sameBindings_foldlM (lines : List String) (same : SameBindings s t) :
    Option.Rel SameBindings (lines.foldlM (fun s line => (execute s line).map Prod.fst) s)
      (lines.foldlM (fun s line => (execute s line).map Prod.fst) t) := by
  induction lines generalizing s t with
  | nil => exact .some same
  | cons line lines ih =>
    simp only [List.foldlM_cons, Option.bind_eq_bind]
    exact optionRel_bind (optionRel_map (executeSame s t line same) fun _ _ related => related.1)
      fun _ _ related => ih related

theorem sameResult_load (same : SameBindings s t) (filename : String) :
    SameResult (load execute env s filename) (load execute env t filename) := by
  unfold load
  rw [same.loadStack]
  split
  · exact same.result false
  · refine optionRel_map (sameBindings_foldlM executeSame _ ?_) ?_
    · exact ⟨same.store, rfl, same.keyTables⟩
    · exact fun _ _ related =>
        ⟨⟨related.store, by simp only [related.loadStack], related.keyTables⟩, rfl⟩

theorem sameResult_keyloadCommand (same : SameBindings s t) (args : List String) :
    SameResult (keyloadCommand env execute s args) (keyloadCommand env execute t args) := by
  have defaults : SameBindings (if s.loadStack.isEmpty && args.isEmpty then loadDefaults env s else s)
      (if t.loadStack.isEmpty && args.isEmpty then loadDefaults env t else t) := by
    rw [same.loadStack]
    split
    exacts [sameBindings_loadDefaults same, same]
  exact optionRel_map (sameResult_load executeSame defaults _)
    fun _ _ related => ⟨related.1.finishCommand, rfl⟩

theorem sameResult_keyreloadCommand (same : SameBindings s t) (args : List String) :
    SameResult (keyreloadCommand env execute s args) (keyreloadCommand env execute t args) :=
  optionRel_bind (executeSame s t "unbindall" same) fun _ _ cleared =>
    optionRel_bind (executeSame _ _ _ cleared.1) fun _ _ unbound =>
      sameResult_keyloadCommand executeSame unbound.1 args

end Nested

theorem executeCommand_sameResult (fuel : Nat) (same : SameBindings s t) (line : String) :
    SameResult (executeCommand env fuel s line) (executeCommand env fuel t line) := by
  induction fuel generalizing s t line with
  | zero => exact .none
  | succ fuel ih =>
    have executeSame : ∀ s t line, SameBindings s t → SameResult (executeCommand env fuel s line)
        (executeCommand env fuel t line) := fun _ _ line same => ih same line
    have cleared : SameBindings
        { s with store := unbindall (env.withKeyTables .builtIn), keyTables := .builtIn }
        { t with store := unbindall (env.withKeyTables .builtIn), keyTables := .builtIn } :=
      ⟨rfl, same.loadStack, rfl⟩
    simp only [executeCommand]
    split
    · exact same.result false
    · rw [same.store, same.keyTables]
      exact sameResult_ite (same.finishCommand.result false)
        (sameResult_ite (sameResult_keyloadCommand executeSame same _)
        (sameResult_ite (sameResult_keyreloadCommand executeSame same _)
        (sameResult_ite ((sameBindings_loadDefaults same).finishCommand.result false)
        (sameResult_ite (sameResult_fakemetaCommand same _)
        (sameResult_ite (sameResult_keysymCommand same _ _)
        (sameResult_ite (sameResult_afterMutation same _)
        (sameResult_ite (sameResult_afterMutation same _)
        (sameResult_ite (sameResult_afterMutation same _)
        (sameResult_ite (sameResult_afterMutation same _)
        (sameResult_ite (cleared.finishCommand.result false)
        (same.result false)))))))))))

theorem executeCommand_unbindall (reads : ReadsReloadLines env) (fuel : Nat) (s : KeyBindings) :
    executeCommand env (fuel + 1) s "unbindall" =
      some ({ s with store := unbindall (env.withKeyTables .builtIn), keyTables := .builtIn }.finishCommand,
        false) := by
  simp [executeCommand, reads.wordsUnbindall, reads.lowerUnbindall]

theorem sameResult_keyreload (reads : ReadsReloadLines env) (fuel : Nat)
    (sameStack : s.loadStack = t.loadStack) (args : List String) :
    SameResult (keyreloadCommand env (executeCommand env fuel) s args)
      (keyreloadCommand env (executeCommand env fuel) t args) := by
  cases fuel with
  | zero => exact .none
  | succ fuel =>
    have cleared : SameBindings
        { s with store := unbindall (env.withKeyTables .builtIn), keyTables := .builtIn }.finishCommand
        { t with store := unbindall (env.withKeyTables .builtIn), keyTables := .builtIn }.finishCommand :=
      SameBindings.finishCommand ⟨rfl, sameStack, rfl⟩
    simp only [keyreloadCommand, Option.bind_eq_bind, executeCommand_unbindall reads,
      Option.some_bind]
    exact optionRel_bind (executeCommand_sameResult _ cleared _) fun _ _ unbound =>
      sameResult_keyloadCommand (fun _ _ line same => executeCommand_sameResult _ same line)
        unbound.1 args

end SameState

/-- A `keyreload` line leaves the same bindings from any two states with the same load stack,
whatever each had bound, loaded, set or added to the key tables before, and it fails on both or
on neither. -/
theorem keyreload_forgets_bindings {env : Collaborators} (reads : ReadsReloadLines env)
    (fuel : Nat) {s t : KeyBindings} (sameStack : s.loadStack = t.loadStack) {line word : String}
    {args : List String} (words : env.tokenize line 2 = word :: args)
    (reload : env.toLower word = "keyreload") :
    (executeCommand env fuel s line).map (·.1.store) =
      (executeCommand env fuel t line).map (·.1.store) := by
  refine SameResult.map_store ?_
  cases fuel with
  | zero => exact .none
  | succ fuel =>
    simp only [executeCommand, words, reload, String.reduceBEq, Bool.false_eq_true, if_false,
      if_true]
    exact sameResult_keyreload reads fuel sameStack args

theorem keyreload_forgets_bindings_of_attack :
    ReadsReloadLines exampleCollaborators ∧
      KeyBindings.init.loadStack =
        ({ KeyBindings.init with store := addKeyBinding .empty exampleBindingA } : KeyBindings).loadStack ∧
      exampleCollaborators.tokenize "keyreload" 2 = ["keyreload"] ∧
      exampleCollaborators.toLower "keyreload" = "keyreload" ∧
      (executeCommand exampleCollaborators 3 .init "keyreload").map (·.1.store) =
        (executeCommand exampleCollaborators 3
          { KeyBindings.init with store := addKeyBinding .empty exampleBindingA } "keyreload").map
          (·.1.store) :=
  have reads : ReadsReloadLines exampleCollaborators := ⟨by decide, by decide, rfl, rfl⟩
  have stack : KeyBindings.init.loadStack =
      ({ KeyBindings.init with store := addKeyBinding .empty exampleBindingA } : KeyBindings).loadStack :=
    rfl
  have words : exampleCollaborators.tokenize "keyreload" 2 = ["keyreload"] := by decide
  have lower : exampleCollaborators.toLower "keyreload" = "keyreload" := rfl
  ⟨reads, stack, words, lower, keyreload_forgets_bindings reads 3 stack words lower⟩

end RecoilKeyBindings.KeyFiles
