import RecoilKeyBindings.Resolution

/-!
# Console commands, key files and the hotkey index

`ExecuteCommand` dispatches one console line to the mutators `Bind`, `UnBind`,
`UnBindAction`, `UnBindKeyset` and `unbindall`, to `SetFakeMetaKey` and `AddKeySymbol`, and to
`keyload`, `keyreload` and `keydefaults`, which run `Load` and `LoadDefaults`. A successful
command ends with `BuildHotkeyMap` when `buildHotkeyMap` is set; a failed mutator returns
before it. `Load` runs every clean line of a key file with the rebuild switched off and
refuses a file already on the load stack. `PushAction` forwards every action but the four
output commands to `ExecuteCommand`.

`Load` calls `ExecuteCommand`, which may call `Load` again: `executeCommand` takes the depth of
that nesting as fuel and gives `none` for a run that nests deeper. The key tables are part of
the state: `keysym` adds a user symbol to them, `unbindall` resets them, and every call parses
with the tables of its time, so the stores of a session are `SessionReachable`. The file
system and the logging are outside the model, so `keydebug` changes nothing here but the
hotkey index.
-/

namespace RecoilKeyBindings.Commands

open RecoilKeyBindings.Keys RecoilKeyBindings.Maps RecoilKeyBindings.Store
open RecoilKeyBindings.Invariants RecoilKeyBindings.MutatorLaws RecoilKeyBindings.Resolution

set_option autoImplicit false

/-- `HotkeyList`s by action name. -/
abbrev HotkeyMap := UnorderedMap String (List String)

/-- The state of `CKeyBindings` that its commands read and write, with the key tables
`keyCodes` and `scanCodes`. -/
structure KeyBindings where
  store : BindingStore
  hotkeys : HotkeyMap
  fakeMetaKey : Int
  buildHotkeyMap : Bool
  loadStack : List String
  keyTables : KeyTables

def KeyBindings.init : KeyBindings := ⟨.empty, .empty, -1, true, [], .builtIn⟩

def defaultFilename : String := "uikeys.txt"

def defaultBindings : List (String × String) := [
  ("esc", "quitmessage"), ("Shift+esc", "quitmenu"), ("Ctrl+Shift+esc", "quitforce"),
  ("Alt+Shift+esc", "reloadforce"), ("Any+pause", "pause"), ("c", "controlunit"),
  ("Any+h", "sharedialog"), ("Any+i", "gameinfo"), ("Any+j", "mouse2"),
  ("backspace", "mousestate"), ("Shift+backspace", "togglecammode"),
  ("Ctrl+backspace", "togglecammode"), ("Any+tab", "toggleoverview"), ("Any+enter", "chat"),
  ("Alt+ctrl+a,Alt+ctrl+a", "chatswitchally"), ("Alt+ctrl+s,Alt+ctrl+s", "chatswitchspec"),
  ("Any+tab", "edit_complete"), ("Any+backspace", "edit_backspace"),
  ("Any+delete", "edit_delete"), ("Any+home", "edit_home"), ("Alt+left", "edit_home"),
  ("Any+end", "edit_end"), ("Alt+right", "edit_end"), ("Any+up", "edit_prev_line"),
  ("Any+down", "edit_next_line"), ("Any+left", "edit_prev_char"),
  ("Any+right", "edit_next_char"), ("Ctrl+left", "edit_prev_word"),
  ("Ctrl+right", "edit_next_word"), ("Any+enter", "edit_return"), ("Any+escape", "edit_escape"),
  ("Ctrl+v", "pastetext"), ("Any+home", "increaseViewRadius"), ("Any+end", "decreaseViewRadius"),
  ("Alt+insert", "speedup"), ("Alt+delete", "slowdown"), ("Alt+=", "speedup"),
  ("Alt++", "speedup"), ("Alt+-", "slowdown"), ("Alt+numpad+", "speedup"),
  ("Alt+numpad-", "slowdown"), (",", "prevmenu"), (".", "nextmenu"),
  ("Shift+,", "decguiopacity"), ("Shift+.", "incguiopacity"), ("1", "specteam 0"),
  ("2", "specteam 1"), ("3", "specteam 2"), ("4", "specteam 3"), ("5", "specteam 4"),
  ("6", "specteam 5"), ("7", "specteam 6"), ("8", "specteam 7"), ("9", "specteam 8"),
  ("0", "specteam 9"), ("Ctrl+1", "specteam 10"), ("Ctrl+2", "specteam 11"),
  ("Ctrl+3", "specteam 12"), ("Ctrl+4", "specteam 13"), ("Ctrl+5", "specteam 14"),
  ("Ctrl+6", "specteam 15"), ("Ctrl+7", "specteam 16"), ("Ctrl+8", "specteam 17"),
  ("Ctrl+9", "specteam 18"), ("Ctrl+0", "specteam 19"), ("Any+0", "group0"), ("Any+1", "group1"),
  ("Any+2", "group2"), ("Any+3", "group3"), ("Any+4", "group4"), ("Any+5", "group5"),
  ("Any+6", "group6"), ("Any+7", "group7"), ("Any+8", "group8"), ("Any+9", "group9"),
  ("[", "buildfacing inc"), ("Shift+[", "buildfacing inc"), ("]", "buildfacing dec"),
  ("Shift+]", "buildfacing dec"), ("Any+z", "buildspacing inc"), ("Any+x", "buildspacing dec"),
  ("a", "attack"), ("Shift+a", "attack"), ("Alt+a", "areaattack"), ("Alt+Shift+a", "areaattack"),
  ("Alt+b", "debug"), ("Alt+v", "debugcolvol"), ("Alt+p", "debugpath"), ("d", "manualfire"),
  ("Shift+d", "manualfire"), ("Ctrl+d", "selfd"), ("Ctrl+Shift+d", "selfd queued"),
  ("e", "reclaim"), ("Shift+e", "reclaim"), ("f", "fight"), ("Shift+f", "fight"),
  ("Alt+f", "forcestart"), ("g", "guard"), ("Shift+g", "guard"), ("k", "cloak"),
  ("Shift+k", "cloak"), ("l", "loadunits"), ("Shift+l", "loadunits"), ("m", "move"),
  ("Shift+m", "move"), ("Alt+o", "singlestep"), ("p", "patrol"), ("Shift+p", "patrol"),
  ("q", "groupselect"), ("q", "groupadd"), ("Ctrl+q", "aiselect"), ("Shift+q", "groupclear"),
  ("r", "repair"), ("Shift+r", "repair"), ("s", "stop"), ("Shift+s", "stop"),
  ("u", "unloadunits"), ("Shift+u", "unloadunits"), ("w", "wait"), ("Shift+w", "wait queued"),
  ("x", "onoff"), ("Shift+x", "onoff"), ("Ctrl+t", "trackmode"), ("Any+t", "track"),
  ("Ctrl+f1", "viewfps"), ("Ctrl+f2", "viewta"), ("Ctrl+f3", "viewspring"),
  ("Ctrl+f4", "viewrot"), ("Ctrl+f5", "viewfree"), ("Any+f1", "ShowElevation"),
  ("Any+f2", "ShowPathTraversability"), ("Any+f3", "LastMsgPos"), ("Any+f4", "ShowMetalMap"),
  ("Any+f5", "HideInterface"), ("Any+f6", "MuteSound"), ("Any+l", "togglelos"),
  ("Ctrl+Shift+f8", "savegame"), ("Ctrl+Shift+f10", "createvideo"), ("Any+f11", "screenshot"),
  ("Any+f12", "screenshot"), ("Alt+enter", "fullscreen"), ("Any+`,Any+`", "drawlabel"),
  ("Any+\\,Any+\\", "drawlabel"), ("Any+~,Any+~", "drawlabel"), ("Any+§,Any+§", "drawlabel"),
  ("Any+^,Any+^", "drawlabel"), ("Any+`", "drawinmap"), ("Any+\\", "drawinmap"),
  ("Any+~", "drawinmap"), ("Any+§", "drawinmap"), ("Any+^", "drawinmap"),
  ("Any+up", "moveforward"), ("Any+down", "moveback"), ("Any+right", "moveright"),
  ("Any+left", "moveleft"), ("Any+pageup", "moveup"), ("Any+pagedown", "movedown"),
  ("Any+ctrl", "moveslow"), ("Any+shift", "movefast"), ("Any+ctrl", "movetilt"),
  ("Any+alt", "movereset"), ("Any+alt", "moverotate"),
  ("Ctrl+a", "select AllMap++_ClearSelection_SelectAll+"),
  ("Ctrl+b", "select AllMap+_Builder_Idle+_ClearSelection_SelectOne+"),
  ("Ctrl+c", "select AllMap+_ManualFireUnit+_ClearSelection_SelectOne+"),
  ("Ctrl+r", "select AllMap+_Radar+_ClearSelection_SelectAll+"),
  ("Ctrl+v", "select AllMap+_Not_Builder_Not_Commander_InPrevSel_Not_InHotkeyGroup+_SelectAll+"),
  ("Ctrl+w", "select AllMap+_Not_Aircraft_Weapons+_ClearSelection_SelectAll+"),
  ("Ctrl+x", "select AllMap+_InPrevSel_Not_InHotkeyGroup+_SelectAll+"),
  ("Ctrl+z", "select AllMap+_InPrevSel+_ClearSelection_SelectAll+")
]

/-! ### The hotkey index -/

/-- The key of an action in the hotkey index: its command, then its extra text after a space
when there is one. -/
def hotkeyName (action : Action) : String :=
  action.command ++ (if action.extra.isEmpty then "" else " " ++ action.extra)

/-- One iteration of `BuildHotkeyMap`: `hotkeys[name].push_back(boundWith)`. -/
def addHotkey (hotkeys : HotkeyMap) (keyBinding : KeyBinding) : HotkeyMap :=
  hotkeys.set (hotkeyName keyBinding.action)
    ((hotkeys.find? (hotkeyName keyBinding.action)).getD [] ++ [keyBinding.boundWith])

/-- `BuildHotkeyMap`: the reverse index of `GetKeyBindingList()`. -/
def buildHotkeyMap (store : BindingStore) : HotkeyMap :=
  (getKeyBindingList store).foldl addHotkey .empty

def getHotkeys (hotkeys : HotkeyMap) (action : String) : List String :=
  (hotkeys.find? action).getD []

/-- The end of a successful `ExecuteCommand`: `if (buildHotkeyMap) BuildHotkeyMap();`. -/
def KeyBindings.finishCommand (s : KeyBindings) : KeyBindings :=
  if s.buildHotkeyMap then { s with hotkeys := Commands.buildHotkeyMap s.store } else s

/-! ### The commands -/

def setFakeMetaKey (env : Collaborators) (s : KeyBindings) (keystr : String) :
    KeyBindings × Bool :=
  if env.toLower keystr == "none" then ({ s with fakeMetaKey := -1 }, true)
  else
    match env.parseWith s.keyTables keystr with
    | none => (s, false)
    | some ks => if !ks.isKeyCode then (s, false) else ({ s with fakeMetaKey := ks.key }, true)

/-- `AddKeySymbol(keysym, code)`: the key tables after the call, and whether it succeeded. The
symbol goes to the table of the keyspace `code` parses to. -/
def addKeySymbol (env : Collaborators) (keyTables : KeyTables) (keysym code : String) :
    KeyTables × Bool :=
  match env.parseWith keyTables code with
  | none => (keyTables, false)
  | some ks =>
    if env.acceptsKeySymbol keyTables ks.type keysym ks.key then
      (keyTables.addSymbol ks.type keysym ks.key, true)
    else (keyTables, false)

def loadDefaults (env : Collaborators) (s : KeyBindings) : KeyBindings :=
  let tmpBuildHotkeyMap := s.buildHotkeyMap
  let s := (setFakeMetaKey env { s with buildHotkeyMap := false } "space").1
  let s := { s with store := bindAll (env.withKeyTables s.keyTables) s.store defaultBindings }
  { s with buildHotkeyMap := tmpBuildHotkeyMap }

/-- `Load(filename)`, given `ExecuteCommand` for the lines of the file. -/
def load (executeCommand : KeyBindings → String → Option (KeyBindings × Bool))
    (env : Collaborators) (s : KeyBindings) (filename : String) : Option (KeyBindings × Bool) :=
  if filename ∈ s.loadStack then some (s, false)
  else
    let tmpBuildHotkeyMap := s.buildHotkeyMap
    let s := { s with buildHotkeyMap := false, loadStack := s.loadStack ++ [filename] }
    ((env.keyFiles filename).foldlM (fun s line => (executeCommand s line).map Prod.fst) s).map
      fun s => ({ s with loadStack := s.loadStack.dropLast, buildHotkeyMap := tmpBuildHotkeyMap },
        true)

/-- A mutator called by `ExecuteCommand`: `if (!mutator(...)) { return false; }`, and the
rebuild after a success. -/
def afterMutation (s : KeyBindings) (result : BindingStore × Bool) : KeyBindings × Bool :=
  if result.2 then ({ s with store := result.1 }.finishCommand, false)
  else ({ s with store := result.1 }, false)

/-- The `keyload` branch of `ExecuteCommand`, given `ExecuteCommand` for nested lines: the
defaults for a top-level `keyload` without a file name, then `Load`. -/
def keyloadCommand (env : Collaborators)
    (executeCommand : KeyBindings → String → Option (KeyBindings × Bool)) (s : KeyBindings)
    (args : List String) : Option (KeyBindings × Bool) :=
  let s := if s.loadStack.isEmpty && args.isEmpty then loadDefaults env s else s
  (load executeCommand env s (args.headD defaultFilename)).map fun loaded =>
    (loaded.1.finishCommand, false)

/-- The `keyreload` branch: `unbindall` and `unbind enter chat`, then what `keyload` does. -/
def keyreloadCommand (env : Collaborators)
    (executeCommand : KeyBindings → String → Option (KeyBindings × Bool)) (s : KeyBindings)
    (args : List String) : Option (KeyBindings × Bool) := do
  let cleared ← executeCommand s "unbindall"
  let cleared ← executeCommand cleared.1 "unbind enter chat"
  keyloadCommand env executeCommand cleared.1 args

def fakemetaCommand (env : Collaborators) (s : KeyBindings) (keystr : String) :
    KeyBindings × Bool :=
  let set := setFakeMetaKey env s keystr
  if set.2 then (set.1.finishCommand, false) else (set.1, false)

def keysymCommand (env : Collaborators) (s : KeyBindings) (keysym code : String) :
    KeyBindings × Bool :=
  let added := addKeySymbol env s.keyTables keysym code
  if added.2 then ({ s with keyTables := added.1 }.finishCommand, false) else (s, false)

/-- `ExecuteCommand(line)`, with `fuel` bounding the nesting of key files. It returns `false`
on every path. -/
def executeCommand (env : Collaborators) : Nat → KeyBindings → String → Option (KeyBindings × Bool)
  | 0, _, _ => none
  | fuel + 1, s, line =>
    match env.tokenize line 2 with
    | [] => some (s, false)
    | word :: args =>
      let command := env.toLower word
      if command == "keydebug" then some (s.finishCommand, false)
      else if command == "keyload" then keyloadCommand env (executeCommand env fuel) s args
      else if command == "keyreload" then keyreloadCommand env (executeCommand env fuel) s args
      else if command == "keydefaults" then some ((loadDefaults env s).finishCommand, false)
      else if command == "fakemeta" && 1 < args.length + 1 then
        some (fakemetaCommand env s (args.getD 0 ""))
      else if command == "keysym" && 2 < args.length + 1 then
        some (keysymCommand env s (args.getD 0 "") (args.getD 1 ""))
      else if command == "bind" && 2 < args.length + 1 then
        some (afterMutation s
          (bind (env.withKeyTables s.keyTables) s.store (args.getD 0 "") (args.getD 1 "")))
      else if command == "unbind" && 2 < args.length + 1 then
        some (afterMutation s
          (unBind (env.withKeyTables s.keyTables) s.store (args.getD 0 "") (args.getD 1 "")))
      else if command == "unbindaction" && 1 < args.length + 1 then
        some (afterMutation s (unBindAction s.store (args.getD 0 "")))
      else if command == "unbindkeyset" && 1 < args.length + 1 then
        some (afterMutation s (unBindKeyset (env.withKeyTables s.keyTables) s.store (args.getD 0 "")))
      else if command == "unbindall" then
        some ({ s with store := unbindall (env.withKeyTables .builtIn), keyTables := .builtIn }.finishCommand,
          false)
      else some (s, false)

/-- `PushAction(action)`: the output commands write files or the log and change nothing;
every other action is executed from its raw line. -/
def pushAction (env : Collaborators) (fuel : Nat) (s : KeyBindings) (action : Action) :
    Option KeyBindings :=
  if action.command == "keysave" then some s
  else if action.command == "keyprint" then some s
  else if action.command == "keysyms" then some s
  else if action.command == "keycodes" then some s
  else (executeCommand env fuel s action.rawline).map Prod.fst

/-- `printf("%Ns", text)`: `text` right-aligned in `width` columns. -/
def padLeft (width : Nat) (text : String) : String :=
  "".pushn ' ' (width - text.length) ++ text

/-- `printf("%-Ns", text)`: `text` left-aligned in `width` columns. -/
def padRight (width : Nat) (text : String) : String :=
  text.pushn ' ' (width - text.length)

/-- The line `FileSave` writes for one binding. -/
def bindLine (env : Collaborators) (keyBinding : KeyBinding) : String :=
  if env.unitComment keyBinding.action.command == "" then
    "bind " ++ padLeft 18 keyBinding.boundWith ++ "  " ++ keyBinding.action.rawline
  else
    "bind " ++ padLeft 18 keyBinding.boundWith ++ "  " ++ padRight 20 keyBinding.action.rawline ++
      env.unitComment keyBinding.action.command

/-- `FileSave(out)`: the lines written, without their line breaks. -/
def fileSave (env : Collaborators) (s : KeyBindings) : List String :=
  ["", "unbindall          // clear the defaults", "unbind enter chat  // clear the defaults", ""] ++
    env.saveUserKeySymbols s.keyTables ++
    (if s.fakeMetaKey ≥ 0 then ["fakemeta  " ++ env.keyNameWith s.keyTables s.fakeMetaKey, ""]
      else []) ++
    (getKeyBindingList s.store).map (bindLine env)

/-! ### `BuildHotkeyMap` builds the reverse index of the store -/

/-- What `hotkeys` is for: under every name, the shortcut texts of the stored bindings of that
name in increasing index (`GetHotkeys` answering the empty list for an absent name), and no
name with an empty list. -/
structure ReverseIndex (store : BindingStore) (hotkeys : HotkeyMap) : Prop where
  lists : ∀ name, ∃ bs : List KeyBinding, bs.Pairwise (·.bindingIndex < ·.bindingIndex) ∧
    (∀ b, b ∈ bs ↔ b ∈ store.allBindings ∧ hotkeyName b.action = name) ∧
    getHotkeys hotkeys name = bs.map (·.boundWith)
  nonempty : ∀ name l, (name, l) ∈ hotkeys.entries → l ≠ []

theorem getHotkeys_foldl_addHotkey (bindings : List KeyBinding) (hotkeys : HotkeyMap)
    (name : String) :
    getHotkeys (bindings.foldl addHotkey hotkeys) name =
      getHotkeys hotkeys name ++
        (bindings.filter (hotkeyName ·.action == name)).map (·.boundWith) := by
  induction bindings generalizing hotkeys with
  | nil => simp
  | cons b bindings ih =>
    rw [List.foldl_cons, ih]
    by_cases same : name = hotkeyName b.action
    · simp [getHotkeys, addHotkey, same, List.filter_cons]
    · simp [getHotkeys, addHotkey, same, List.filter_cons, Ne.symm same]

theorem foldl_addHotkey_nonempty (bindings : List KeyBinding) (hotkeys : HotkeyMap)
    (nonempty : ∀ name l, (name, l) ∈ hotkeys.entries → l ≠ []) :
    ∀ name l, (name, l) ∈ (bindings.foldl addHotkey hotkeys).entries → l ≠ [] := by
  induction bindings generalizing hotkeys with
  | nil => exact nonempty
  | cons b bindings ih =>
    refine ih _ fun name l member => ?_
    rcases (UnorderedMap.mem_set _ _ _ _ _).1 member with ⟨-, rfl⟩ | ⟨-, member⟩
    · simp
    · exact nonempty name l member

theorem reverseIndex_buildHotkeyMap {env : Collaborators} {store : BindingStore}
    (invariant : StoreInvariant env store) : ReverseIndex store (buildHotkeyMap store) where
  lists name := by
    refine ⟨(getKeyBindingList store).filter (hotkeyName ·.action == name),
      (getKeyBindingList_strict invariant).sublist (List.filter_sublist _), fun b => ?_, ?_⟩
    · simp [(getKeyBindingList_perm store).mem_iff]
    · rw [buildHotkeyMap, getHotkeys_foldl_addHotkey]
      simp [getHotkeys]
  nonempty := foldl_addHotkey_nonempty _ _ (by simp)

/-! ### What a command keeps -/

section Outcome

variable {env : Collaborators}

@[simp] theorem finishCommand_store (s : KeyBindings) : s.finishCommand.store = s.store := by
  unfold KeyBindings.finishCommand; split <;> rfl

@[simp] theorem finishCommand_buildHotkeyMap (s : KeyBindings) :
    s.finishCommand.buildHotkeyMap = s.buildHotkeyMap := by
  unfold KeyBindings.finishCommand; split <;> rfl

@[simp] theorem finishCommand_loadStack (s : KeyBindings) :
    s.finishCommand.loadStack = s.loadStack := by
  unfold KeyBindings.finishCommand; split <;> rfl

@[simp] theorem finishCommand_keyTables (s : KeyBindings) :
    s.finishCommand.keyTables = s.keyTables := by
  unfold KeyBindings.finishCommand; split <;> rfl

theorem finishCommand_hotkeys {s : KeyBindings} (rebuild : s.buildHotkeyMap = true) :
    s.finishCommand.hotkeys = buildHotkeyMap s.store := by
  simp [KeyBindings.finishCommand, rebuild]

theorem setFakeMetaKey_eq (env : Collaborators) (s : KeyBindings) (keystr : String) :
    ∃ fakeMetaKey, (setFakeMetaKey env s keystr).1 = { s with fakeMetaKey := fakeMetaKey } := by
  unfold setFakeMetaKey
  split
  · exact ⟨_, rfl⟩
  · split
    · exact ⟨s.fakeMetaKey, rfl⟩
    · split
      · exact ⟨s.fakeMetaKey, rfl⟩
      · exact ⟨_, rfl⟩

theorem sessionReachable_bindAll {store : BindingStore} (reachable : SessionReachable env store)
    (keyTables : KeyTables) (pairs : List (String × String)) :
    SessionReachable env (bindAll (env.withKeyTables keyTables) store pairs) := by
  induction pairs generalizing store with
  | nil => exact reachable
  | cons pair pairs ih => exact ih (.step keyTables (.bind pair.1 pair.2) reachable)

/-- What every part of a command keeps: the rebuild switch and the load stack, and a store a
session reaches stays so. -/
structure Frame (env : Collaborators) (s s' : KeyBindings) : Prop where
  buildHotkeyMap : s'.buildHotkeyMap = s.buildHotkeyMap
  loadStack : s'.loadStack = s.loadStack
  reachable : SessionReachable env s.store → SessionReachable env s'.store

theorem Frame.refl (s : KeyBindings) : Frame env s s := ⟨rfl, rfl, id⟩

theorem Frame.trans {s t u : KeyBindings} (first : Frame env s t) (second : Frame env t u) :
    Frame env s u :=
  ⟨second.buildHotkeyMap.trans first.buildHotkeyMap, second.loadStack.trans first.loadStack,
    second.reachable ∘ first.reachable⟩

theorem Frame.nodup {s t : KeyBindings} (frame : Frame env s t) (nodup : s.loadStack.Nodup) :
    t.loadStack.Nodup :=
  frame.loadStack ▸ nodup

theorem Frame.finishCommand {s t : KeyBindings} (frame : Frame env s t) :
    Frame env s t.finishCommand :=
  ⟨by simp [frame.buildHotkeyMap], by simp [frame.loadStack], by simpa using frame.reachable⟩

theorem frame_loadDefaults (s : KeyBindings) : Frame env s (loadDefaults env s) := by
  obtain ⟨fakeMetaKey, set⟩ := setFakeMetaKey_eq env { s with buildHotkeyMap := false } "space"
  simp only [loadDefaults, set]
  exact ⟨rfl, rfl, fun reachable => sessionReachable_bindAll reachable _ _⟩

theorem frame_keyloadDefaults (s : KeyBindings) (args : List String) :
    Frame env s (if s.loadStack.isEmpty && args.isEmpty then loadDefaults env s else s) := by
  split
  exacts [frame_loadDefaults s, .refl s]

theorem frame_foldlM {exec : KeyBindings → String → Option (KeyBindings × Bool)}
    (execFrame : ∀ s line s' r, exec s line = some (s', r) → Frame env s s')
    (lines : List String) (s s' : KeyBindings)
    (ran : lines.foldlM (fun s line => (exec s line).map Prod.fst) s = some s') :
    Frame env s s' := by
  induction lines generalizing s with
  | nil => cases ran; exact .refl _
  | cons line lines ih =>
    simp only [List.foldlM_cons, Option.bind_eq_bind, Option.bind_eq_some, Option.map_eq_some',
      Prod.exists] at ran
    obtain ⟨t, ⟨u, r, step, same⟩, rest⟩ := ran
    subst same
    exact (execFrame _ line u r step).trans (ih u rest)

theorem frame_load {exec : KeyBindings → String → Option (KeyBindings × Bool)}
    (execFrame : ∀ s line s' r, exec s line = some (s', r) → Frame env s s')
    {s s' : KeyBindings} {filename : String} {r : Bool}
    (loaded : load exec env s filename = some (s', r)) : Frame env s s' := by
  unfold load at loaded
  split at loaded
  · cases loaded; exact .refl s
  · simp only [Option.map_eq_some', Prod.mk.injEq] at loaded
    obtain ⟨t, ran, rfl, -⟩ := loaded
    have inner := frame_foldlM execFrame _ _ t ran
    refine ⟨rfl, ?_, inner.reachable⟩
    simp [inner.loadStack]

/-- What a command does as seen from the top level: it keeps the frame, and a store in its
invariant keeps its hotkey index up to date while the rebuild switch is on. -/
structure Outcome (env : Collaborators) (s s' : KeyBindings) : Prop where
  frame : Frame env s s'
  keepsIndex : s.buildHotkeyMap = true → StoreInvariant env s.store →
    s.hotkeys = buildHotkeyMap s.store → s'.hotkeys = buildHotkeyMap s'.store

theorem Outcome.refl (s : KeyBindings) : Outcome env s s := ⟨.refl s, fun _ _ => id⟩

theorem Frame.outcome_finishCommand {s t : KeyBindings} (frame : Frame env s t) :
    Outcome env s t.finishCommand :=
  ⟨frame.finishCommand, fun rebuild _ _ => by
    rw [finishCommand_hotkeys (frame.buildHotkeyMap.trans rebuild), finishCommand_store]⟩

/-- Every result `result` may give from `s` returns `false` and has the outcome above. -/
def CommandResult (env : Collaborators) (s : KeyBindings) (result : Option (KeyBindings × Bool)) :
    Prop :=
  ∀ s' r, result = some (s', r) → r = false ∧ Outcome env s s'

theorem commandResult_ite {s : KeyBindings} {c : Prop} [Decidable c]
    {yes no : Option (KeyBindings × Bool)} (onYes : CommandResult env s yes)
    (onNo : CommandResult env s no) : CommandResult env s (if c then yes else no) := by
  split
  exacts [onYes, onNo]

theorem commandResult_some {s s' : KeyBindings} (outcome : Outcome env s s') :
    CommandResult env s (some (s', false)) := by
  rintro _ _ ⟨⟩
  exact ⟨rfl, outcome⟩

theorem commandResult_afterMutation {s : KeyBindings} {result : BindingStore × Bool}
    (reach : SessionReachable env s.store → SessionReachable env result.1)
    (unchanged : result.2 = false → StoreInvariant env s.store → result.1 = s.store) :
    CommandResult env s (some (afterMutation s result)) := by
  have frame : Frame env s { s with store := result.1 } := ⟨rfl, rfl, reach⟩
  unfold afterMutation
  split
  · exact commandResult_some frame.outcome_finishCommand
  · next failed =>
    refine commandResult_some ⟨frame, fun _ invariant indexed => ?_⟩
    simpa [unchanged (by simpa using failed) invariant] using indexed

theorem commandResult_fakemetaCommand (s : KeyBindings) (keystr : String) :
    CommandResult env s (some (fakemetaCommand env s keystr)) := by
  obtain ⟨fakeMetaKey, set⟩ := setFakeMetaKey_eq env s keystr
  have frame : Frame env s { s with fakeMetaKey := fakeMetaKey } := ⟨rfl, rfl, id⟩
  unfold fakemetaCommand
  dsimp only
  split <;> rw [set]
  exacts [commandResult_some frame.outcome_finishCommand, commandResult_some ⟨frame, fun _ _ => id⟩]

theorem commandResult_keysymCommand (s : KeyBindings) (keysym code : String) :
    CommandResult env s (some (keysymCommand env s keysym code)) := by
  have frame : Frame env s { s with keyTables := (addKeySymbol env s.keyTables keysym code).1 } :=
    ⟨rfl, rfl, id⟩
  unfold keysymCommand
  dsimp only
  split
  exacts [commandResult_some frame.outcome_finishCommand, commandResult_some (.refl s)]

section Nested

variable {execute : KeyBindings → String → Option (KeyBindings × Bool)}

theorem keyloadCommand_eq (executeFrame : ∀ s line s' r, execute s line = some (s', r) → Frame env s s')
    {s s' : KeyBindings} {args : List String} {r : Bool}
    (ran : keyloadCommand env execute s args = some (s', r)) :
    r = false ∧ ∃ t, Frame env s t ∧ s' = t.finishCommand := by
  simp only [keyloadCommand, Option.map_eq_some', Prod.mk.injEq] at ran
  obtain ⟨loaded, hload, rfl, rfl⟩ := ran
  exact ⟨rfl, loaded.1, (frame_keyloadDefaults s args).trans (frame_load executeFrame hload), rfl⟩

theorem commandResult_keyloadCommand
    (executeFrame : ∀ s line s' r, execute s line = some (s', r) → Frame env s s')
    (s : KeyBindings) (args : List String) :
    CommandResult env s (keyloadCommand env execute s args) := fun _ _ ran => by
  obtain ⟨rfl, t, frame, rfl⟩ := keyloadCommand_eq executeFrame ran
  exact ⟨rfl, frame.outcome_finishCommand⟩

theorem commandResult_keyreloadCommand
    (executeFrame : ∀ s line s' r, execute s line = some (s', r) → Frame env s s')
    (s : KeyBindings) (args : List String) :
    CommandResult env s (keyreloadCommand env execute s args) := fun _ _ ran => by
  simp only [keyreloadCommand, Option.bind_eq_bind, Option.bind_eq_some] at ran
  obtain ⟨cleared, unbound, enter, unbound', loaded⟩ := ran
  obtain ⟨rfl, t, frame, rfl⟩ := keyloadCommand_eq executeFrame loaded
  exact ⟨rfl, ((executeFrame _ _ _ _ unbound).trans
    ((executeFrame _ _ _ _ unbound').trans frame)).outcome_finishCommand⟩

end Nested

/-- Every run of `ExecuteCommand` returns `false`, keeps the rebuild switch and the load
stack, keeps a store a session reaches so, and keeps the hotkey index up to date. -/
theorem executeCommand_result (fuel : Nat) (s : KeyBindings) (line : String) :
    CommandResult env s (executeCommand env fuel s line) := by
  induction fuel generalizing s line with
  | zero => intro _ _ ran; cases ran
  | succ fuel ih =>
    have executeFrame : ∀ s line s' r, executeCommand env fuel s line = some (s', r) →
        Frame env s s' := fun s line s' r ran => (ih s line s' r ran).2.frame
    simp only [executeCommand]
    split
    · exact commandResult_some (.refl s)
    · refine commandResult_ite (commandResult_some (Frame.refl s).outcome_finishCommand)
        (commandResult_ite (commandResult_keyloadCommand executeFrame s _)
        (commandResult_ite (commandResult_keyreloadCommand executeFrame s _)
        (commandResult_ite (commandResult_some (frame_loadDefaults s).outcome_finishCommand)
        (commandResult_ite (commandResult_fakemetaCommand s _)
        (commandResult_ite (commandResult_keysymCommand s _ _)
        (commandResult_ite (commandResult_afterMutation (.step s.keyTables (.bind _ _))
          fun failed _ => bind_failed _ _ failed)
        (commandResult_ite (commandResult_afterMutation (.step s.keyTables (.unBind _ _))
          fun failed invariant => unBind_failed (invariant.withKeyTables _) _ _ failed)
        (commandResult_ite (commandResult_afterMutation (.step s.keyTables (.unBindAction _))
          fun failed invariant => unBindAction_failed invariant _ failed)
        (commandResult_ite (commandResult_afterMutation (.step s.keyTables (.unBindKeyset _))
          fun failed _ => unBindKeyset_failed _ failed)
        (commandResult_ite (commandResult_some
          (Frame.outcome_finishCommand ⟨rfl, rfl, fun _ => .step .builtIn .unbindall .empty⟩))
        (commandResult_some (.refl s))))))))))))

theorem pushAction_outcome {fuel : Nat} {s s' : KeyBindings} {action : Action}
    (pushed : pushAction env fuel s action = some s') : Outcome env s s' := by
  unfold pushAction at pushed
  repeat' (split at pushed; · cases pushed; exact .refl s)
  obtain ⟨⟨_, r⟩, ran, rfl⟩ := Option.map_eq_some'.1 pushed
  exact (executeCommand_result fuel s _ _ r ran).2

end Outcome

/-! ### Fuel only bounds the nesting of key files -/

section Fuel

variable {env : Collaborators} {execute execute' : KeyBindings → String → Option (KeyBindings × Bool)}

theorem mem_ite_of_mem {α : Type} {c : Prop} [Decidable c] {yes no yes' no' : Option α}
    (onYes : ∀ r ∈ yes, r ∈ yes') (onNo : ∀ r ∈ no, r ∈ no') :
    ∀ r ∈ (if c then yes else no), r ∈ (if c then yes' else no') := by
  split
  exacts [onYes, onNo]

theorem foldlM_of_grows (grows : ∀ s line, ∀ r ∈ execute s line, r ∈ execute' s line)
    (lines : List String) (s : KeyBindings) :
    ∀ t ∈ lines.foldlM (fun s line => (execute s line).map Prod.fst) s,
      t ∈ lines.foldlM (fun s line => (execute' s line).map Prod.fst) s := by
  induction lines generalizing s with
  | nil => exact fun _ => id
  | cons line lines ih =>
    intro t ran
    simp only [List.foldlM_cons, Option.bind_eq_bind, Option.mem_def, Option.bind_eq_some,
      Option.map_eq_some'] at ran ⊢
    obtain ⟨u, ⟨r, step, rfl⟩, rest⟩ := ran
    exact ⟨r.1, ⟨r, grows _ _ r step, rfl⟩, ih _ t rest⟩

theorem load_of_grows (grows : ∀ s line, ∀ r ∈ execute s line, r ∈ execute' s line)
    (s : KeyBindings) (filename : String) :
    ∀ r ∈ load execute env s filename, r ∈ load execute' env s filename := by
  unfold load
  split
  · exact fun _ => id
  · intro r ran
    simp only [Option.mem_def, Option.map_eq_some'] at ran ⊢
    obtain ⟨t, ran, rfl⟩ := ran
    exact ⟨t, foldlM_of_grows grows _ _ t ran, rfl⟩

theorem keyloadCommand_of_grows (grows : ∀ s line, ∀ r ∈ execute s line, r ∈ execute' s line)
    (s : KeyBindings) (args : List String) :
    ∀ r ∈ keyloadCommand env execute s args, r ∈ keyloadCommand env execute' s args := by
  intro r ran
  simp only [keyloadCommand, Option.mem_def, Option.map_eq_some'] at ran ⊢
  obtain ⟨loaded, ran, rfl⟩ := ran
  exact ⟨loaded, load_of_grows grows _ _ loaded ran, rfl⟩

theorem keyreloadCommand_of_grows (grows : ∀ s line, ∀ r ∈ execute s line, r ∈ execute' s line)
    (s : KeyBindings) (args : List String) :
    ∀ r ∈ keyreloadCommand env execute s args, r ∈ keyreloadCommand env execute' s args := by
  intro r ran
  simp only [keyreloadCommand, Option.bind_eq_bind, Option.mem_def, Option.bind_eq_some] at ran ⊢
  obtain ⟨cleared, unbound, enter, unbound', loaded⟩ := ran
  exact ⟨cleared, grows _ _ _ unbound, enter, grows _ _ _ unbound',
    keyloadCommand_of_grows grows _ _ _ loaded⟩

theorem executeCommand_of_le {fuel fuel' : Nat} (le : fuel ≤ fuel') (s : KeyBindings)
    (line : String) : ∀ r ∈ executeCommand env fuel s line, r ∈ executeCommand env fuel' s line := by
  induction fuel generalizing fuel' s line with
  | zero => intro _ ran; cases ran
  | succ fuel ih =>
    obtain ⟨fuel', rfl⟩ : ∃ f, fuel' = f + 1 := ⟨fuel' - 1, by omega⟩
    have grows := @ih fuel' (by omega)
    simp only [executeCommand]
    split
    · exact fun _ => id
    -- only `keyload` and `keyreload` run nested lines; the other branches are the same
    · exact mem_ite_of_mem (fun _ => id) (mem_ite_of_mem (keyloadCommand_of_grows grows _ _)
        (mem_ite_of_mem (keyreloadCommand_of_grows grows _ _) fun _ => id))

end Fuel

/-! ### Runs of top-level calls -/

/-- The states that a run of top-level `ExecuteCommand` and `PushAction` calls reaches from the
state after `Init`, each call completing within some nesting depth of key files. -/
inductive Session (env : Collaborators) : KeyBindings → Prop
  | init : Session env .init
  | executeCommand {s s' : KeyBindings} {r : Bool} (fuel : Nat) (line : String) :
      Session env s → Commands.executeCommand env fuel s line = some (s', r) → Session env s'
  | pushAction {s s' : KeyBindings} (fuel : Nat) (action : Action) :
      Session env s → Commands.pushAction env fuel s action = some s' → Session env s'

/-- What holds between two top-level calls. -/
structure SessionInvariant (env : Collaborators) (s : KeyBindings) : Prop where
  reachable : SessionReachable env s.store
  buildHotkeyMap : s.buildHotkeyMap = true
  loadStack : s.loadStack = []
  hotkeys : s.hotkeys = Commands.buildHotkeyMap s.store

section Sessions

variable {env : Collaborators}

theorem sessionInvariant_init : SessionInvariant env .init :=
  ⟨.empty, rfl, rfl, by
    simp [KeyBindings.init, buildHotkeyMap, getKeyBindingList, collectBindings, BindingStore.empty]⟩

theorem SessionInvariant.step {s s' : KeyBindings} (invariant : SessionInvariant env s)
    (outcome : Outcome env s s') : SessionInvariant env s' :=
  ⟨outcome.frame.reachable invariant.reachable,
    outcome.frame.buildHotkeyMap.trans invariant.buildHotkeyMap,
    outcome.frame.loadStack.trans invariant.loadStack,
    outcome.keepsIndex invariant.buildHotkeyMap (sessionReachable_storeInvariant invariant.reachable)
      invariant.hotkeys⟩

theorem sessionInvariant_of_session {s : KeyBindings} (session : Session env s) :
    SessionInvariant env s := by
  induction session with
  | init => exact sessionInvariant_init
  | executeCommand fuel line _ ran invariant =>
    exact invariant.step (executeCommand_result fuel _ line _ _ ran).2
  | pushAction fuel action _ pushed invariant => exact invariant.step (pushAction_outcome pushed)

end Sessions

end RecoilKeyBindings.Commands
