import Mathlib.Data.List.Basic

/-!
# Key sets, key chains, actions and bindings

The value types of `CKeyBindings`. `CKeySet`, `CKeyChain::fit`, `Action(line)`, the key code
tables and the key files are not under src: their definitions here are modelled from the
spec, and the functions `CKeyBindings` only calls are collected in `Collaborators`, so that
every result below holds whatever they compute. A `std::string` is a `String` whose
characters stand for its bytes.
-/

namespace RecoilKeyBindings.Keys

set_option autoImplicit false

/-- `CKeySet::CKeySetType`: the keyspace of a key set. -/
inductive KeySetType
  | keyCode
  | scanCode
deriving DecidableEq, Repr

/-- Modelled from the spec: `KS_ANYMOD`, the wildcard bit of the modifier mask. -/
def ksAnyMod : BitVec 8 := 0x10#8

/-- Modelled from the spec: `KS_ALT | KS_CTRL | KS_META | KS_SHIFT`, the held modifiers, in the
bits below the wildcard bit. -/
def ksHeldModifiers : BitVec 8 := 0x0F#8

/-- Modelled from the spec: `CKeySet`, a key identifier with its modifier mask and keyspace.
Equality of all three fields is the map key equality. -/
structure KeySet where
  key : Int
  modifiers : BitVec 8
  type : KeySetType
deriving DecidableEq, Repr

namespace KeySet

def Key (ks : KeySet) : Int := ks.key

def anyMod (ks : KeySet) : Bool := ks.modifiers &&& ksAnyMod != 0#8

/-- Modelled from the spec: `SetAnyBit`, the wildcard variant of a key set. It matches its key
whatever modifiers are held, so the held modifiers are cleared and the wildcard bit set. -/
def setAnyBit (ks : KeySet) : KeySet :=
  { ks with modifiers := (ks.modifiers &&& ~~~ksHeldModifiers) ||| ksAnyMod }

def isKeyCode (ks : KeySet) : Bool := ks.type == .keyCode

private theorem setAnyBit_modifiers_any (modifiers : BitVec 8) :
    ((modifiers &&& ~~~ksHeldModifiers ||| ksAnyMod) &&& ksAnyMod != 0#8) = true := by
  revert modifiers
  decide

private theorem setAnyBit_modifiers_idem (modifiers : BitVec 8) :
    (modifiers &&& ~~~ksHeldModifiers ||| ksAnyMod) &&& ~~~ksHeldModifiers ||| ksAnyMod =
      modifiers &&& ~~~ksHeldModifiers ||| ksAnyMod := by
  revert modifiers
  decide

@[simp] theorem anyMod_setAnyBit (ks : KeySet) : ks.setAnyBit.anyMod = true :=
  setAnyBit_modifiers_any ks.modifiers

@[simp] theorem key_setAnyBit (ks : KeySet) : ks.setAnyBit.key = ks.key := rfl

@[simp] theorem type_setAnyBit (ks : KeySet) : ks.setAnyBit.type = ks.type := rfl

@[simp] theorem isKeyCode_setAnyBit (ks : KeySet) : ks.setAnyBit.isKeyCode = ks.isKeyCode := rfl

@[simp] theorem setAnyBit_setAnyBit (ks : KeySet) : ks.setAnyBit.setAnyBit = ks.setAnyBit :=
  congrArg (fun modifiers => { ks with modifiers }) (setAnyBit_modifiers_idem ks.modifiers)

end KeySet

/-- `CKeyChain`: the chords of a shortcut, the trigger chord last. The chain is never empty:
`Bind` refuses an empty parse, and callers build live chains of at least one chord. -/
structure KeyChain where
  keySets : List KeySet
  nonempty : keySets ≠ []
deriving DecidableEq

namespace KeyChain

def back (kc : KeyChain) : KeySet := kc.keySets.getLast kc.nonempty

/-- The chain with `f` applied to its trigger chord, as `kc.back().SetAnyBit()` does in place. -/
def modifyBack (kc : KeyChain) (f : KeySet → KeySet) : KeyChain :=
  ⟨kc.keySets.dropLast ++ [f kc.back], by simp⟩

@[simp] theorem back_modifyBack (kc : KeyChain) (f : KeySet → KeySet) :
    (kc.modifyBack f).back = f kc.back := by
  simp [back, modifyBack]

@[simp] theorem back_mk_singleton (ks : KeySet) (nonempty : [ks] ≠ []) :
    (⟨[ks], nonempty⟩ : KeyChain).back = ks := rfl

def single (ks : KeySet) : KeyChain := ⟨[ks], by simp⟩

@[simp] theorem back_single (ks : KeySet) : (single ks).back = ks := rfl

end KeyChain

/-- `Action`, with the fields `CKeyBindings` reads. -/
structure Action where
  command : String
  extra : String
  rawline : String
  line : String
deriving DecidableEq, Repr

structure KeyBinding where
  action : Action
  keyChain : KeyChain
  boundWith : String
  bindingIndex : Nat
deriving DecidableEq

/-- The user key symbols of `keyCodes` and `scanCodes`: those `AddKeySymbol` added since the
tables were last `Reset()`, in order, with the keyspace of the table that took each. These and
the built-in symbols are all the tables hold, so they are all that `CKeySet::Parse` can read
of them. -/
structure KeyTables where
  userSymbols : List (KeySetType × String × Int)
deriving DecidableEq, Repr

namespace KeyTables

/-- The tables after `keyCodes.Reset()` and `scanCodes.Reset()`: the built-in symbols only. -/
def builtIn : KeyTables := ⟨[]⟩

/-- The tables after the table of `type` added the symbol `name` for the key `code`. -/
def addSymbol (tables : KeyTables) (type : KeySetType) (name : String) (code : Int) :
    KeyTables :=
  ⟨tables.userSymbols ++ [(type, name, code)]⟩

end KeyTables

/-- The code that `CKeyBindings` calls but that is not under src. Those of its functions that
read the key tables take them as an argument, and `keyTables` are the tables a call runs
with. -/
structure Collaborators where
  /-- `CKeySet::Parse` with the given key tables. -/
  parseWith : KeyTables → String → Option KeySet
  /-- `kc.fit(binding.keyChain)`: the live chain `kc` satisfies the binding's chain. -/
  fit : KeyChain → KeyChain → Bool
  /-- The constructor `Action(line)`. -/
  action : String → Action
  /-- `keyCodes.GetCode(",")` with the given key tables. -/
  commaCodeWith : KeyTables → Int
  /-- `AddKeySymbol(name, code)` of the key table of a keyspace: whether it accepts the name. -/
  acceptsKeySymbol : KeyTables → KeySetType → String → Int → Bool
  /-- The clean lines `CSimpleParser` yields for each key file. -/
  keyFiles : String → List String
  /-- `CSimpleParser::Tokenize(line, minWords)`. -/
  tokenize : String → Nat → List String
  /-- `StringToLower`. -/
  toLower : String → String
  /-- `keyCodes.GetName(code)` with the given key tables. -/
  keyNameWith : KeyTables → Int → String
  /-- What `keyCodes.SaveUserKeySymbols` and `scanCodes.SaveUserKeySymbols` write. -/
  saveUserKeySymbols : KeyTables → List String
  /-- The `  // name - tooltip` comment `FileSave` adds after a `buildunit_` command whose unit
  definition exists, empty otherwise. -/
  unitComment : String → String
  keyTables : KeyTables

namespace Collaborators

/-- `CKeySet::Parse`, reading the tables the call runs with. -/
def parse (env : Collaborators) (keystr : String) : Option KeySet :=
  env.parseWith env.keyTables keystr

/-- `keyCodes.GetCode(",")`, reading the tables the call runs with. -/
def commaCode (env : Collaborators) : Int :=
  env.commaCodeWith env.keyTables

/-- The collaborators of a call made while the key tables are `keyTables`. -/
def withKeyTables (env : Collaborators) (keyTables : KeyTables) : Collaborators :=
  { env with keyTables }

end Collaborators

end RecoilKeyBindings.Keys
