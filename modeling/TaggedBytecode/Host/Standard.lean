import TaggedBytecode.Host.Basic

/-!
# Standard Capabilities

The capabilities every program can count on: the clock, a store of texts by key, the console,
and the length of a string. The store keeps values in their text form, and a key that is not
there reads as null.

## Main definitions

* `Host.standard` — a host with the standard capabilities.
-/

namespace TaggedBytecode.Host

/-- The key argument of a storage capability. -/
def keyArgument (capability : String) : List Val → HostM String
  | [] | .undefined :: _ => throw (.ofMessage (capability ++ "() requires a key"))
  | key :: _ => return key.key

/-- The time in milliseconds. -/
def clockNow : Capability := fun _ => do
  return .int (← get).clock

def storageGet : Capability := fun args => do
  let key ← keyArgument "storage.get" args
  return (Assoc.get? key (← get).storage).getD .null

def storageSet : Capability := fun args => do
  let key ← keyArgument "storage.set" args
  match args[1]? with
  | none => throw (.ofMessage "storage.set() takes exactly 2 arguments")
  | some value =>
    modify fun world =>
      { world with storage := Assoc.insert key (.str value.text) world.storage }
    return .undefined

def storageRemove : Capability := fun args => do
  let key ← keyArgument "storage.remove" args
  modify fun world => { world with storage := Assoc.erase key world.storage }
  return .undefined

/-- Writes the texts of the arguments as one line. -/
def consoleLog : Capability := fun args => do
  let line := " ".intercalate (args.map Val.text)
  modify fun world => { world with console := world.console.push line }
  return .undefined

/-- The number of UTF-16 units of a string. -/
def stringLength : Capability := fun args =>
  match args with
  | .str s :: _ => return Val.ofLength (Text.utf16Length s)
  | other :: _ =>
    throw (.ofMessage ("string.length() expects a string, got " ++ other.typeName))
  | [] => throw (.ofMessage "string.length() takes exactly 1 argument")

/-- A host with the standard capabilities. -/
def standard : Host :=
  (({} : Host).register "clock.now" clockNow)
    |>.register "storage.get" storageGet
    |>.register "storage.set" storageSet
    |>.register "storage.remove" storageRemove
    |>.register "console.log" consoleLog
    |>.register "string.length" stringLength

end TaggedBytecode.Host
