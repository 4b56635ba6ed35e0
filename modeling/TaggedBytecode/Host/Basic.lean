import TaggedBytecode.Failure
import TaggedBytecode.Text.Quoted
import TaggedBytecode.Val.Property

/-!
# The Host

A program reaches the world around it only through named **capabilities** of its host. Every
call of a capability passes through the host's **interceptors**, the first one registered
outermost; each may look at the call, change it, repeat it or refuse it.

The **world** is all that capabilities may read and change. It also hands out the identities
of containers.

## Main definitions

* `World` — the state that capabilities act on.
* `Host` — capabilities and interceptors.
* `Host.call` — calls a capability through the interceptors.
-/

namespace TaggedBytecode

/-- The state that capabilities act on. -/
structure World where
  /-- The identity of the next container. -/
  nextIdentity : Nat := 0
  /-- The entries of the storage capability, by key. -/
  storage : List (String × Val) := []
  /-- The lines written to the console. -/
  console : Array String := #[]
  /-- The lines that interceptors noted. -/
  journal : Array String := #[]
  /-- Milliseconds since the start of 1970. -/
  clock : Int64 := 0
  deriving Inhabited

/-- What a capability does: it acts on the world, and gives a value or fails. -/
abbrev HostM := ExceptT Failure (StateM World)

namespace World

/-- Gives out an identity. -/
def allocate (world : World) : Nat × World :=
  (world.nextIdentity, { world with nextIdentity := world.nextIdentity + 1 })

end World

/-- Makes a new list. -/
def HostM.newList (items : List Val) : HostM Val := do
  let identity ← modifyGet World.allocate
  return .list identity items

/-- A host function. -/
abbrev Capability := List Val → HostM Val

/-- A wrapper around calls: it is given the name, the arguments and the rest of the call. -/
abbrev Interceptor := String → List Val → Capability → HostM Val

/-- The capabilities open to a program. -/
structure Host where
  /-- Capabilities by name. -/
  capabilities : List (String × Capability) := []
  /-- The interceptors, the outermost first. -/
  interceptors : List Interceptor := []

namespace Host

/-- Adds or replaces a capability. -/
def register (host : Host) (name : String) (capability : Capability) : Host :=
  { host with capabilities := Assoc.insert name capability host.capabilities }

/-- Adds an innermost interceptor. -/
def intercept (host : Host) (interceptor : Interceptor) : Host :=
  { host with interceptors := host.interceptors ++ [interceptor] }

def contains (host : Host) (name : String) : Bool :=
  (Assoc.get? name host.capabilities).isSome

/-- The names of the capabilities in ascending order. -/
def names (host : Host) : List String :=
  host.capabilities.map (·.1)

/-- Calls a capability. -/
def call (host : Host) (name : String) (args : List Val) : HostM Val :=
  match Assoc.get? name host.capabilities with
  | none => throw (.ofMessage ("Unknown host capability: " ++ name))
  | some capability =>
    host.interceptors.foldr (fun interceptor next args => interceptor name args next)
      capability args

/-- A summary of a host for diagnostics. -/
def describe (host : Host) : String :=
  "HostCapabilities \x7b functions: [" ++ ", ".intercalate (host.names.map Text.quote) ++
    "], interceptors: " ++ toString host.interceptors.length ++ " \x7d"

end Host

end TaggedBytecode
