import TaggedBytecode.Constant.Extraction
import TaggedBytecode.Stream.Alphabet

/-!
# Configurations

A **configuration** says how streams spell programs, how the slots of a program spell
constants, and how far a run may go. It is **valid** when its marker table and its alphabet
are.

To **prepare** a program is to cut its string pool out of it, if the configuration says that
it carries one, and to set up the decoder of its constants.

## Main definitions

* `Config` — a configuration, with the reference values as defaults.
* `Config.validate` — the first thing that is wrong with one.
* `Config.prepare` — a program with the decoder of its constants.
-/

namespace TaggedBytecode

/-- The digits of the reference alphabet. The third is a Cyrillic letter. -/
def referenceDigits : String :=
  "OhМufJ5StvER1M~QCXWryDKi^dHqgGx0c9<k6a2I>$meP3onTB=LwlZj+Ns|VY4AbU78zpF"

/-- The settings of a machine. -/
structure Config where
  /-- The digits of encoded streams. -/
  digits : String := referenceDigits
  /-- How many of the digits end a number. -/
  base : Nat := 43
  markers : Markers := {}
  chars : CharMode := .maskMultiply
  /-- Whether programs carry a string pool. -/
  stringPool : Bool := false
  /-- The budget of instructions, if there is one. -/
  maxSteps : Option Nat := none
  /-- How deep bytecode calls may be nested. -/
  maxCallDepth : Nat := 128
  /-- How many events a trace keeps. -/
  traceLimit : Nat := 1000
  deriving DecidableEq, Repr

namespace Config

/-- The alphabet of encoded streams. -/
def alphabet (config : Config) : Except Fault Alphabet :=
  Alphabet.ofText config.digits config.base

/-- Refuses a configuration that is not valid. -/
def validate (config : Config) : Except Fault Unit := do
  config.markers.validate
  let _ ← config.alphabet

/-- The decoder of constants in programs without a pool. -/
def decoder (config : Config) : Decoder :=
  { markers := config.markers, chars := config.chars }

/-- The program to run with the decoder of its constants. -/
def prepare (config : Config) (program : Program) : Except Fault (Program × Decoder) :=
  if config.stringPool then
    (StringPool.extract program config.markers config.chars).map fun (program, pool) =>
      (program, { config.decoder with pool := some pool })
  else .ok (program, config.decoder)

end Config

end TaggedBytecode
