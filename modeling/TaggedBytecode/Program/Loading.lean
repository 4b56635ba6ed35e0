import TaggedBytecode.Config.Basic
import TaggedBytecode.Container.Reader
import TaggedBytecode.Program.Dump
import TaggedBytecode.Text.Blank

/-!
# Loading Programs

A program is kept in any of three forms, told apart by how they begin: a **container** by its
magic, a **dump** by an opening brace, and anything else is an **encoded stream** in the
alphabet of the configuration. Blanks around a text do not count.

What a container says about its program goes before what the configuration says.

## Main definitions

* `LoadedProgram` — a program and what its form fixes about it.
* `LoadedProgram.ofBytes` — recognises and reads any of the forms.
* `Config.adopt`, `PreparedProgram.ofLoaded` — the configuration that a loaded program runs
  under, and the program prepared for it.
* `Config.pack` — the container of a program under a configuration.
-/

namespace TaggedBytecode

/-- A program and what its form fixes about it. -/
structure LoadedProgram where
  program : Program
  markers : Option Markers := none
  flags : ContainerFlags := {}
  /-- What was strange about the form. -/
  warnings : List String := []
  deriving DecidableEq

namespace LoadedProgram

/-- Reads a program out of a text. -/
def ofText (config : Config) (text : String) : Except Failure LoadedProgram :=
  let text := Text.trim text
  if text.toList.head? == some '\x7b' then do
    let dump ← ProgramDump.ofText text
    return { program := dump.program, warnings := dump.warnings }
  else faulting do
    let alphabet ← config.alphabet
    return { program := (← alphabet.decode text).toArray }

/-- Reads a program in any form. -/
def ofBytes (config : Config) (bytes : List UInt8) : Except Failure LoadedProgram :=
  if bytes.take 4 = containerMagic then do
    let c ← Container.decode bytes
    return { program := c.program, markers := c.markers, flags := c.flags }
  else
    match Bytes.text? bytes with
    | some text => ofText config text
    | none => .error (.ofMessage "program is neither a TGVB container nor UTF-8 text")

end LoadedProgram

namespace Config

/-- The configuration under which a loaded program runs. -/
def adopt (config : Config) (loaded : LoadedProgram) : Config :=
  { config with
    markers := loaded.markers.getD config.markers
    stringPool := config.stringPool || loaded.flags.contains .pooled }

/-- The container of a program that was made under a configuration. Only what differs from
the reference configuration is put into it. -/
def pack (config : Config) (program : Program) (source : String) : Container where
  flags := if config.stringPool then .pooled else {}
  program
  markers := if config.markers = {} then none else some config.markers
  provenance := some { source := some source }

end Config

/-- A program with the decoder and the configuration that it runs under. -/
structure PreparedProgram where
  program : Program
  decoder : Decoder
  config : Config

namespace PreparedProgram

/-- Prepares a loaded program; `name` is what it is called. -/
def ofLoaded (config : Config) (name : String) (loaded : LoadedProgram) :
    Except Failure PreparedProgram := do
  let config := config.adopt loaded
  faulting config.validate
  let (program, decoder) ←
    noting ("Failed to prepare " ++ name) (faulting (config.prepare loaded.program))
  return { program, decoder, config }

end PreparedProgram

end TaggedBytecode
