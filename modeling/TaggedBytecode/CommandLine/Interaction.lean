import TaggedBytecode.CommandLine.Command
import TaggedBytecode.CommandLine.Terminal
import TaggedBytecode.Config.Document
import TaggedBytecode.Opcode.Text
import TaggedBytecode.Program.Loading
import TaggedBytecode.Reference.Opcodes

/-!
# Interaction with a Terminal

A command acts on a terminal and may break down: in a **failure**, which knows everything that
was being done when it arose, or because a run was aborted.

## Main definitions

* `TerminalM` — what a command does on a terminal.
* `TerminalM.readText`, `TerminalM.writeText` — whole files.
* `TerminalM.config`, `TerminalM.load`, `TerminalM.prepare`, `TerminalM.opcodes` — the inputs
  of commands.
-/

namespace TaggedBytecode

/-- Why a command does not end well. -/
inductive Breakdown where
  | failure (failure : Failure)
  /-- Machine arithmetic failed. -/
  | aborted (message : String)

/-- What is done on a terminal. -/
abbrev TerminalM (m : Type → Type) := ReaderT (Terminal m) (ExceptT Breakdown m)

namespace TerminalM

variable {m : Type → Type} [Monad m]

/-- Does something to the terminal. -/
def terminal (f : Terminal m → m α) : TerminalM m α := fun t => ExceptT.lift (f t)

/-- A result, or the failure to get it. -/
def ofExcept (r : Except Failure α) : TerminalM m α := fun _ =>
  match r with
  | .ok a => pure a
  | .error e => throw (.failure e)

/-- The result of an operation on files; the note says what was being done. -/
def file (note : String) (f : Terminal m → m (Except FileError α)) : TerminalM m α := do
  ofExcept (noting note ((← terminal f).mapError fun e => .ofMessage e.message))

/-! ### Files -/

/-- Reads a text file. -/
def readText (note path : String) : TerminalM m String := do
  let bytes ← file note (·.readFile path)
  match Bytes.text? bytes with
  | some text => return text
  | none => ofExcept (.error (Failure.note note (.ofMessage FileError.notText.message)))

/-- Writes a file, and makes its directory first. -/
def writeBytes (path : String) (bytes : List UInt8) : TerminalM m Unit := do
  if Path.parent path ≠ "" then
    file ("Failed to create parent directory for " ++ path)
      (·.makeDirectories (Path.parent path))
  file ("Failed to write " ++ path) (·.writeFile path bytes)

def print (text : String) : TerminalM m Unit := terminal (·.print text)

def report (text : String) : TerminalM m Unit := terminal (·.report text)

/-- Writes a text to a file, or prints it where there is none. -/
def writeText (path : Option String) (text : String) : TerminalM m Unit := do
  match path with
  | some path =>
    writeBytes path (Bytes.ofText text)
    report ("Wrote " ++ path ++ "\n")
  | none => print (text ++ "\n")

/-! ### Inputs -/

/-- The configuration of a command. -/
def config (options : CommonOptions) : TerminalM m Config := do
  let config ←
    match options.config with
    | some path => do
      let text ← readText ("Failed to read config " ++ path) path
      ofExcept (noting ("Invalid config " ++ path) (Config.ofText text))
    | none => pure {}
  let config := options.override config
  ofExcept (faulting config.validate)
  return config

/-- Loads a program in any of its forms. -/
def load (config : Config) (path : String) : TerminalM m LoadedProgram := do
  let bytes ← file ("Failed to read program " ++ path) (·.readFile path)
  ofExcept (noting ("Invalid program " ++ path) (LoadedProgram.ofBytes config bytes))

/-- Loads and prepares a program. -/
def prepare (config : Config) (path : String) : TerminalM m PreparedProgram := do
  let loaded ← load config path
  ofExcept (PreparedProgram.ofLoaded config path loaded)

/-- The opcodes in a file, or the reference opcodes where there is none. -/
def opcodes (path : Option String) : TerminalM m OpcodeMap := do
  match path with
  | none => return Reference.map
  | some path =>
    let text ← readText ("Failed to read opcode map " ++ path) path
    let format := DocumentFormat.ofFileName (Path.fileName path)
    ofExcept (noting ("Invalid opcode map " ++ path) (OpcodeMap.ofText format text))

end TerminalM

end TaggedBytecode
