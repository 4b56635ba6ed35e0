/-!
# Terminals

A **terminal** is all that a command sees of its surroundings: files, two streams to write to,
and a clock. Commands work on any terminal, in whatever monad it acts.

## Main definitions

* `FileError` — why a file cannot be used.
* `Terminal` — the surroundings of a command.
-/

namespace TaggedBytecode

/-- Why a file cannot be used. -/
inductive FileError where
  | notFound
  | alreadyExists
  | notDirectory
  | isDirectory
  | notText
  | other (text : String)
  deriving DecidableEq, Repr

namespace FileError

def message : FileError → String
  | notFound => "No such file or directory (os error 2)"
  | alreadyExists => "File exists (os error 17)"
  | notDirectory => "Not a directory (os error 20)"
  | isDirectory => "Is a directory (os error 21)"
  | notText => "stream did not contain valid UTF-8"
  | other text => text

end FileError

/-- The surroundings of a command. -/
structure Terminal (m : Type → Type) where
  /-- The content of a file. -/
  readFile : (path : String) → m (Except FileError (List UInt8))
  /-- Makes a directory with all directories on the way to it. -/
  makeDirectories : (path : String) → m (Except FileError Unit)
  /-- Gives a file its content, whether or not it was there. -/
  writeFile : (path : String) → List UInt8 → m (Except FileError Unit)
  /-- Writes to the stream for results. -/
  print : String → m Unit
  /-- Writes to the stream for reports. -/
  report : String → m Unit
  /-- Milliseconds since the start of 1970. -/
  clock : m Int64

end TaggedBytecode
