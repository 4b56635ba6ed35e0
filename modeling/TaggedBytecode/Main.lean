import Std.Time.DateTime.Timestamp
import TaggedBytecode.CommandLine.ExitCode

/-!
# The Program

The command line on the files, the streams and the clock of the system.
-/

namespace TaggedBytecode

/-- The number of a system error. Some calls give it negated. -/
def errorNumber (code : UInt32) : UInt32 :=
  if code < 0x80000000 then code else 0 - code

/-- Why the system refused an operation on a file. -/
def fileError : IO.Error → FileError
  | .noFileOrDirectory .. => .notFound
  | .alreadyExists .. => .alreadyExists
  | .inappropriateType _ code details =>
    match errorNumber code with
    | 20 => .notDirectory
    | 21 => .isDirectory
    | n => .other (details ++ " (os error " ++ toString n ++ ")")
  | e => .other (toString e)

/-- The result of an operation on a file. -/
def attempt (act : IO α) : IO (Except FileError α) := do
  match ← act.toBaseIO with
  | .ok a => return .ok a
  | .error e => return .error (fileError e)

def readSystemFile (path : String) : IO (Except FileError (List UInt8)) :=
  attempt do return (← IO.FS.readBinFile path).toList

/-- Makes a directory, unless it is there. -/
def makeDirectory (path : String) : IO (Except FileError Unit) := do
  match ← attempt (IO.FS.createDir path) with
  | .error .alreadyExists =>
    match ← readSystemFile path with
    | .error .isDirectory => return .ok ()
    | _ => return .error .alreadyExists
  | result => return result

/-- Makes a directory, given by its components from the last to the first, with those on the
way to it. -/
def makeDirectories (root : String) : List String → IO (Except FileError Unit)
  | [] => return .ok ()
  | last :: above => do
    let path := root ++ "/".intercalate (last :: above).reverse
    match ← makeDirectory path with
    | .error .notFound =>
      match ← makeDirectories root above with
      | .ok () => makeDirectory path
      | .error e => return .error e
    | result => return result

/-- The terminal of the system. -/
def systemTerminal : Terminal IO where
  readFile := readSystemFile
  makeDirectories path :=
    makeDirectories (if Path.isAbsolute path then "/" else "") (Path.components path).reverse
  writeFile path bytes := attempt (IO.FS.writeBinFile path ⟨bytes.toArray⟩)
  print text := IO.print text
  report text := IO.eprint text
  clock := do
    let now ← Std.Time.Timestamp.now
    return Int64.ofInt now.toMillisecondsSinceUnixEpoch.toInt

end TaggedBytecode

def main (args : List String) : IO UInt32 := do
  let code ← TaggedBytecode.runProgram TaggedBytecode.systemTerminal args
  return code.value.toUInt32
