import TaggedBytecode.CommandLine.Path
import TaggedBytecode.CommandLine.Terminal

/-!
# Disks in Memory

A **disk** is a tree of directories and files. A **session** is a disk with what was written
to the two streams, and makes a terminal, so that what a command does can be computed.

## Main definitions

* `Disk` — the tree.
* `Disk.read`, `Disk.write`, `Disk.makeAll` — operations on files, by the components of paths.
* `Disk.files` — all files with their paths.
* `Session.terminal` — the terminal of a session.
-/

namespace TaggedBytecode

/-- A file, or a directory with its entries by name. -/
inductive Disk where
  | file (content : List UInt8)
  | directory (entries : List (String × Disk))
  deriving Inhabited

namespace Disk

/-- A disk without files. -/
def empty : Disk := directory []

/-- Adds or replaces an entry of a directory. -/
def put (name : String) (disk : Disk) : List (String × Disk) → List (String × Disk)
  | [] => [(name, disk)]
  | (n, d) :: rest => if n = name then (name, disk) :: rest else (n, d) :: put name disk rest

/-- The content of a file. -/
def read : (path : List String) → Disk → Except FileError (List UInt8)
  | [], file content => .ok content
  | [], directory _ => .error .isDirectory
  | _ :: _, file _ => .error .notDirectory
  | name :: path, directory entries =>
    match entries.lookup name with
    | some disk => read path disk
    | none => .error .notFound

/-- Gives a file its content. Its directory has to be there. -/
def write (content : List UInt8) : (path : List String) → Disk → Except FileError Disk
  | [], file _ => .ok (file content)
  | [], directory _ => .error .isDirectory
  | _ :: _, file _ => .error .notDirectory
  | name :: path, directory entries =>
    match entries.lookup name, path with
    | some disk, path => (write content path disk).map fun d => directory (put name d entries)
    | none, [] => .ok (directory (put name (file content) entries))
    | none, _ :: _ => .error .notFound

/-- Makes a directory with all directories on the way to it. -/
def makeAll : (path : List String) → Disk → Except FileError Disk
  | [], directory entries => .ok (directory entries)
  | [], file _ => .error .alreadyExists
  | _ :: _, file _ => .error .notDirectory
  | name :: path, directory entries =>
    (makeAll path ((entries.lookup name).getD empty)).map fun d => directory (put name d entries)

mutual

/-- All files with their paths; `above` stands in front of every path. -/
def files (above : String) : Disk → List (String × List UInt8)
  | file content => [(above, content)]
  | directory entries => entryFiles above entries

def entryFiles (above : String) : List (String × Disk) → List (String × List UInt8)
  | [] => []
  | (name, disk) :: rest =>
    files (if above.isEmpty then name else above ++ "/" ++ name) disk ++ entryFiles above rest

end

end Disk

/-- A disk with what was written to the streams. -/
structure Session where
  disk : Disk := .empty
  printed : String := ""
  reported : String := ""
  deriving Inhabited

namespace Session

/-- The components of a path on the disk of a session. An absolute path leads out of it. -/
def locate (path : String) : Except FileError (List String) :=
  if path.isEmpty || Path.isAbsolute path then .error .notFound else .ok (Path.components path)

/-- Reads a file. -/
def readFile (session : Session) (path : String) : Except FileError (List UInt8) := do
  let content ← session.disk.read (← locate path)
  if Path.ending path = .name then return content else .error .notDirectory

/-- Writes a file. A path that ends in a slash is taken for a new directory, and one that ends
in a dot has to be that of an old one. -/
def writeFile (session : Session) (path : String) (content : List UInt8) :
    Except FileError Session := do
  match Path.ending path with
  | .name => return { session with disk := ← session.disk.write content (← locate path) }
  | .slash =>
    let _ ← session.disk.write content (← locate path)
    .error .isDirectory
  | .dot =>
    let _ ← session.disk.read (← locate path)
    .error .notDirectory

/-- Makes a directory. -/
def makeDirectories (session : Session) (path : String) : Except FileError Session := do
  return { session with disk := ← session.disk.makeAll (← locate path) }

/-- Keeps the session where a change fails. -/
def change (f : Session → Except FileError Session) : StateM Session (Except FileError Unit) :=
  fun session =>
    match f session with
    | .ok session => (.ok (), session)
    | .error e => (.error e, session)

/-- The terminal of a session. Its clock stands still. -/
def terminal : Terminal (StateM Session) where
  readFile path session := (session.readFile path, session)
  makeDirectories path := change (·.makeDirectories path)
  writeFile path content := change (·.writeFile path content)
  print text := modify fun session => { session with printed := session.printed ++ text }
  report text := modify fun session => { session with reported := session.reported ++ text }
  clock := return 0

end Session

end TaggedBytecode
