/-!
# File Paths

A path is a text whose **components** are separated by slashes. Empty components and single
dots say nothing; the path of a file must not lead to a parent directory.

## Main definitions

* `Path.components` — the components that say something.
* `Path.isConfined` — whether no component leads to a parent.
* `Path.parent`, `Path.fileName` — the two parts of a path.
* `Path.ending` — whether a path is written as that of a file.
-/

namespace TaggedBytecode.Path

/-- Splits a text at every slash. -/
def split : List Char → List (List Char)
  | [] => [[]]
  | c :: rest =>
    if c = '/' then [] :: split rest
    else
      match split rest with
      | [] => [[c]]
      | first :: more => (c :: first) :: more

/-- The components of a path. -/
def components (path : String) : List String :=
  ((split path.toList).map String.ofList).filter fun part => part != "" && part != "."

/-- Whether a path starts at the root of all files. -/
def isAbsolute (path : String) : Bool := path.toList.head? == some '/'

/-- How a path ends. -/
inductive Ending where
  /-- In a name. -/
  | name
  /-- In a slash behind a name. -/
  | slash
  /-- In a dot, which is the directory that is named before. -/
  | dot
  deriving DecidableEq, Repr

/-- How a path ends. Only one that ends in a name can be that of a file. -/
def ending (path : String) : Ending :=
  match (split path.toList).getLast? with
  | some ['.'] => .dot
  | some [] => .slash
  | _ => .name

/-- Whether no component of a path leads to a parent directory. -/
def isConfined (path : String) : Bool := !(components path).contains ".."

/-- The path of the directory that a file is in. It is empty where nothing is said of it. -/
def parent (path : String) : String :=
  let above := "/".intercalate (components path).dropLast
  if isAbsolute path then "/" ++ above else above

/-- The name of a file in its directory. -/
def fileName (path : String) : String := (components path).getLast?.getD ""

end TaggedBytecode.Path
