import TaggedBytecode.Document.Basic

/-!
# TOML Tables under Construction

The tables of a TOML text grow while it is read. How a table came to be decides how it may
grow further: a table that is only **implied**, by headers of tables inside it, may get a
header of its own once; one made by a **dotted** key may get more dotted keys but no header;
one with a **header** gets its keys below that header only. What is written in braces or
brackets after an equals sign is complete.

## Main definitions

* `Toml.Node`, `Toml.Table` — tables under construction.
* `Toml.Table.below` — changes the table that a header path leads to.
* `Toml.Table.openTable`, `Toml.Table.addItem`, `Toml.Table.assign` — the ways of growing.
* `Toml.Table.document` — the document of a finished table.
-/

namespace TaggedBytecode.Toml

/-- How a table came to be. -/
inductive TableOrigin where
  | header
  | implied
  | dotted
  deriving DecidableEq

/-- What stands under a key. -/
inductive Node where
  | leaf (value : Document)
  | table (origin : TableOrigin) (entries : List (String × Node))
  /-- An array of tables, of which the last one may grow. -/
  | tables (items : List (List (String × Node)))

/-- A table under construction. -/
abbrev Table := List (String × Node)

namespace Table

/-- Adds or replaces an entry. -/
def put (key : String) (node : Node) : Table → Table
  | [] => [(key, node)]
  | (k, n) :: rest => if k = key then (key, node) :: rest else (k, n) :: put key node rest

/-- Changes the table that the path of a header leads to. Missing tables on the way are
implied, and in an array of tables the way leads through the last one. -/
def below : (path : List String) → (Table → Option Table) → Table → Option Table
  | [], change, t => change t
  | key :: path, change, t =>
    match t.lookup key with
    | none => (below path change []).map fun inner => put key (.table .implied inner) t
    | some (.table origin inner) =>
      (below path change inner).map fun inner => put key (.table origin inner) t
    | some (.tables items) =>
      match items.getLast? with
      | none => none
      | some last =>
        (below path change last).map fun last => put key (.tables (items.dropLast ++ [last])) t
    | some (.leaf _) => none

/-- Gives a table its header. -/
def openTable (key : String) (t : Table) : Option Table :=
  match t.lookup key with
  | none => some (put key (.table .header []) t)
  | some (.table .implied inner) => some (put key (.table .header inner) t)
  | _ => none

/-- Adds a table to an array of tables. -/
def addItem (key : String) (t : Table) : Option Table :=
  match t.lookup key with
  | none => some (put key (.tables [[]]) t)
  | some (.tables items) => some (put key (.tables (items ++ [[]])) t)
  | _ => none

/-- Assigns a value to a dotted key. Such a key may lead through a table that headers imply,
but it does not add a key to one. -/
def assign : (path : List String) → Document → Table → Option Table
  | [], _, _ => none
  | [key], value, t =>
    match t.lookup key with
    | none => some (put key (.leaf value) t)
    | some _ => none
  | key :: path, value, t =>
    match t.lookup key with
    | none => (assign path value []).map fun inner => put key (.table .dotted inner) t
    | some (.table .dotted inner) =>
      (assign path value inner).map fun inner => put key (.table .dotted inner) t
    | some (.table .implied inner) =>
      if path.length = 1 then none
      else (assign path value inner).map fun inner => put key (.table .implied inner) t
    | _ => none

end Table

mutual

/-- The document of what stands under a key. -/
def Node.document : Node → Document
  | .leaf value => value
  | .table _ entries => .mapping (entryDocuments entries)
  | .tables items => .sequence .first (itemDocuments items)

def entryDocuments : List (String × Node) → List (Document × Document)
  | [] => []
  | (key, node) :: rest => (.text key, node.document) :: entryDocuments rest

def itemDocuments : List (List (String × Node)) → List Document
  | [] => []
  | entries :: rest => .mapping (entryDocuments entries) :: itemDocuments rest

end

/-- The document of a finished table. -/
def Table.document (t : Table) : Document := .mapping (entryDocuments t)

end TaggedBytecode.Toml
