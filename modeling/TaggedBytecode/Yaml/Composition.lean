import TaggedBytecode.Document.Basic
import TaggedBytecode.Yaml.Token

/-!
# Composing Documents from YAML Tokens

The tokens of a node form a document. In front of a node there may be an anchor and a tag. An
**alias** stands for the last node with its anchor; inside that node itself it can only be
skipped.

An item, a key or a value may be **missing**; it is an empty plain scalar then. In a flow
sequence a key and its value form a mapping of their own.

## Main definitions

* `Yaml.Composition` — the state of composing.
* `Yaml.Compose.node` — composes a node.
* `Yaml.Compose.stream` — composes the only document of a text.
-/

namespace TaggedBytecode.Yaml

/-- A node with an anchor. -/
structure Anchored where
  document : Document
  /-- How many aliases one goes through when reading it as a whole. -/
  aliases : Nat

/-- The state of composing. -/
structure Composition where
  tokens : List Token
  /-- What the handles of tags stand for. -/
  handles : List (String × String) := []
  /-- The nodes with anchors, the last one first. -/
  anchors : List (String × Anchored) := []
  /-- How many aliases one goes through when reading all nodes so far. -/
  aliases : Nat := 0
  /-- How many aliases one may go through when reading a node. -/
  aliasLimit : Nat

/-- A step of composing, which fails on tokens that form no document. -/
abbrev Compose := StateT Composition Option

/-- A scalar that is not there. -/
def missing : Document := .plain ""

/-- The start of the tags of the language itself. -/
def coreTag : String := "tag:yaml.org,2002:"

/-- The handles that need no directive. -/
def coreHandles : List (String × String) := [("!", "!"), ("!!", coreTag)]

namespace Compose

/-- The next token. -/
def peek : Compose (Option Token) := do return (← get).tokens.head?

/-- Moves behind the next token. -/
def skip : Compose Unit := modify fun s => { s with tokens := s.tokens.drop 1 }

/-- Moves behind the next token, if it is the given one. -/
def accept (token : Token) : Compose Bool := do
  if (← peek) = some token then
    skip
    return true
  else return false

/-- Moves behind the next token, which has to be the given one. -/
def expect (token : Token) : Compose Unit := do
  if !(← accept token) then failure

/-- Whether the next token is one of those given. -/
def isAt (tokens : List Token) : Compose Bool := do return (← peek).any tokens.contains

/-! ### Anchors and tags -/

/-- Reads an anchor, if there is one. -/
def anchor? : Compose (Option String) := do
  match ← peek with
  | some (.anchor name) =>
    skip
    return some name
  | _ => return none

/-- Reads a tag, if there is one. -/
def tag? : Compose (Option String) := do
  match ← peek with
  | some (.tag handle rest) =>
    skip
    if handle.isEmpty then return some rest
    match (← get).handles.lookup handle with
    | some start => return some (start ++ rest)
    | none => failure
  | _ => return none

/-- Reads an anchor and a tag in either order, each if there is one. -/
def properties : Compose (Option String × Option String) := do
  match ← anchor? with
  | some name => return (some name, ← tag?)
  | none =>
    match ← tag? with
    | some tag => return (← anchor?, some tag)
    | none => return (none, none)

/-- Gives an anchor to a node. -/
def define (name : Option String) (node : Anchored) : Compose Unit :=
  match name with
  | some name => modify fun s => { s with anchors := (name, node) :: s.anchors }
  | none => return

/-- The node that an alias stands for. -/
def aliased (name : String) : Compose Document := do
  let s ← get
  match s.anchors.lookup name with
  | some node =>
    set { s with aliases := s.aliases + node.aliases + 1 }
    return if node.aliases < s.aliasLimit then node.document else .unreadable
  | none => failure

/-- The document of a scalar. Where its tag asks for a truth value, a literal scalar is as good
as a plain one. -/
def scalar (style : ScalarStyle) (tag : Option String) (text : String) : Document :=
  match tag with
  | none | some "!" => if style = .plain then .plain text else .text text
  | some tag =>
    if style = .plain ∨ (style = .literal ∧ tag = coreTag ++ "bool" ∧ !text.isEmpty) then
      .tagged tag (.plain text)
    else .tagged tag (.text text)

/-- A document with its tag, if it has one. -/
def withTag (tag : Option String) (d : Document) : Document :=
  match tag with
  | some tag => .tagged tag d
  | none => d

/-! ### Nodes -/

mutual

/-- Composes a node. With `inBlock` it may be a block collection, and with `flush` a block
sequence that is not indented. -/
def node (inBlock flush : Bool) : (fuel : Nat) → Compose Document
  | 0 => failure
  | fuel + 1 => do
    if let some (.alias name) ← peek then
      skip
      return ← aliased name
    let (anchor, tag) ← properties
    let before := (← get).aliases
    define anchor ⟨.unreadable, 0⟩
    let document ← content inBlock flush fuel anchor tag
    define anchor ⟨document, (← get).aliases - before⟩
    return document

/-- Composes what follows the anchor and the tag of a node. Where they are all of it, the node
is missing. -/
def content (inBlock flush : Bool) : (fuel : Nat) → (anchor tag : Option String) →
    Compose Document
  | 0, _, _ => failure
  | fuel + 1, anchor, tag => do
    match ← peek with
    | some (.scalar style text) =>
      skip
      return scalar style tag text
    | some .flowSequence =>
      skip
      return withTag tag (.sequence .never (← flowItems true fuel))
    | some .flowMapping =>
      skip
      return withTag tag (.mapping (← flowEntries true fuel))
    | some .item =>
      if flush then return withTag tag (.sequence .never (← flushItems fuel))
    | some .blockSequence =>
      if inBlock then
        skip
        return withTag tag (.sequence .never (← blockItems fuel))
    | some .blockMapping =>
      if inBlock then
        skip
        return withTag tag (.mapping (← blockEntries fuel))
    | _ => pure ()
    if anchor.isSome || tag.isSome then return withTag tag missing else failure

/-- Composes the items of a block sequence. -/
def blockItems : (fuel : Nat) → Compose (List Document)
  | 0 => failure
  | fuel + 1 => do
    if ← accept .blockEnd then return []
    expect .item
    let item ←
      if ← isAt [.item, .blockEnd] then pure missing else node true false fuel
    return item :: (← blockItems fuel)

/-- Composes the items of a block sequence that is not indented. It ends where no item
follows. -/
def flushItems : (fuel : Nat) → Compose (List Document)
  | 0 => failure
  | fuel + 1 => do
    if ← accept .item then
      let item ←
        if ← isAt [.item, .key, .value, .blockEnd] then pure missing
        else node true false fuel
      return item :: (← flushItems fuel)
    else return []

/-- Composes the entries of a block mapping. -/
def blockEntries : (fuel : Nat) → Compose (List (Document × Document))
  | 0 => failure
  | fuel + 1 => do
    if ← accept .blockEnd then return []
    expect .key
    let key ← blockPart fuel
    let value ← if ← accept .value then blockPart fuel else pure missing
    return (key, value) :: (← blockEntries fuel)

/-- Composes a key or a value of a block mapping. -/
def blockPart : (fuel : Nat) → Compose Document
  | 0 => failure
  | fuel + 1 => do
    if ← isAt [.key, .value, .blockEnd] then return missing else node true true fuel

/-- Composes the items of a flow sequence; there is no comma in front of the `first`. -/
def flowItems (first : Bool) : (fuel : Nat) → Compose (List Document)
  | 0 => failure
  | fuel + 1 => do
    if ← accept .flowSequenceEnd then return []
    if !first then expect .separator
    if ← accept .flowSequenceEnd then return []
    let item ←
      if ← accept .key then
        let key ← pairKey fuel
        let value ← flowValue .flowSequenceEnd fuel
        pure (.mapping [(key, value)])
      else node false false fuel
    return item :: (← flowItems false fuel)

/-- Composes the key of a pair in a flow sequence. Where it is missing, what stands in its
place is lost. -/
def pairKey : (fuel : Nat) → Compose Document
  | 0 => failure
  | fuel + 1 => do
    if ← isAt [.value, .separator, .flowSequenceEnd] then
      skip
      return missing
    else node false false fuel

/-- Composes the entries of a flow mapping; there is no comma in front of the `first`. What is
no key has no value either. -/
def flowEntries (first : Bool) : (fuel : Nat) → Compose (List (Document × Document))
  | 0 => failure
  | fuel + 1 => do
    if ← accept .flowMappingEnd then return []
    if !first then expect .separator
    if ← accept .flowMappingEnd then return []
    let entry ←
      if ← accept .key then
        let key ←
          if ← isAt [.value, .separator, .flowMappingEnd] then pure missing
          else node false false fuel
        pure (key, ← flowValue .flowMappingEnd fuel)
      else pure (← node false false fuel, missing)
    return entry :: (← flowEntries false fuel)

/-- Composes the value of an entry in flow structure, with its colon. -/
def flowValue (close : Token) : (fuel : Nat) → Compose Document
  | 0 => failure
  | fuel + 1 => do
    if ← accept .value then
      if ← isAt [.separator, close] then return missing else node false false fuel
    else return missing

end

/-! ### Texts -/

/-- Reads the directives in front of a document: at most one version, which has to be 1.1 or
1.2, and handles with different names. -/
def directives (versionAllowed : Bool) : (fuel : Nat) → Compose Unit
  | 0 => failure
  | fuel + 1 => do
    match ← peek with
    | some (.version major minor) =>
      if !versionAllowed || major ≠ 1 || (minor ≠ 1 && minor ≠ 2) then failure
      skip
      directives false fuel
    | some (.handle name start) =>
      if ((← get).handles.lookup name).isSome then failure
      modify fun s => { s with handles := (name, start) :: s.handles }
      skip
      directives versionAllowed fuel
    | _ => return

/-- Composes the document behind its directives and its marker, if it has any of them. -/
def document (fuel : Nat) : Compose Document := do
  match ← peek with
  | some (.version ..) | some (.handle ..) | some .documentStart =>
    directives true fuel
    expect .documentStart
    modify fun s => { s with handles := s.handles ++ coreHandles }
    match ← peek with
    | none | some .documentEnd => return missing
    | _ => node true false fuel
  | _ =>
    modify fun s => { s with handles := coreHandles }
    node true false fuel

/-- Composes the only document of a text. A text without any is an empty mapping. -/
def stream (fuel : Nat) : Compose Document := do
  if (← peek).isNone then return .mapping []
  let document ← document fuel
  modify fun s => { s with tokens := s.tokens.dropWhile (· == .documentEnd) }
  if (← peek).isNone then return document else failure

end Compose

/-- The document of the tokens of a text. -/
def compose? (tokens : List Token) : Option Document :=
  let start : Composition := { tokens, aliasLimit := 100 * tokens.length }
  (Compose.stream (4 * tokens.length + 8) start).map Prod.fst

end TaggedBytecode.Yaml
