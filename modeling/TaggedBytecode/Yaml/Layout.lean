import TaggedBytecode.Yaml.Block
import TaggedBytecode.Yaml.Plain
import TaggedBytecode.Yaml.Property
import TaggedBytecode.Yaml.Quoted

/-!
# Layout of YAML Texts

A **layout** is a text that has been split into tokens up to a cursor. It keeps the columns of
the block collections that are open, the outermost last: a token further left closes those
deeper than itself.

A node may turn out to be a **key** when a colon follows it, on one line and within a certain
length. A layout keeps one **candidate** for each flow collection that is open and one for
what is around them. In block structure a node at the column of an open collection has to be
a key.

## Main definitions

* `Yaml.Layout` — a text split into tokens up to a cursor.
* `Yaml.Layout.next` — reads the next token.
* `Yaml.tokens?` — all tokens of a text.
-/

namespace TaggedBytecode.Yaml

/-- A node that may turn out to be a key. -/
structure Candidate where
  place : Position
  /-- How many tokens there are in front of it. -/
  index : Nat
  /-- Whether it has to be a key. -/
  required : Bool
  deriving DecidableEq, Repr

/-- How many bytes a key may have up to its colon. -/
def maxKeyLength : Nat := 1024

/-- Whether a candidate can no longer become a key at a position. -/
def Candidate.isStale (k : Candidate) (p : Position) : Bool :=
  k.place.line < p.line || k.place.offset + maxKeyLength < p.offset

/-- A text split into tokens up to a cursor. -/
structure Layout where
  cursor : Cursor
  /-- The tokens, the last one first. -/
  tokens : List Token := []
  /-- The columns of the open block collections, the innermost first. -/
  indents : List Nat := []
  /-- The candidate for a key of the innermost flow collection. -/
  candidate : Option Candidate := none
  /-- The candidates around the open flow collections, the innermost first. -/
  around : List (Option Candidate) := []
  /-- Whether the next node may be a key, or start a block collection. -/
  keyAllowed : Bool := true

namespace Layout

/-- Whether a flow collection is open. -/
def inFlow (l : Layout) : Bool := !l.around.isEmpty

/-- The first column that is indented deeper than the innermost block collection. -/
def margin (l : Layout) : Nat := l.indents.head?.elim 0 (· + 1)

/-- Adds a token. -/
def push (l : Layout) (token : Token) : Layout := { l with tokens := token :: l.tokens }

/-- Adds a token with a number of tokens in front of it. -/
def insert (l : Layout) (index : Nat) (token : Token) : Layout :=
  { l with tokens := l.tokens.insertIdx (l.tokens.length - index) token }

/-- Adds the token of some characters and moves behind them. -/
def pushAt (l : Layout) (token : Token) (rest : Cursor) : Layout :=
  { l with tokens := token :: l.tokens, cursor := rest }

/-! ### Indentation -/

/-- Closes the block collections at columns that are not below a bound. -/
def closeFrom (l : Layout) (bound : Nat) : Layout :=
  let closed := l.indents.takeWhile (bound ≤ ·)
  { l with
    tokens := closed.map (fun _ => .blockEnd) ++ l.tokens
    indents := l.indents.drop closed.length }

/-- Closes the block collections that are indented deeper than the cursor. -/
def closeDeeper (l : Layout) : Layout :=
  if l.inFlow then l else l.closeFrom (l.cursor.column + 1)

/-- Closes all block collections, unless a flow collection is open. -/
def closeAll (l : Layout) : Layout := if l.inFlow then l else l.closeFrom 0

/-- Opens a block collection at a column that is deeper than the open ones, with a number of
tokens in front of it. -/
def openBlock (l : Layout) (start : Token) (column index : Nat) : Layout :=
  if l.inFlow || column < l.margin then l
  else { l.insert index start with indents := column :: l.indents }

/-- Opens a block collection at the cursor, if a node may start one here. In flow structure
there is nothing to open. -/
def openBlockHere (l : Layout) (start : Token) : Option Layout :=
  if l.inFlow then some l
  else if l.keyAllowed then some (l.openBlock start l.cursor.column l.tokens.length)
  else none

/-! ### Keys -/

/-- Forgets a candidate that does not become a key, unless it has to. -/
def dropCandidate (l : Layout) : Option Layout :=
  if l.candidate.any Candidate.required then none else some { l with candidate := none }

/-- Forgets the candidates that can no longer become keys, unless one has to. -/
def dropStale (l : Layout) : Option Layout := do
  let keep (k : Option Candidate) : Option (Option Candidate) :=
    match k with
    | some k =>
      if k.isStale l.cursor.place then if k.required then none else some none else some (some k)
    | none => some none
  return { l with candidate := ← keep l.candidate, around := ← l.around.mapM keep }

/-- Makes the node that starts at the cursor a candidate, if a key is allowed here. -/
def saveCandidate (l : Layout) : Option Layout :=
  if l.keyAllowed then do
    let required := !l.inFlow && l.indents.head? == some l.cursor.column
    let l ← l.dropCandidate
    return { l with candidate := some ⟨l.cursor.place, l.tokens.length, required⟩ }
  else some l

/-! ### Tokens -/

/-- Reads a marker or an indicator that ends what was before it. -/
def boundary (l : Layout) (token : Token) (width : Nat) (keyAllowed : Bool) :
    Option Layout := do
  let l ← l.dropCandidate
  return { l.pushAt token (l.cursor.advance width) with keyAllowed }

/-- Reads the marker of a document. -/
def documentMarker (l : Layout) (token : Token) : Option Layout :=
  l.closeAll.boundary token 3 false

/-- Reads a directive. -/
def directiveLine (l : Layout) : Option Layout := do
  let l ← l.closeAll.dropCandidate
  let (token, rest) ← directive l.cursor
  return { l.pushAt token rest with keyAllowed := false }

/-- Reads the opening bracket of a flow collection. -/
def openFlow (l : Layout) (token : Token) : Option Layout := do
  let l ← l.saveCandidate
  return { l.pushAt token l.cursor.step with
    candidate := none
    around := l.candidate :: l.around
    keyAllowed := true }

/-- Reads the closing bracket of a flow collection. -/
def closeFlow (l : Layout) (token : Token) : Option Layout := do
  let l ← l.boundary token 1 false
  match l.around with
  | outer :: around => return { l with candidate := outer, around }
  | [] => return l

/-- Reads the dash of an item. -/
def itemMark (l : Layout) : Option Layout := do
  (← l.openBlockHere .blockSequence).boundary .item 1 true

/-- Reads the question mark of a key. -/
def keyMark (l : Layout) : Option Layout := do
  (← l.openBlockHere .blockMapping).boundary .key 1 !l.inFlow

/-- Reads the colon of a value. It makes the candidate a key, if there is one. -/
def valueMark (l : Layout) : Option Layout :=
  match l.candidate with
  | some k =>
    let l := (l.insert k.index .key).openBlock .blockMapping k.place.column k.index
    some { l.pushAt .value l.cursor.step with candidate := none, keyAllowed := false }
  | none => do
    let l ← l.openBlockHere .blockMapping
    return { l.pushAt .value l.cursor.step with keyAllowed := !l.inFlow }

/-- Reads a token that belongs to a node. -/
def nodePart (l : Layout) (read : Cursor → Option (Token × Cursor)) : Option Layout := do
  let l ← l.saveCandidate
  let (token, rest) ← read l.cursor
  return { l.pushAt token rest with keyAllowed := false }

/-- Reads an anchor or an alias. -/
def nameToken (l : Layout) (token : String → Token) : Option Layout :=
  l.nodePart fun c => (anchorName c.step).map fun (name, rest) => (token name, rest)

/-- Reads a quoted scalar. -/
def quotedScalar (l : Layout) (quote : Char) : Option Layout :=
  l.nodePart fun c =>
    (quoted quote c).map fun (text, rest) => (.scalar .quoted (String.ofList text), rest)

/-- Reads a plain scalar. Behind its line a key may start. -/
def plainScalar (l : Layout) : Option Layout := do
  let l ← l.saveCandidate
  let scalar ← plain l.inFlow l.margin l.cursor
  return { l.pushAt (.scalar .plain (String.ofList scalar.text)) scalar.rest with
    keyAllowed := scalar.broken }

/-- Reads a block scalar. Behind it a key may start. -/
def blockScalar (l : Layout) (style : ScalarStyle) : Option Layout := do
  let l ← l.dropCandidate
  let (text, rest) ← block (style == .literal) l.margin l.cursor
  return { l.pushAt (.scalar style (String.ofList text)) rest with keyAllowed := true }

/-- Reads the token at the cursor. -/
def token (l : Layout) : Option Layout :=
  match l.cursor.chars with
  | [] => none
  | c :: rest =>
    let separate := atWordEnd rest
    if l.cursor.column = 0 ∧ c = '%' then l.directiveLine
    else if l.cursor.atDocumentMarker then
      l.documentMarker (if c = '-' then .documentStart else .documentEnd)
    else if c = '[' then l.openFlow .flowSequence
    else if c = '\x7b' then l.openFlow .flowMapping
    else if c = ']' then l.closeFlow .flowSequenceEnd
    else if c = '\x7d' then l.closeFlow .flowMappingEnd
    else if c = ',' then l.boundary .separator 1 true
    else if c = '-' ∧ separate then l.itemMark
    else if c = '?' ∧ (l.inFlow || separate) then l.keyMark
    else if c = ':' ∧ (l.inFlow || separate) then l.valueMark
    else if c = '*' then l.nameToken .alias
    else if c = '&' then l.nameToken .anchor
    else if c = '!' then l.nodePart (tag l.inFlow)
    else if c = '|' ∧ !l.inFlow then l.blockScalar .literal
    else if c = '>' ∧ !l.inFlow then l.blockScalar .folded
    else if c = '\'' ∨ c = '"' then l.quotedScalar c
    else if startsPlain l.inFlow (c :: rest) then l.plainScalar
    else none

/-- Moves the cursor to the next token and settles what its place tells. -/
def toToken (l : Layout) : Option Layout := do
  let (keyAllowed, cursor) := l.cursor.skipTrivia l.inFlow l.keyAllowed
  let l ← { l with cursor, keyAllowed }.dropStale
  return l.closeDeeper

/-- Reads the next token. -/
def next (l : Layout) : Option Layout := l.toToken.bind token

/-- Reads all tokens that are left. -/
def finish : (fuel : Nat) → Layout → Option Layout
  | 0, _ => none
  | fuel + 1, l => do
    let l ← l.toToken
    if l.cursor.atEnd then l.closeAll.dropCandidate else finish fuel (← l.token)

end Layout

/-- The tokens from a cursor on. -/
def tokens? (c : Cursor) : Option (List Token) :=
  (Layout.finish (c.chars.length + 1) { cursor := c }).map fun l => l.tokens.reverse

end TaggedBytecode.Yaml
