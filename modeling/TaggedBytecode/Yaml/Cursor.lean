/-!
# Positions in YAML Texts

The layout of a YAML text carries meaning, so a **cursor** knows the **position** of what is
left of the text: its line, its column, which counts characters, and how many bytes of UTF-8
precede it. Lines end with a line feed, or with one of the Unicode separators for lines and
paragraphs.

Between tokens there may be **trivia**: spaces, tabs, line breaks and comments.

## Main definitions

* `Yaml.Position`, `Yaml.Cursor` — places in a text.
* `Yaml.Cursor.skipTrivia` — the place of the next token.
-/

namespace TaggedBytecode.Yaml

/-! ### Classes of characters -/

def isBreak (c : Char) : Bool := c == '\n' || c == '\u2028' || c == '\u2029'

/-- Whether a character separates words on a line. -/
def isBlank (c : Char) : Bool := c == ' ' || c == '\t'

/-- Whether a character encloses or separates the nodes of a flow collection. -/
def isFlowChar (c : Char) : Bool :=
  c == ',' || c == '[' || c == ']' || c == '\x7b' || c == '\x7d'

/-- Whether a character may stand in a name. -/
def isNameChar (c : Char) : Bool := c.isAlphanum || c == '_' || c == '-'

/-- Whether no word goes on with some characters: they start with a blank or a line break, or
there are none. -/
def atWordEnd : List Char → Bool
  | [] => true
  | c :: _ => isBlank c || isBreak c

/-! ### Positions -/

/-- Where a character stands. -/
structure Position where
  line : Nat := 0
  column : Nat := 0
  /-- The number of bytes in front. -/
  offset : Nat := 0
  deriving DecidableEq, Repr

/-- The position behind a character. -/
def Position.after (p : Position) (c : Char) : Position :=
  if isBreak c then { line := p.line + 1, column := 0, offset := p.offset + c.utf8Size }
  else { p with column := p.column + 1, offset := p.offset + c.utf8Size }

/-- The rest of a text and where it starts. -/
structure Cursor where
  place : Position
  chars : List Char
  deriving DecidableEq, Repr

namespace Cursor

/-- The column of the next character. -/
def column (c : Cursor) : Nat := c.place.column

def atEnd (c : Cursor) : Bool := c.chars.isEmpty

/-- The cursor behind the next character. -/
def step (c : Cursor) : Cursor :=
  match c.chars with
  | [] => c
  | ch :: rest => ⟨c.place.after ch, rest⟩

/-- The cursor behind a number of characters. -/
def advance (c : Cursor) (count : Nat) : Cursor :=
  ⟨(c.chars.take count).foldl Position.after c.place, c.chars.drop count⟩

/-- Splits off the longest run of characters of a class. -/
def span (c : Cursor) (isInside : Char → Bool) : List Char × Cursor :=
  let run := c.chars.takeWhile isInside
  (run, c.advance run.length)

/-- The cursor behind the longest run of characters of a class. -/
def skipWhile (c : Cursor) (isInside : Char → Bool) : Cursor := (c.span isInside).2

/-- The cursor behind a character, if it is the next one. -/
def take? (c : Cursor) (ch : Char) : Option Cursor :=
  if c.chars.head? = some ch then some c.step else none

/-- Whether a marker of a document's start or end stands here. -/
def atDocumentMarker (c : Cursor) : Bool :=
  c.column == 0 &&
    match c.chars with
    | '-' :: '-' :: '-' :: rest | '.' :: '.' :: '.' :: rest => atWordEnd rest
    | _ => false

/-! ### Trivia -/

/-- Skips trivia. Whether a key may start at the next token is told on the way: in block
structure it may on every new line. A tab is no trivia where a key of block structure may
start. -/
def skipTriviaFrom (inFlow : Bool) : (inComment keyAllowed : Bool) → Position → List Char →
    Bool × Cursor
  | _, keyAllowed, p, [] => (keyAllowed, ⟨p, []⟩)
  | inComment, keyAllowed, p, c :: rest =>
    if isBreak c then skipTriviaFrom inFlow false (keyAllowed || !inFlow) (p.after c) rest
    else if inComment || c == '#' then skipTriviaFrom inFlow true keyAllowed (p.after c) rest
    else if c == ' ' || (c == '\t' && (inFlow || !keyAllowed)) then
      skipTriviaFrom inFlow false keyAllowed (p.after c) rest
    else (keyAllowed, ⟨p, c :: rest⟩)

/-- Whether a key may start at the next token, and the place of that token. -/
def skipTrivia (c : Cursor) (inFlow keyAllowed : Bool) : Bool × Cursor :=
  skipTriviaFrom inFlow false keyAllowed c.place c.chars

/-- Skips the rest of a line, which holds nothing but a comment, with its line break. -/
def endLine (c : Cursor) : Option Cursor :=
  let c := c.skipWhile isBlank
  let c := if c.chars.head? = some '#' then c.skipWhile fun ch => !isBreak ch else c
  match c.chars with
  | [] => some c
  | ch :: _ => if isBreak ch then some c.step else none

end Cursor

end TaggedBytecode.Yaml
