import TaggedBytecode.Yaml.Gap

/-!
# Plain YAML Scalars

A plain scalar has no quotes. It ends before a comment, before a colon that ends a word, before
a marker of a document, inside flow structure before a flow character, and outside it before a
line that is not indented deep enough.

## Main definitions

* `Yaml.startsPlain` — where a plain scalar can start.
* `Yaml.plain` — reads one.
-/

namespace TaggedBytecode.Yaml

/-- Whether a plain scalar can start with some characters. -/
def startsPlain (inFlow : Bool) (cs : List Char) : Bool :=
  match cs with
  | [] => false
  | c :: rest =>
    if c == '-' then !rest.head?.any isBlank
    else if c == '?' || c == ':' then !inFlow && !atWordEnd rest
    else !(isBlank c || isBreak c || isFlowChar c || "#&*!|>'\"%@\x60".toList.contains c)

/-- Whether a colon in front of some characters is an error in a plain scalar of flow
structure. -/
def refusesColon (cs : List Char) : Bool :=
  cs.head?.any fun c => c == '?' || isFlowChar c

/-- The characters of a plain scalar up to the end of a word. -/
def plainWord (inFlow : Bool) : List Char → Option (List Char)
  | [] => some []
  | c :: rest =>
    if atWordEnd (c :: rest) then some []
    else if inFlow && c == ':' && refusesColon rest then none
    else if (c == ':' && atWordEnd rest) || (inFlow && isFlowChar c) then some []
    else (plainWord inFlow rest).map (c :: ·)

/-- A plain scalar that has been read. -/
structure PlainScalar where
  text : List Char
  /-- Whether line breaks behind it have been skipped. -/
  broken : Bool
  rest : Cursor

/-- Reads the rest of a plain scalar, given its text so far and the gap behind that. -/
def plainFrom (inFlow : Bool) (margin : Nat) : (fuel : Nat) → (read : List Char) → Gap →
    Cursor → Option PlainScalar
  | 0, _, _, _ => none
  | fuel + 1, read, g, c => do
    let finished : PlainScalar := ⟨read, g.isBroken, c⟩
    if c.atDocumentMarker || c.chars.head? == some '#' then return finished
    let word ← plainWord inFlow c.chars
    if word.isEmpty then return finished
    let read := read ++ g.text ++ word
    let c := c.advance word.length
    if c.atEnd || !atWordEnd c.chars then return ⟨read, false, c⟩
    let (g, c) ← gap margin c
    if !inFlow && c.column < margin then return ⟨read, g.isBroken, c⟩
    plainFrom inFlow margin fuel read g c

/-- Reads a plain scalar whose lines are indented by `margin` columns. -/
def plain (inFlow : Bool) (margin : Nat) (c : Cursor) : Option PlainScalar :=
  plainFrom inFlow margin (c.chars.length + 1) [] {} c

end TaggedBytecode.Yaml
