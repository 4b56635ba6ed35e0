/-!
# YAML Tokens

A YAML text is a sequence of **tokens**. Some are written, such as the brackets of flow
collections; others follow from indentation, such as the starts and the ends of block
collections, and the mark in front of a key that is known for one only by its colon.

## Main definitions

* `Yaml.Token` — a token.
-/

namespace TaggedBytecode.Yaml

/-- How a scalar is written. -/
inductive ScalarStyle where
  | plain
  | quoted
  | literal
  | folded
  deriving DecidableEq, Repr

/-- A token. -/
inductive Token where
  /-- A directive that tells the version of the language. -/
  | version (major minor : Nat)
  /-- A directive that lets a handle stand for the start of tags. -/
  | handle (name start : String)
  | documentStart
  | documentEnd
  | blockSequence
  | blockMapping
  | blockEnd
  | flowSequence
  | flowSequenceEnd
  | flowMapping
  | flowMappingEnd
  /-- The dash in front of an item of a block sequence. -/
  | item
  /-- The comma in flow collections. -/
  | separator
  | key
  | value
  | alias (name : String)
  | anchor (name : String)
  /-- A tag: its handle, and the rest of it. -/
  | tag (handle rest : String)
  | scalar (style : ScalarStyle) (text : String)
  deriving DecidableEq, Repr

end TaggedBytecode.Yaml
