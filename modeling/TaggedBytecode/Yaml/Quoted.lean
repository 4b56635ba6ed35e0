import TaggedBytecode.Text.CodePoint
import TaggedBytecode.Yaml.Gap

/-!
# Quoted YAML Scalars

Between single quotes a scalar has no escapes, except that a quote is doubled. Between double
quotes a backslash starts an escape; in front of a line break it takes the break away. The
lines of both may start at any column, but a marker of a document ends the text too early.

## Main definitions

* `Yaml.quoted` — reads a scalar of either style.
-/

namespace TaggedBytecode.Yaml

/-- The character of a one-letter escape. -/
def simpleEscape? : Char → Option Char
  | '0' => some '\x00'
  | 'a' => some '\x07'
  | 'b' => some '\x08'
  | 't' | '\t' => some '\t'
  | 'n' => some '\n'
  | 'v' => some '\x0b'
  | 'f' => some '\x0c'
  | 'r' => some '\r'
  | 'e' => some '\x1b'
  | ' ' => some ' '
  | '"' => some '"'
  | '/' => some '/'
  | '\\' => some '\\'
  | 'N' => some '\u0085'
  | '_' => some '\u00a0'
  | 'L' => some '\u2028'
  | 'P' => some '\u2029'
  | _ => none

/-- Reads what follows the backslash of an escape on one line. -/
def escape (cs : List Char) : Option (Char × List Char) :=
  match cs with
  | 'x' :: rest => Text.codePoint? 2 rest
  | 'u' :: rest => Text.codePoint? 4 rest
  | 'U' :: rest => Text.codePoint? 8 rest
  | e :: rest => (simpleEscape? e).map fun c => (c, rest)
  | [] => none

/-- Reads what follows a backslash: its text, and what is left. -/
def escaped (c : Cursor) : Option (List Char × Cursor) :=
  if c.chars.head?.any isBreak then
    (gap 0 c.step).map fun (g, rest) => (g.breaks, rest)
  else
    (escape c.chars).map fun (ch, rest) => ([ch], c.advance (c.chars.length - rest.length))

/-- Reads a scalar up to its closing quote; `read` is its text so far, reversed. -/
def quotedFrom (quote : Char) : (fuel : Nat) → (read : List Char) → Cursor →
    Option (List Char × Cursor)
  | 0, _, _ => none
  | fuel + 1, read, c =>
    let goOn (text : List Char) (c : Cursor) : Option (List Char × Cursor) :=
      quotedFrom quote fuel (text.reverse ++ read) c
    if c.atDocumentMarker then none
    else
      match c.chars with
      | [] => none
      | ch :: rest =>
        if ch = quote then
          if quote = '\'' ∧ rest.head? = some quote then goOn [quote] c.step.step
          else some (read.reverse, c.step)
        else if ch = '\\' ∧ quote = '"' then
          (escaped c.step).bind fun (text, c) => goOn text c
        else if isBlank ch || isBreak ch then
          (gap 0 c).bind fun (g, c) => goOn g.text c
        else goOn [ch] c.step

/-- Reads a quoted scalar, its opening quote first. -/
def quoted (quote : Char) (c : Cursor) : Option (List Char × Cursor) :=
  quotedFrom quote (c.chars.length + 1) [] c.step

end TaggedBytecode.Yaml
