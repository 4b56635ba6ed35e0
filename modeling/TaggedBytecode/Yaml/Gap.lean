import TaggedBytecode.Yaml.Cursor

/-!
# Gaps in YAML Scalars

A scalar that is no block scalar may run over several lines. The **gap** between two words of
it is a run of blanks and line breaks. On one line a gap stands for its blanks. Otherwise it
**folds**: the blanks are dropped, a line feed alone is a space, and of several line breaks a
line feed in front is dropped. The separators of lines and paragraphs are always kept.

## Main definitions

* `Yaml.Gap` — a gap.
* `Yaml.gap` — reads one.
* `Yaml.Gap.text` — what a gap stands for.
-/

namespace TaggedBytecode.Yaml

/-- A run of blanks and line breaks. -/
structure Gap where
  /-- The blanks in front of the first line break. -/
  blanks : List Char := []
  breaks : List Char := []
  deriving DecidableEq, Repr

namespace Gap

/-- Whether the words around a gap stand on different lines. -/
def isBroken (g : Gap) : Bool := !g.breaks.isEmpty

/-- What line breaks fold to. -/
def fold : List Char → List Char
  | ['\n'] => [' ']
  | '\n' :: more => more
  | breaks => breaks

/-- What a gap stands for. -/
def text (g : Gap) : List Char := if g.isBroken then fold g.breaks else g.blanks

end Gap

/-- Reads a gap; `blanks` and `breaks` are those read before, reversed. On a new line a tab
must not stand left of the column `margin`. -/
def gapFrom (margin : Nat) : (blanks breaks : List Char) → Position → List Char →
    Option (Gap × Cursor)
  | blanks, breaks, p, [] => some (⟨blanks.reverse, breaks.reverse⟩, ⟨p, []⟩)
  | blanks, breaks, p, c :: rest =>
    if isBreak c then gapFrom margin blanks (c :: breaks) (p.after c) rest
    else if isBlank c then
      if breaks.isEmpty then gapFrom margin (c :: blanks) breaks (p.after c) rest
      else if c == '\t' && p.column < margin then none
      else gapFrom margin blanks breaks (p.after c) rest
    else some (⟨blanks.reverse, breaks.reverse⟩, ⟨p, c :: rest⟩)

/-- Reads a gap and gives what follows it. -/
def gap (margin : Nat) (c : Cursor) : Option (Gap × Cursor) :=
  gapFrom margin [] [] c.place c.chars

end TaggedBytecode.Yaml
