import TaggedBytecode.Yaml.Cursor

/-!
# Block Scalars of YAML

A block scalar starts with a **header**, which says whether it is **literal** or **folded** and
what becomes of the line breaks at its end; its lines follow, indented deeper than what they
belong to. The first line that is not empty shows how deep, unless the header tells. In a
folded scalar a single line break between two lines that start with no blank is a space.

## Main definitions

* `Yaml.Chomping` — what becomes of the line breaks at the end.
* `Yaml.block` — reads a block scalar.
-/

namespace TaggedBytecode.Yaml

/-- What becomes of the line breaks at the end of a block scalar. -/
inductive Chomping where
  /-- None is kept. -/
  | strip
  /-- The one that ends the last line is kept. -/
  | clip
  /-- All are kept. -/
  | keep
  deriving DecidableEq, Repr

/-- Reads a chomping indicator, if there is one. -/
def chomping? (c : Cursor) : Option (Chomping × Cursor) :=
  match c.chars.head? with
  | some '-' => some (.strip, c.step)
  | some '+' => some (.keep, c.step)
  | _ => none

/-- Reads the digit that tells the indentation, or zero if there is none. -/
def increment (c : Cursor) : Option (Nat × Cursor) :=
  match c.chars.head? with
  | some d =>
    if d = '0' then none
    else if d.isDigit then some (d.toNat - '0'.toNat, c.step)
    else some (0, c)
  | none => some (0, c)

/-- Reads the indicators of a header, in either order. -/
def blockHeader (c : Cursor) : Option (Chomping × Nat × Cursor) :=
  match chomping? c with
  | some (chomping, c) => (increment c).map fun (n, c) => (chomping, n, c)
  | none =>
    (increment c).map fun (n, c) =>
      match chomping? c with
      | some (chomping, c) => (chomping, n, c)
      | none => (.clip, n, c)

/-- The empty lines and the indentation in front of a line of a block scalar. -/
structure BlockGap where
  breaks : List Char
  /-- The greatest column that indentation led to. -/
  deepest : Nat
  rest : Cursor

/-- Skips empty lines, and the indentation of the next line up to the column `indent`. Where
that is not yet known, all spaces are indentation. -/
def blockGapFrom (indent : Option Nat) : (breaks : List Char) → (deepest : Nat) → Position →
    List Char → Option BlockGap
  | breaks, deepest, p, [] => some ⟨breaks.reverse, max deepest p.column, ⟨p, []⟩⟩
  | breaks, deepest, p, c :: rest =>
    let inMargin := indent.all fun n => p.column < n
    let deepest := max deepest p.column
    if inMargin && c == ' ' then blockGapFrom indent breaks deepest (p.after c) rest
    else if inMargin && c == '\t' then none
    else if isBreak c then blockGapFrom indent (c :: breaks) deepest (p.after c) rest
    else some ⟨breaks.reverse, deepest, ⟨p, c :: rest⟩⟩

/-- Skips empty lines and indentation. -/
def blockGap (indent : Option Nat) (c : Cursor) : Option BlockGap :=
  blockGapFrom indent [] 0 c.place c.chars

/-- The lines of a block scalar that have been read. -/
structure BlockLines where
  text : List Char := []
  /-- The line break of the last line. -/
  lastBreak : List Char := []
  /-- The empty lines behind it. -/
  emptyLines : List Char
  /-- Whether the last line starts with a blank. -/
  indented : Bool := false

namespace BlockLines

/-- What stands between the last line and another one. -/
def joint (lines : BlockLines) (literal indented : Bool) : List Char :=
  if !literal && lines.lastBreak == ['\n'] && !lines.indented && !indented then
    if lines.emptyLines.isEmpty then [' '] else lines.emptyLines
  else lines.lastBreak ++ lines.emptyLines

/-- The text of a scalar that ends here. -/
def finish (lines : BlockLines) : Chomping → List Char
  | .strip => lines.text
  | .clip => lines.text ++ lines.lastBreak
  | .keep => lines.text ++ lines.lastBreak ++ lines.emptyLines

end BlockLines

/-- Reads the lines that start at the column `indent`. -/
def blockLines (literal : Bool) (indent : Nat) : (fuel : Nat) → BlockLines → Cursor →
    Option (BlockLines × Cursor)
  | 0, _, _ => none
  | fuel + 1, lines, c =>
    if c.column = indent ∧ !c.atEnd then do
      let indented := c.chars.head?.any isBlank
      let (line, c) := c.span fun ch => !isBreak ch
      let next ← blockGap (some indent) c.step
      blockLines literal indent fuel
        { text := lines.text ++ lines.joint literal indented ++ line
          lastBreak := c.chars.take 1
          emptyLines := next.breaks
          indented }
        next.rest
    else some (lines, c)

/-- Reads a block scalar, its first indicator included. Its lines are indented by at least
`margin` columns and at least one, or by as many columns as the header adds to those of the
node around it. -/
def block (literal : Bool) (margin : Nat) (c : Cursor) : Option (List Char × Cursor) := do
  let (chomping, added, c) ← blockHeader c.step
  let c ← c.endLine
  let told : Option Nat := if added = 0 then none else some (margin - 1 + added)
  let start ← blockGap told c
  let indent := told.getD (max start.deepest (max margin 1))
  let (lines, c) ←
    blockLines literal indent (c.chars.length + 1) { emptyLines := start.breaks } start.rest
  return (lines.finish chomping, c)

end TaggedBytecode.Yaml
