import TaggedBytecode.Text.LineBreak
import TaggedBytecode.Yaml.Composition
import TaggedBytecode.Yaml.Layout

/-!
# Reading YAML

A text holds at most one document. It is split into tokens, of which the document is composed.

## Main definitions

* `Yaml.ofText?` — the document of a text.
-/

namespace TaggedBytecode.Yaml

/-- Whether a character may occur in a text. -/
def isAllowed (c : Char) : Bool :=
  c == '\t' || c == '\n' || (0x20 ≤ c.toNat && c.toNat ≤ 0x7e) ||
    (0xa0 ≤ c.toNat && c != '\ufffe' && c != '\uffff')

/-- The start of some characters. A byte order mark in front of them takes a column, but is no
part of the text. -/
def start (cs : List Char) : Cursor :=
  let c : Cursor := ⟨{}, cs⟩
  (c.take? '\ufeff').getD c

/-- The document of a text. -/
def ofText? (text : String) : Option Document :=
  let cs := Text.unifyBreaks text.toList
  if cs.all isAllowed then (tokens? (start cs)).bind compose? else none

end TaggedBytecode.Yaml
