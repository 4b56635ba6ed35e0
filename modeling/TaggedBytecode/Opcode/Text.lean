import TaggedBytecode.Document.Text
import TaggedBytecode.Opcode.Document

/-!
# Texts of Opcode Maps

## Main definitions

* `OpcodeMap.ofText` — the opcode map in a JSON, YAML or TOML text.
-/

namespace TaggedBytecode.OpcodeMap

/-- The opcode map in a text. -/
def ofText (format : DocumentFormat) (text : String) : Except Failure OpcodeMap :=
  ofContent format (Document.ofText? format text)

end TaggedBytecode.OpcodeMap
