import TaggedBytecode.Failure
import TaggedBytecode.Json.Reader
import TaggedBytecode.Toml.Reader
import TaggedBytecode.Yaml.Reader

/-!
# Texts of Documents

The format of a text is known from a name or from the name of the file that holds it.

## Main definitions

* `DocumentFormat.ofFileName` — the format of a file.
* `Document.ofText?` — the document of a text in a format.
-/

namespace TaggedBytecode

namespace DocumentFormat

/-- The format of a name in lower case, or of one of the usual endings of file names. -/
def ofName? : String → Option DocumentFormat
  | "json" => some json
  | "yaml" | "yml" => some yaml
  | "toml" => some toml
  | _ => none

/-- The ending of a file name: what follows its last dot, which is not its first character. -/
def fileEnding (name : String) : String :=
  let reversed := name.toList.reverse
  let ending := reversed.takeWhile (· != '.')
  if ending.length + 1 < reversed.length then String.ofList ending.reverse else ""

/-- The format of a file by its ending, in either case. Any other file is taken for JSON. -/
def ofFileName (name : String) : DocumentFormat :=
  (ofName? (String.ofList ((fileEnding name).toList.map Char.toLower))).getD json

end DocumentFormat

/-- The document of a text. -/
def Document.ofText? (format : DocumentFormat) (text : String) : Option Document :=
  match format with
  | .json => (Json.ofText? text).map Json.document
  | .yaml => Yaml.ofText? text
  | .toml => Toml.ofText? text

end TaggedBytecode
