import TaggedBytecode.Fault

/-!
# Failures

A **failure** is a cause under a chain of notes, each of which says what was being done when
the cause arose, the outermost first. Host capabilities and everything that reads documents
and files fail in this way.

## Main definitions

* `Cause` — what went wrong in the first place.
* `Failure` — a cause under notes.
* `Failure.links` — the texts of a failure from the outermost note to the cause.
-/

namespace TaggedBytecode

/-- The formats of documents. -/
inductive DocumentFormat where
  | json
  | yaml
  | toml
  deriving DecidableEq, Repr

/-- The name of a format in messages. -/
def DocumentFormat.name : DocumentFormat → String
  | json => "JSON"
  | yaml => "YAML"
  | toml => "TOML"

/-- What went wrong in the first place. -/
inductive Cause where
  | message (text : String)
  | fault (fault : Fault)
  /-- A text is no document of its format, or the document has the wrong shape. -/
  | document (format : DocumentFormat)

namespace Cause

/-- The text of a cause. What is wrong with a document is not described further. -/
def text : Cause → String
  | message text => text
  | fault f => f.message
  | document _ => "*"

end Cause

/-- A cause under notes. -/
structure Failure where
  /-- What was being done, the outermost first. -/
  notes : List String := []
  cause : Cause

namespace Failure

/-- A failure with a message of its own. -/
def ofMessage (text : String) : Failure := { cause := .message text }

def ofFault (fault : Fault) : Failure := { cause := .fault fault }

/-- The failure to read a document. -/
def ofDocument (format : DocumentFormat) : Failure := { cause := .document format }

/-- Adds an outermost note. -/
def note (text : String) (failure : Failure) : Failure :=
  { failure with notes := text :: failure.notes }

/-- The texts of a failure, the outermost first. -/
def links (failure : Failure) : List String :=
  failure.notes ++ [failure.cause.text]

/-- The text of a failure on one line. -/
def message (failure : Failure) : String :=
  ": ".intercalate failure.links

end Failure

/-- Adds an outermost note to a failure. -/
def noting (text : String) (result : Except Failure α) : Except Failure α :=
  result.mapError (Failure.note text)

/-- A fault as a failure. -/
def faulting (result : Except Fault α) : Except Failure α :=
  result.mapError Failure.ofFault

end TaggedBytecode
