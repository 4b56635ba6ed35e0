/-!
# Line Breaks

Systems end their lines in several ways: with a line feed, with a carriage return, with both,
or with the control character for the next line.

## Main definitions

* `Text.unifyBreaks` — makes every line end with a line feed.
* `Text.unifyPairedBreaks` — the same, where a lone carriage return ends no line.
-/

namespace TaggedBytecode.Text

/-- Replaces every kind of line break by a line feed. -/
def unifyBreaks : List Char → List Char
  | [] => []
  | '\r' :: '\n' :: rest => '\n' :: unifyBreaks rest
  | '\r' :: rest | '\u0085' :: rest => '\n' :: unifyBreaks rest
  | c :: rest => c :: unifyBreaks rest

/-- Replaces a carriage return with a line feed behind it by the line feed. -/
def unifyPairedBreaks : List Char → List Char
  | [] => []
  | '\r' :: '\n' :: rest => '\n' :: unifyPairedBreaks rest
  | c :: rest => c :: unifyPairedBreaks rest

end TaggedBytecode.Text
