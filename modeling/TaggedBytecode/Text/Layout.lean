/-!
# Columns of Text

Listings align their columns by padding with spaces. Widths count characters, and a text that
is too wide for its column is not cut.

## Main definitions

* `Text.alignRight`, `Text.alignLeft` — a text padded to a width.
-/

namespace TaggedBytecode.Text

def spaces (n : Nat) : String :=
  String.ofList (List.replicate n ' ')

/-- Pads on the left. -/
def alignRight (width : Nat) (s : String) : String :=
  spaces (width - s.length) ++ s

/-- Pads on the right. -/
def alignLeft (width : Nat) (s : String) : String :=
  s ++ spaces (width - s.length)

end TaggedBytecode.Text
