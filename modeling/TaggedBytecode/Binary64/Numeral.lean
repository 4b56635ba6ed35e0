import TaggedBytecode.Binary64.Shortest

/-!
# Decimal Numerals of Binary64 Words

Writing a word takes its shortest digits and lays them out: **positionally** when the decimal
point falls within sixteen digits after the first place, or at most four zeros before it, and
in **scientific** form otherwise. Reading a numeral takes its exact rational value and rounds
it once.

## Main definitions

* `NumeralStyle` — the two choices that differ between outputs.
* `NumeralStyle.write` — the numeral of a finite word.
* `Binary64.ofNumeral?` — the word of a numeral, a name of infinity or a name of NaN.
* `Binary64.fixed` — a number with a fixed count of decimal places.
-/

namespace TaggedBytecode

/-- How a numeral is laid out. -/
structure NumeralStyle where
  /-- What follows a whole number that is written positionally. -/
  wholeSuffix : String
  /-- The sign of a positive scientific exponent. -/
  plusSign : String

namespace NumeralStyle

/-- Layout of numbers that are not whole in listings and texts. -/
def plain : NumeralStyle := ⟨".0", ""⟩

/-- Layout of numbers in JSON documents. -/
def json : NumeralStyle := ⟨".0", "+"⟩

def zeros (n : Nat) : List Char := List.replicate n '0'

/-- The digits `ds`, the first of them at the place `point`, without a sign. -/
def layout (style : NumeralStyle) (ds : List Char) (point : Int) : String :=
  let length : Int := ds.length
  if length ≤ point ∧ point ≤ 16 then
    String.ofList (ds ++ zeros (point - length).toNat) ++ style.wholeSuffix
  else if 0 < point ∧ point ≤ 16 then
    String.ofList (ds.take point.toNat ++ '.' :: ds.drop point.toNat)
  else if -5 < point ∧ point ≤ 0 then
    String.ofList ('0' :: '.' :: zeros (-point).toNat ++ ds)
  else
    let mantissa := if ds.length = 1 then ds else ds.take 1 ++ '.' :: ds.drop 1
    let sign := if 0 ≤ point - 1 then style.plusSign else "-"
    String.ofList (mantissa ++ ['e']) ++ sign ++ toString (point - 1).natAbs

/-- The numeral of a finite word. -/
def write (style : NumeralStyle) (x : Binary64) : String :=
  let sign := if x.negative then "-" else ""
  if x.magnitude = 0 then sign ++ style.layout ['0'] 1
  else
    let d := x.shortest
    let ds := Nat.toDigits 10 d.digits
    sign ++ style.layout ds (ds.length + d.exponent)

end NumeralStyle

namespace Binary64

/-! ### Reading -/

/-- The word nearest to a scaled natural number. Exponents that leave the range of finite
words, or that fall below half of the least one, need no exact arithmetic. -/
def ofDecimal (negative : Bool) (d : Decimal) : Binary64 :=
  let reach := d.exponent + decimalLength d.digits
  if d.digits = 0 ∨ reach < -330 then zero negative
  else if 310 < reach then infinity negative
  else roundRatio negative (d.digits * Nat.pow 10 d.exponent.toNat * unitsPerOne)
    (Nat.pow 10 (-d.exponent).toNat)

/-- The value of a run of decimal digits, most significant first. -/
def digitsValue (ds : List Char) : Nat :=
  ds.foldl (fun n c => 10 * n + (c.toNat - '0'.toNat)) 0

/-- Takes an optional sign off a text; `true` is the minus sign. -/
def splitSign : List Char → Bool × List Char
  | '+' :: rest => (false, rest)
  | '-' :: rest => (true, rest)
  | rest => (false, rest)

/-- The exponent part of a numeral: nothing, or `e` with an optional sign and some digits. -/
def exponentPart? : List Char → Option Int
  | [] => some 0
  | c :: rest =>
    if c = 'e' ∨ c = 'E' then
      let (negative, ds) := splitSign rest
      if ds.isEmpty || !ds.all Char.isDigit then none
      else if negative then some (-(digitsValue ds : Int)) else some (digitsValue ds)
    else none

/-- A decimal numeral without a sign: digits around an optional point, at least one of them,
and an optional exponent. -/
def decimal? (text : List Char) : Option Decimal :=
  let whole := text.takeWhile Char.isDigit
  let rest := text.dropWhile Char.isDigit
  let (fraction, rest) :=
    match rest with
    | '.' :: tail => (tail.takeWhile Char.isDigit, tail.dropWhile Char.isDigit)
    | _ => ([], rest)
  if whole.isEmpty && fraction.isEmpty then none
  else (exponentPart? rest).map fun e =>
    ⟨digitsValue (whole ++ fraction), e - fraction.length⟩

/-- Reads a number: an optional sign before a decimal numeral, before `inf` or `infinity`, or
before `nan`, the names in any mixture of cases. -/
def ofNumeral? (text : List Char) : Option Binary64 :=
  let (negative, body) := splitSign text
  let name := String.ofList (body.map Char.toLower)
  if name = "inf" ∨ name = "infinity" then some (infinity negative)
  else if name = "nan" then some (if negative then nan.neg else nan)
  else (decimal? body).map (ofDecimal negative)

/-! ### Fixed places -/

/-- A number rounded to a count of decimal places of its exact value, a tie going to the even
digit. -/
def fixed (x : Binary64) (places : Nat) : String :=
  let scaled := roundHalfEven (x.units * Nat.pow 10 places) unitsPerOne
  let ds := Nat.toDigits 10 scaled
  let ds := NumeralStyle.zeros (places + 1 - ds.length) ++ ds
  let whole := ds.take (ds.length - places)
  let sign := if x.negative then "-" else ""
  let point := if places = 0 then [] else ['.']
  sign ++ String.ofList (whole ++ point ++ ds.drop (ds.length - places))

end Binary64

end TaggedBytecode
