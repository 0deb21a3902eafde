import HostScript.Number.Shortest

/-!
# HostScript.Number.Format

How numbers are written and read.  `text` is the form of listings and messages, `detailed` that of
syntax tree dumps; both have the shortest digits and differ in where an exponent is used and in how
whole numbers end.
-/

namespace HostScript

/-- The choices left once the digits of a number are known. -/
structure NumberFormat where
  /-- Whether a number whose first digit stands for this power of ten is written out in full. -/
  positional : Int → Bool
  /-- What follows the last digit of a whole number that is written out in full. -/
  wholeEnd : String

namespace NumberFormat

/-- Always written out in full. -/
def plain : NumberFormat where
  positional _ := true
  wholeEnd := ""

/-- Very small and very large numbers have an exponent, whole numbers keep a fraction digit. -/
def detailed : NumberFormat where
  positional e := -4 ≤ e && e < 16
  wholeEnd := ".0"

end NumberFormat

namespace Decimal

def zeros (count : Nat) : String := String.ofList (List.replicate count '0')

/-- All digits, with a point where it belongs. -/
def positional (wholeEnd : String) (d : Decimal) : String :=
  let digits := toString d.digits
  if 0 ≤ d.exponent then digits ++ zeros d.exponent.toNat ++ wholeEnd
  else
    let places := (-d.exponent).toNat
    let chars := digits.toList
    if places < chars.length then
      String.ofList (chars.take (chars.length - places)) ++ "." ++
        String.ofList (chars.drop (chars.length - places))
    else "0." ++ zeros (places - chars.length) ++ digits

/-- The power of ten that the first digit stands for. -/
def leading (d : Decimal) : Int := d.exponent + (width d.digits : Int) - 1

/-- One digit before the point, then the power of ten. -/
def scientific (d : Decimal) : String :=
  let chars := (toString d.digits).toList
  let fraction := chars.drop 1
  String.ofList (chars.take 1) ++
    (if fraction.isEmpty then "" else "." ++ String.ofList fraction) ++ "e" ++ toString d.leading

end Decimal

namespace Number

def format (f : NumberFormat) (n : Number) : String :=
  if n.isNaN then "NaN"
  else
    let sign := if n.isNegative then "-" else ""
    if n.isInfinite then sign ++ "inf"
    else
      let d := n.shortest
      if d.digits = 0 ∨ f.positional d.leading then sign ++ d.positional f.wholeEnd
      else sign ++ d.scientific

/-- The text of a number in listings and messages. -/
def text (n : Number) : String := n.format .plain

/-- The text of a number in a syntax tree dump. -/
def detailed (n : Number) : String := n.format .detailed

/-! ## reading -/

/-- The value of a run of decimal digits. -/
def digitsValue (digits : List Char) : Nat :=
  digits.foldl (fun value c => 10 * value + (c.toNat - '0'.toNat)) 0

/-- The number nearest to a numeral: digits with at most one point among them. -/
def ofNumeral (numeral : List Char) : Number :=
  let whole := numeral.takeWhile (· != '.')
  let fraction := (numeral.dropWhile (· != '.')).drop 1
  ofMagnitude false (ofDecimal (digitsValue (whole ++ fraction)) (-(fraction.length : Int)))

/-- Whether a text is a numeral: at least one digit, at most one point and nothing else. -/
def isNumeral (text : List Char) : Bool :=
  text.all (fun c => c.isDigit || c == '.') && text.any Char.isDigit && text.count '.' ≤ 1

/-- The number that a text stands for, unless it is no numeral. -/
def ofNumeral? (text : List Char) : Option Number :=
  if isNumeral text then some (ofNumeral text) else none

end Number

end HostScript
