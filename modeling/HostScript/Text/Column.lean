/-!
# HostScript.Text.Column

Text laid out in columns, whose width is counted in characters.
-/

namespace HostScript.Text

/-- Pads on the right with spaces up to `width` characters. -/
def padRight (width : Nat) (s : String) : String :=
  s ++ String.ofList (List.replicate (width - s.length) ' ')

/-- The decimal digits of `n`, padded on the left with zeros up to `width` characters. -/
def zeroPadded (width n : Nat) : String :=
  let digits := Nat.toDigits 10 n
  String.ofList (List.replicate (width - digits.length) '0' ++ digits)

/-- Texts with a separator between each two. -/
def join (separator : String) (texts : List String) : String :=
  String.intercalate separator texts

end HostScript.Text
