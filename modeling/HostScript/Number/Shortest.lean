import HostScript.Number.Basic

/-!
# HostScript.Number.Shortest

The fewest decimal digits that read back as a given number, and of those decimals the nearest.

The decimals that read back as a number form an interval around it, whose ends lie halfway to the
neighbouring numbers and belong to it when the significand is even.  On the grid of decimals with
`n` significant digits only the two grid points next to the number have to be looked at: if any
point of the grid lies in the interval, one of these two does.
-/

namespace HostScript

/-- The decimal `digits * 10 ^ exponent`. -/
structure Decimal where
  digits : Nat
  exponent : Int
deriving DecidableEq, Repr, Inhabited

namespace Decimal

/-- How many digits a number is written with. -/
def width (n : Nat) : Nat := (Nat.toDigits 10 n).length

/-- Drops up to `fuel` trailing zeros. -/
def trim : Nat → Decimal → Decimal
  | 0, d => d
  | fuel + 1, d =>
    if d.digits ≠ 0 ∧ d.digits % 10 = 0 then trim fuel ⟨d.digits / 10, d.exponent + 1⟩ else d

end Decimal

namespace Number

/-- A quarter of the distance between neighbouring numbers, as the ratio `num / den`; the number
itself is `value` quarters, and the decimals from `low` to `high` quarters read back as it. -/
structure Interval where
  num : Nat
  den : Nat
  value : Nat
  low : Nat
  high : Nat
  closed : Bool

/-- Below a power of two the numbers lie twice as close, except among the smallest ones. -/
def interval (significand scale : Nat) : Interval where
  num := 1 <<< (scale - 1076)
  den := 1 <<< (1076 - scale)
  value := 4 * significand
  low := 4 * significand - if significand = 1 <<< 52 ∧ 0 < scale then 1 else 2
  high := 4 * significand + 2
  closed := significand % 2 == 0

namespace Interval

/-- `d * 10 ^ e` in the unit of `quarters`. -/
def ofDecimal (i : Interval) (d : Nat) (e : Int) : Nat := d * Nat.pow 10 e.toNat * i.den

/-- A count of quarters in the unit of `ofDecimal`. -/
def quarters (i : Interval) (count : Nat) (e : Int) : Nat := count * i.num * Nat.pow 10 (-e).toNat

def contains (i : Interval) (d : Nat) (e : Int) : Bool :=
  let x := i.ofDecimal d e
  if i.closed then i.quarters i.low e ≤ x && x ≤ i.quarters i.high e
  else i.quarters i.low e < x && x < i.quarters i.high e

/-- The greatest `d` for which `d * 10 ^ e` does not exceed the number. -/
def floor (i : Interval) (e : Int) : Nat :=
  i.quarters i.value e / (Nat.pow 10 e.toNat * i.den)

/-- The exponent of the greatest power of ten that the number reaches. -/
def log10 (i : Interval) : Int :=
  let num := i.value * i.num
  if i.den ≤ num then (Decimal.width (num / i.den) : Int) - 1
  else
    let below := Decimal.width (i.den / num)
    if i.den ≤ num * Nat.pow 10 (below - 1) then 1 - (below : Int) else -(below : Int)

/-- The grid point nearer to the number, the upper one when both are equally near. -/
def nearer (i : Interval) (d : Nat) (e : Int) : Nat :=
  if i.ofDecimal (2 * d + 1) e ≤ 2 * i.quarters i.value e then d + 1 else d

/-- The first of the grids from `10 ^ e` on downwards with a point in the interval. -/
def search (i : Interval) : Nat → Int → Decimal
  | 0, e => ⟨i.floor e, e⟩
  | fuel + 1, e =>
    let d := i.floor e
    match i.contains d e, i.contains (d + 1) e with
    | true, true => ⟨i.nearer d e, e⟩
    | true, false => ⟨d, e⟩
    | false, true => ⟨d + 1, e⟩
    | false, false => search i fuel (e - 1)

end Interval

/-- The fewest digits that read back as a finite number, without its sign.  Seventeen always do. -/
def shortest (n : Number) : Decimal :=
  if n.significand = 0 then ⟨0, 0⟩
  else
    let i := interval n.significand n.scale
    (i.search 17 i.log10).trim 17

end Number

end HostScript
