/-!
# HostScript.Number.Basic

Numbers of the script language: double precision floating point values, kept as their 64-bit
patterns.  Two numbers are equal when their patterns are, so `-0` and `0` differ and every
statement about a program is a statement about bits.

A finite nonzero number is `significand * 2 ^ (scale - 1074)` up to its sign; `ofRatio` goes the
other way and takes a nonnegative ratio to the nearest number, a half going to the even neighbour.
-/

namespace HostScript

/-- A floating point number as its bit pattern: one sign bit, eleven exponent bits and fifty-two
fraction bits, the sign first. -/
structure Number where
  bits : UInt64
deriving DecidableEq, Repr, Inhabited

namespace Number

/-- The pattern of infinity without its sign: all exponent bits set. -/
def infinityPattern : Nat := 2047 <<< 52

/-- The pattern without its sign. -/
def magnitude (n : Number) : Nat := n.bits.toNat % (1 <<< 63)

def isNegative (n : Number) : Bool := 1 <<< 63 ≤ n.bits.toNat

def isInfinite (n : Number) : Bool := n.magnitude == infinityPattern

def isNaN (n : Number) : Bool := infinityPattern < n.magnitude

/-- The exponent of a finite number, counted from that of the smallest ones. -/
def scale (n : Number) : Nat := (n.magnitude >>> 52) - 1

/-- The integer that a power of two scales: the fraction bits, with a leading one unless the
exponent bits are all zero. -/
def significand (n : Number) : Nat :=
  n.magnitude % (1 <<< 52) + if n.magnitude >>> 52 = 0 then 0 else 1 <<< 52

/-- The number with a given sign and a given pattern for the rest. -/
def ofMagnitude (negative : Bool) (magnitude : Nat) : Number :=
  ⟨UInt64.ofNat (magnitude + if negative then 1 <<< 63 else 0)⟩

/-! ## rounding -/

/-- Division to the nearest integer, a half going to the even neighbour. -/
def roundDiv (num den : Nat) : Nat :=
  let quotient := num / den
  let twice := 2 * (num % den)
  if twice < den then quotient
  else if den < twice then quotient + 1
  else quotient + quotient % 2

/-- The exponent of the greatest power of two that `num / den` reaches. -/
def log2Ratio (num den : Nat) : Int :=
  let guess : Int := (num.log2 : Int) - den.log2
  if den <<< guess.toNat ≤ num <<< (-guess).toNat then guess else guess - 1

/-- The pattern nearest to `num / den`.  A carry out of the significand moves on to the next
exponent, and what is too large for the finite patterns is infinite. -/
def ofRatio (num den : Nat) : Nat :=
  if num = 0 then 0
  else
    let scale := (log2Ratio num den + 1022).toNat
    let significand := roundDiv (num <<< (1074 - scale)) (den <<< (scale - 1074))
    min ((scale <<< 52) + significand) infinityPattern

/-- The pattern nearest to `digits * 10 ^ exponent`.  The first two cases are beyond all finite
patterns and below half of the smallest one; they keep the powers of ten small. -/
def ofDecimal (digits : Nat) (exponent : Int) : Nat :=
  if digits = 0 then 0
  else if 400 < exponent then infinityPattern
  else if exponent + digits.log2 < -400 then 0
  else ofRatio (digits * Nat.pow 10 exponent.toNat) (Nat.pow 10 (-exponent).toNat)

def zero : Number := ⟨0⟩

def one : Number := ⟨0x3FF0000000000000⟩

def minusOne : Number := ⟨0xBFF0000000000000⟩

end Number

end HostScript
