import HostScript.Number.Basic

/-!
# HostScript.Json.Basic

JSON documents, the notation that environments are described in.  Numbers keep the decimal they
are written with: whether it is whole, its sign (also that of zero) and all of its digits.
-/

namespace HostScript

/-- The decimal `± digits * 10 ^ exponent`; a whole one is written without point and exponent. -/
structure JsonNumber where
  negative : Bool
  digits : Nat
  exponent : Int
  whole : Bool
deriving DecidableEq, Repr, Inhabited

inductive Json where
  | null
  | bool (value : Bool)
  | number (value : JsonNumber)
  | string (value : String)
  | array (items : List Json)
  | object (members : List (String × Json))
deriving Repr, Inhabited

namespace JsonNumber

/-- The nearest floating point number. -/
def toNumber (n : JsonNumber) : Number :=
  Number.ofMagnitude n.negative (Number.ofDecimal n.digits n.exponent)

/-- A whole number that fits in 64 bits. -/
def toNat? (n : JsonNumber) : Option Nat :=
  if n.whole ∧ ¬n.negative ∧ n.digits < UInt64.size then some n.digits else none

end JsonNumber

namespace Json

def string? : Json → Option String
  | string value => some value
  | _ => none

def nat? : Json → Option Nat
  | number value => value.toNat?
  | _ => none

def number? : Json → Option Number
  | number value => some value.toNumber
  | _ => none

def bool? : Json → Option Bool
  | bool value => some value
  | _ => none

def array? : Json → Option (List Json)
  | array items => some items
  | _ => none

def object? : Json → Option (List (String × Json))
  | object members => some members
  | _ => none

/-- The member of an object with this name; of several the last one counts. -/
def get? (j : Json) (name : String) : Option Json := do
  let members ← j.object?
  members.reverse.lookup name

end Json

end HostScript
