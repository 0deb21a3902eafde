import HostScript.Text.Column

/-!
# HostScript.Dump

Structured values as text, on one line or spread over many.
-/

namespace HostScript

/-- A value as it is shown: a word, a record with named fields, a constructor with its arguments,
or a list. -/
inductive Dump where
  | word (text : String)
  | record (name : String) (fields : List (String × Dump))
  | apply (name : String) (arguments : List Dump)
  | list (items : List Dump)

namespace Dump

def ofOption {α : Type} (f : α → Dump) : Option α → Dump
  | none => word "None"
  | some a => apply "Some" [f a]

def ofNat (n : Nat) : Dump := word (toString n)

/-! ## on one line -/

mutual

def inline : Dump → String
  | word text => text
  | record name fields => name ++ " \x7b " ++ Text.join ", " (inlineFields fields) ++ " \x7d"
  | apply name arguments => name ++ "(" ++ Text.join ", " (inlineAll arguments) ++ ")"
  | list items => "[" ++ Text.join ", " (inlineAll items) ++ "]"

def inlineAll : List Dump → List String
  | [] => []
  | d :: ds => inline d :: inlineAll ds

def inlineFields : List (String × Dump) → List String
  | [] => []
  | (name, d) :: ds => (name ++ ": " ++ inline d) :: inlineFields ds

end

/-! ## on many lines -/

def indentation (depth : Nat) : String := String.ofList (List.replicate (4 * depth) ' ')

/-- Lines between an opening and a closing bracket, each one deeper and with a comma behind it. -/
def bracketed (depth : Nat) (opening closing : String) (lines : List String) : String :=
  if lines.isEmpty then opening ++ closing
  else
    opening ++ "\n" ++
      Text.join "" (lines.map fun line => indentation (depth + 1) ++ line ++ ",\n") ++
      indentation depth ++ closing

mutual

/-- The value spread over lines, of which all but the first start at `depth`. -/
def spread (depth : Nat) : Dump → String
  | word text => text
  | record name fields => bracketed depth (name ++ " \x7b") "\x7d" (spreadFields (depth + 1) fields)
  | apply name arguments => bracketed depth (name ++ "(") ")" (spreadAll (depth + 1) arguments)
  | list items => bracketed depth "[" "]" (spreadAll (depth + 1) items)

def spreadAll (depth : Nat) : List Dump → List String
  | [] => []
  | d :: ds => spread depth d :: spreadAll depth ds

def spreadFields (depth : Nat) : List (String × Dump) → List String
  | [] => []
  | (name, d) :: ds => (name ++ ": " ++ spread depth d) :: spreadFields depth ds

end

end Dump

end HostScript
