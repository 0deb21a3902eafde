/-!
# HostScript.Location

Where in a script something stands.  A `Position` is a line and a column inside one script, and a
`Location` adds the name of the script.  Lines count from the script's starting line and columns
from one.
-/

namespace HostScript

/-- A line and a column.  Lines are counted without a bound here; what is proved about the lines of
a text asks that their numbers fit into a machine word. -/
structure Position where
  line : Nat
  column : Nat
deriving DecidableEq, Repr, Inhabited

namespace Position

/-- The start of a line. -/
def lineStart (line : Nat) : Position := ⟨line, 1⟩

/-- The position behind the character `c`: a newline starts the next line. -/
def next (p : Position) (c : Char) : Position :=
  if c = '\n' then lineStart (p.line + 1) else { p with column := p.column + 1 }

/-- The position behind a text. -/
def after (p : Position) (text : List Char) : Position := text.foldl next p

@[simp] theorem after_nil (p : Position) : p.after [] = p := rfl

@[simp] theorem after_cons (p : Position) (c : Char) (text : List Char) :
    p.after (c :: text) = (p.next c).after text := rfl

@[simp] theorem after_append (p : Position) (text more : List Char) :
    p.after (text ++ more) = (p.after text).after more := List.foldl_append

end Position

/-- A place in a named or unnamed script. -/
structure Location where
  source : Option String
  line : Nat
  column : Nat
deriving DecidableEq, Repr, Inhabited

namespace Location

/-- What stands for the name of a script that has none. -/
def unnamed : String := "<script>"

def ofPosition (source : Option String) (p : Position) : Location := ⟨source, p.line, p.column⟩

def sourceName (l : Location) : String := l.source.getD unnamed

/-- A location as messages show it: `source:line:column`. -/
def text (l : Location) : String :=
  l.sourceName ++ ":" ++ toString l.line ++ ":" ++ toString l.column

end Location

end HostScript
