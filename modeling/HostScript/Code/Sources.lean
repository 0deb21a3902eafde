import HostScript.Location

/-!
# HostScript.Code.Sources

Places of instructions.  Every instruction keeps the place it was generated from as a
`CodeLocation`, which names its script by an index into the `CodeSources`, the distinct scripts in
the order in which they first gave rise to an instruction.
-/

namespace HostScript

/-- The compact form of a `Location`. -/
structure CodeLocation where
  source : Nat
  line : Nat
  column : Nat
deriving DecidableEq, Repr, Inhabited

/-- A place as listings show it. -/
def CodeLocation.text (l : CodeLocation) : String :=
  "#" ++ toString l.source ++ ":" ++ toString l.line ++ ":" ++ toString l.column

/-- The names of the scripts that code comes from, each once. -/
structure CodeSources where
  names : List String := []
deriving DecidableEq, Repr, Inhabited

namespace CodeSources

/-- The sources with `name` among them; a new name goes to the end. -/
def insert (s : CodeSources) (name : String) : CodeSources :=
  if name ∈ s.names then s else ⟨s.names ++ [name]⟩

/-- Where `name` stands among the sources. -/
def index (s : CodeSources) (name : String) : Nat := s.names.idxOf name

/-- The compact form of a location whose script is among the sources. -/
def compact (s : CodeSources) (l : Location) : CodeLocation :=
  ⟨s.index l.sourceName, l.line, l.column⟩

/-- The location that a compact one stands for.  An index without a name, and the name that stands
for unnamed scripts, give an unnamed location. -/
def location (s : CodeSources) (l : CodeLocation) : Location :=
  ⟨(s.names[l.source]?).filter (· != Location.unnamed), l.line, l.column⟩

end CodeSources

end HostScript
