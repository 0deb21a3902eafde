/-!
# HostScript.NameMap

Finite maps from names, kept in ascending order of the names (by code points, which is also the
order of their UTF-8 bytes).  The order is part of the type, so two maps with the same entries are
equal.
-/

namespace HostScript

/-- Entries in strictly ascending order of their names. -/
def NameMap.Ascending {α : Type} (entries : List (String × α)) : Prop :=
  entries.Pairwise fun a b => a.1 < b.1

structure NameMap (α : Type) where
  entries : List (String × α) := []
  ascending : NameMap.Ascending entries := by exact List.Pairwise.nil

namespace NameMap

variable {α β : Type}

/-! ## operations on entries -/

/-- Puts a value under a name, in place of the one that was there. -/
def insertEntry (name : String) (value : α) : List (String × α) → List (String × α)
  | [] => [(name, value)]
  | (other, old) :: rest =>
    if name < other then (name, value) :: (other, old) :: rest
    else if name = other then (name, value) :: rest
    else (other, old) :: insertEntry name value rest

/-- The value under a name. -/
def findEntry (name : String) : List (String × α) → Option α
  | [] => none
  | (other, value) :: rest => if other = name then some value else findEntry name rest

theorem mem_insertEntry {name : String} {value : α} {e : String × α} :
    {entries : List (String × α)} → e ∈ insertEntry name value entries →
      e = (name, value) ∨ e ∈ entries
  | [], h => by simpa [insertEntry] using h
  | (other, old) :: rest, h => by
    unfold insertEntry at h
    split at h
    · simpa using h
    · split at h
      · rcases List.mem_cons.1 h with h | h
        · exact .inl h
        · exact .inr (List.mem_cons_of_mem _ h)
      · rcases List.mem_cons.1 h with h | h
        · exact .inr (h ▸ List.mem_cons_self)
        · exact (mem_insertEntry h).imp_right (List.mem_cons_of_mem _)

theorem ascending_insertEntry (name : String) (value : α) :
    {entries : List (String × α)} → Ascending entries →
      Ascending (insertEntry name value entries)
  | [], _ => List.pairwise_singleton _ _
  | (other, old) :: rest, h => by
    obtain ⟨first, tail⟩ := List.pairwise_cons.1 h
    unfold insertEntry
    split
    next below =>
      refine List.pairwise_cons.2 ⟨fun e he => ?_, h⟩
      rcases List.mem_cons.1 he with rfl | he
      · exact below
      · exact String.lt_trans below (first e he)
    next notBelow =>
      split
      next same => exact List.pairwise_cons.2 ⟨fun e he => same ▸ first e he, tail⟩
      next different =>
        refine List.pairwise_cons.2 ⟨fun e he => ?_, ascending_insertEntry name value tail⟩
        rcases mem_insertEntry he with rfl | he
        · exact Decidable.byContradiction fun notAbove =>
            different (String.le_antisymm (String.not_lt.1 notAbove) (String.not_lt.1 notBelow))
        · exact first e he

/-! ## operations on maps -/

def empty : NameMap α := {}

instance : Inhabited (NameMap α) := ⟨empty⟩

def insert (m : NameMap α) (name : String) (value : α) : NameMap α :=
  ⟨insertEntry name value m.entries, ascending_insertEntry name value m.ascending⟩

def find? (m : NameMap α) (name : String) : Option α := findEntry name m.entries

def contains (m : NameMap α) (name : String) : Bool := (m.find? name).isSome

def size (m : NameMap α) : Nat := m.entries.length

def isEmpty (m : NameMap α) : Bool := m.entries.isEmpty

/-- The values in the order of their names. -/
def values (m : NameMap α) : List α := m.entries.map (·.2)

/-- Replaces each value; the names stay. -/
def mapValues (f : α → β) (m : NameMap α) : NameMap β :=
  ⟨m.entries.map fun e => (e.1, f e.2), by
    simpa [Ascending, List.pairwise_map] using m.ascending⟩

/-- The map with all of the entries; of two under one name the later one stays. -/
def ofList (entries : List (String × α)) : NameMap α :=
  entries.foldl (fun m e => m.insert e.1 e.2) empty

instance [DecidableEq α] : DecidableEq (NameMap α) := fun a b =>
  if h : a.entries = b.entries then isTrue (by cases a; cases b; simpa using h)
  else isFalse fun e => h (e ▸ rfl)

@[ext] theorem ext {a b : NameMap α} (h : a.entries = b.entries) : a = b := by
  cases a; cases b; simpa using h

end NameMap

end HostScript
