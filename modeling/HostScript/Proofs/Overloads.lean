import HostScript.Proofs.Definitions
import HostScript.Proofs.Grouping

/-!
# HostScript.Proofs.Overloads

Functions of one name.  While a script is compiled its functions are searched for in the order of
their definitions; in the finished program they are searched for by name first, in a group that is
sorted by the number of parameters.  Both find the same function, also where several have the same
name and the same number of parameters: grouping and sorting keep the order of equals, so the first
one stays the first.

The tables spoken of are all that registrations and placements can lead to, in any order.
-/

namespace HostScript

namespace FunctionTable

/-! ## the history of a table -/

/-- What can happen to a table. -/
inductive Change where
  | register (name : String) (parameters : List String)
  | place (id start stop : Nat)
deriving DecidableEq, Repr

namespace Change

/-- The name and the parameters that are registered. -/
def head? : Change → Option (String × List String)
  | register name parameters => some (name, parameters)
  | place .. => none

/-- The range that the function `id` is given. -/
def range? (id : Nat) : Change → Option (Nat × Nat)
  | register .. => none
  | place other start stop => if other = id then some (start, stop) else none

end Change

def change (t : FunctionTable) : Change → FunctionTable
  | .register name parameters => t.register name parameters
  | .place id start stop => t.place id start stop

/-- The table that some changes make of an empty one. -/
def ofChanges (changes : List Change) : FunctionTable := changes.foldl change {}

/-- The last range that some changes give to the function `id`; until then it is the empty one. -/
def lastRange (id : Nat) (changes : List Change) : Nat × Nat :=
  (changes.filterMap (·.range? id)).getLast?.getD (0, 0)

/-- The names and parameters of all functions. -/
def heads (t : FunctionTable) : List (String × List String) :=
  t.functions.toList.map fun f => (f.name, f.parameters)

/-- The table is what some changes have made of it: the functions are those that were registered, in
this order, and each of them has the last range that was given to its own id, which is the size that
the table had before it was registered. -/
structure Records (changes : List Change) (t : FunctionTable) : Prop where
  heads : t.heads = changes.filterMap (·.head?)
  ranges : ∀ before name parameters later,
    changes = before ++ .register name parameters :: later →
    let id := (ofChanges before).size
    t.get? id = some
      { name, parameters, start := (lastRange id later).1, stop := (lastRange id later).2 }

section history

variable {t : FunctionTable} {id : Nat} {f : ScriptFunction}

theorem heads_change (t : FunctionTable) (c : Change) :
    (t.change c).heads = t.heads ++ c.head?.toList := by
  cases c with
  | register name parameters => simp [change, register, heads, Change.head?]
  | place id start stop =>
      apply List.ext_getElem?
      intro k
      simp only [change, place, heads, Change.head?, Option.toList_none, List.append_nil,
        Array.toList_modify, List.getElem?_map, List.getElem?_modify]
      by_cases here : id = k <;> cases t.functions.toList[k]? <;> simp [here]

theorem heads_foldl_change (t : FunctionTable) (changes : List Change) :
    (changes.foldl change t).heads = t.heads ++ changes.filterMap (·.head?) := by
  induction changes generalizing t with
  | nil => simp
  | cons c changes ih =>
      rw [List.foldl_cons, ih, heads_change, List.append_assoc]
      cases known : c.head? <;> simp [known]

/-- A change leaves the function `id` alone, unless it gives a range to this id. -/
theorem get?_change (found : t.get? id = some f) (c : Change) :
    (t.change c).get? id = some
      { f with
        start := ((c.range? id).getD (f.start, f.stop)).1
        stop := ((c.range? id).getD (f.start, f.stop)).2 } := by
  have there : t.functions[id]? = some f := found
  cases c with
  | register name parameters =>
      have old : id ≠ t.functions.size := Nat.ne_of_lt (Array.getElem?_eq_some_iff.1 there).1
      simp [change, register, get?, Change.range?, Array.getElem?_push, old, there]
  | place other start stop =>
      by_cases same : other = id <;>
        simp [change, place, get?, Change.range?, Array.getElem?_modify, same, there]

/-- The last range that is given counts. -/
theorem get?_foldl_change (found : t.get? id = some f) (changes : List Change) :
    (changes.foldl change t).get? id = some
      { f with
        start := ((changes.filterMap (·.range? id)).getLast?.getD (f.start, f.stop)).1
        stop := ((changes.filterMap (·.range? id)).getLast?.getD (f.start, f.stop)).2 } := by
  induction changes generalizing t f with
  | nil => simpa using found
  | cons c changes ih =>
      rw [List.foldl_cons, ih (get?_change found c)]
      cases given : c.range? id with
      | none => simp [given]
      | some range => simp [given, List.getLast?_cons]

/-- A new function is the last one. -/
theorem get?_register (t : FunctionTable) (name : String) (parameters : List String) :
    (t.register name parameters).get? t.size = some { name, parameters } := by
  simp [register, get?, size]

theorem records_ofChanges (changes : List Change) : Records changes (ofChanges changes) where
  heads := by
    rw [ofChanges, heads_foldl_change]
    rfl
  ranges before name parameters later split := by
    have parts : ofChanges changes =
        later.foldl change ((ofChanges before).register name parameters) := by
      rw [split, ofChanges, List.foldl_append, List.foldl_cons]
      rfl
    rw [parts]
    exact get?_foldl_change (get?_register (ofChanges before) name parameters) later

end history

/-! ## groups -/

/-- The functions of a table by name: none is lost or doubled, no group is empty, and a group is
sorted by the number of parameters, with functions that have equally many in their old order. -/
structure GroupedIn (t : FunctionTable) (m : NameMap (List ScriptFunction)) : Prop where
  perm : m.values.flatten.Perm t.functions.toList
  named : Named m
  nonempty : ∀ name group, m.find? name = some group → group ≠ []
  sorted : ∀ name group, m.find? name = some group →
    group.Pairwise fun f g => f.arity ≤ g.arity
  stable : ∀ name group, m.find? name = some group → ∀ argc,
    group.filter (·.arity == argc) = t.functions.toList.filter (·.answers name argc)

/-- The functions of one name. -/
def overloads (t : FunctionTable) (name : String) : List ScriptFunction :=
  t.functions.toList.filter (·.name == name)

/-- Sorted by their number of parameters; of equals the first stays before the others. -/
def byArity (functions : List ScriptFunction) : List ScriptFunction :=
  functions.mergeSort fun f g => f.arity ≤ g.arity

/-- A group that functions are added to one by one gets those of its name. -/
theorem find?_foldl_addToGroup (functions : List ScriptFunction)
    (m : NameMap (List ScriptFunction)) (name : String) :
    (functions.foldl addToGroup m).find? name =
      if functions.filter (·.name == name) = [] then m.find? name
      else some ((m.find? name).getD [] ++ functions.filter (·.name == name)) := by
  induction functions generalizing m with
  | nil => simp
  | cons f functions ih =>
      rw [List.foldl_cons, ih, addToGroup, NameMap.find?_insert]
      by_cases same : f.name = name
      · subst same
        by_cases last : functions.filter (·.name == f.name) = [] <;> simp [last]
      · simp [same]

/-- A name has a group if some function has the name. -/
theorem find?_grouped (t : FunctionTable) (name : String) :
    t.grouped.find? name =
      if t.overloads name = [] then none else some (byArity (t.overloads name)) := by
  have groups := find?_foldl_addToGroup t.functions.toList .empty name
  have entries : t.grouped.find? name =
      ((t.functions.toList.foldl addToGroup .empty).find? name).map byArity :=
    NameMap.find?_mapValues byArity _ name
  rw [entries, groups, overloads]
  split <;> simp

theorem overloads_of_find? {t : FunctionTable} {name : String} {group : List ScriptFunction}
    (found : t.grouped.find? name = some group) :
    t.overloads name ≠ [] ∧ group = byArity (t.overloads name) := by
  rw [find?_grouped] at found
  split at found
  · cases found
  next some_ => exact ⟨some_, (Option.some.inj found).symm⟩

/-- The order that groups are sorted by. -/
def atMost (f g : ScriptFunction) : Bool := f.arity ≤ g.arity

theorem atMost_trans (f g h : ScriptFunction) (first : atMost f g = true)
    (second : atMost g h = true) : atMost f h = true := by
  simp only [atMost, decide_eq_true_eq] at first second ⊢
  exact Nat.le_trans first second

theorem atMost_total (f g : ScriptFunction) : (atMost f g || atMost g f) = true := by
  simpa [atMost] using Nat.le_total f.arity g.arity

theorem pairwise_byArity (functions : List ScriptFunction) :
    (byArity functions).Pairwise fun f g => f.arity ≤ g.arity :=
  (List.pairwise_mergeSort atMost_trans atMost_total functions).imp of_decide_eq_true

/-- Sorting keeps the order of functions with equally many parameters: among themselves they are
sorted already. -/
theorem filter_byArity (functions : List ScriptFunction) (argc : Nat) :
    (byArity functions).filter (·.arity == argc) = functions.filter (·.arity == argc) := by
  have sorted : (functions.filter (·.arity == argc)).Pairwise fun f g => atMost f g = true := by
    refine List.pairwise_of_forall_mem_list fun f hf g hg => ?_
    have first : f.arity = argc := by simpa using (List.mem_filter.1 hf).2
    have second : g.arity = argc := by simpa using (List.mem_filter.1 hg).2
    simp [atMost, first, second]
  have kept : (functions.filter (·.arity == argc)).Sublist (byArity functions) :=
    List.sublist_mergeSort atMost_trans atMost_total sorted List.filter_sublist
  have inside := kept.filter (·.arity == argc)
  rw [List.filter_filter] at inside
  simp only [Bool.and_self] at inside
  have same := ((List.mergeSort_perm functions atMost).filter (·.arity == argc)).length_eq
  exact (inside.eq_of_length same.symm).symm

theorem groupedIn_grouped (t : FunctionTable) : t.GroupedIn t.grouped where
  perm := t.perm_grouped
  named := t.named_grouped
  nonempty name group found := by
    obtain ⟨some_, rfl⟩ := overloads_of_find? found
    intro empty
    have length := (List.mergeSort_perm (t.overloads name) atMost).length_eq
    have none_ : (t.overloads name).length = 0 := length ▸ congrArg List.length empty
    exact some_ (List.length_eq_zero_iff.1 none_)
  sorted name group found := by
    obtain ⟨-, rfl⟩ := overloads_of_find? found
    exact pairwise_byArity _
  stable name group found argc := by
    obtain ⟨-, rfl⟩ := overloads_of_find? found
    rw [filter_byArity, overloads, List.filter_filter]
    exact List.filter_congr fun f _ => Bool.and_comm ..

/-! ## looking up -/

/-- The first function of a sorted group with a number of parameters is the first of the table. -/
theorem find?_byArity (t : FunctionTable) (name : String) (argc : Nat) :
    (byArity (t.overloads name)).find? (·.arity == argc) = t.find? name argc := by
  calc (byArity (t.overloads name)).find? (·.arity == argc)
      = ((byArity (t.overloads name)).filter (·.arity == argc)).head? := List.head?_filter.symm
    _ = ((t.overloads name).filter (·.arity == argc)).head? := by rw [filter_byArity]
    _ = (t.overloads name).find? (·.arity == argc) := List.head?_filter
    _ = t.functions.toList.find? (·.answers name argc) := by
      rw [overloads, List.find?_filter]
      refine congrArg (t.functions.toList.find? ·) (funext fun f => ?_)
      rw [Bool.eq_iff_iff]
      simp [ScriptFunction.answers]
    _ = t.find? name argc := by rw [find?, Array.find?_toList]

/-- A program with the functions of a table in groups finds what the table finds. -/
theorem function?_grouped (t : FunctionTable) (program : Program) (name : String) (argc : Nat) :
    { program with functions := t.grouped }.function? name argc = t.find? name argc := by
  show (t.grouped.find? name).bind (·.find? (·.arity == argc)) = t.find? name argc
  rw [← find?_byArity, find?_grouped]
  split
  next none_ => simp [none_, byArity]
  next => rfl

end FunctionTable

/-- Whatever functions are registered and placed, in whatever order: the table records them, the
groups hold each of them once, under its name and in order, and looking up a function in the groups
finds the same one, with the same range, as looking it up in the table. -/
theorem grouping_preserves_lookup (changes : List FunctionTable.Change) :
    let t := FunctionTable.ofChanges changes
    t.Records changes ∧ t.GroupedIn t.grouped ∧
    ∀ (program : Program) (name : String) (argc : Nat),
      { program with functions := t.grouped }.function? name argc = t.find? name argc :=
  ⟨FunctionTable.records_ofChanges changes, FunctionTable.groupedIn_grouped _,
    FunctionTable.function?_grouped _⟩

end HostScript
