import HostScript.Program.Basic
import HostScript.Proofs.NameMap
import Mathlib.Data.List.Perm.Basic

/-!
# HostScript.Proofs.Grouping

Functions by name.  A table lists functions in the order of their definitions, a program has them in
groups, one for each name.  Nothing is lost or doubled on the way, and every function stands in the
group of its own name, so that looking one up by name and number of arguments finds it if it is
there.
-/

namespace HostScript

/-! ## groups under names -/

namespace NameMap

variable {α : Type}

theorem findEntry_of_below {name : String} {entries : List (String × α)}
    (below : ∀ e ∈ entries, name < e.1) : findEntry name entries = none := by
  induction entries with
  | nil => rfl
  | cons e rest ih =>
      obtain ⟨less, others⟩ := List.forall_mem_cons.1 below
      have different : e.1 ≠ name := fun same => String.lt_irrefl name (same ▸ less)
      rw [findEntry, if_neg different, ih others]

/-- A new member of some group is a new one among all. -/
theorem perm_insertEntry_member (name : String) (a : α) {entries : List (String × List α)}
    (sorted : Ascending entries) :
    ((insertEntry name ((findEntry name entries).getD [] ++ [a]) entries).map (·.2)).flatten.Perm
      ((entries.map (·.2)).flatten ++ [a]) := by
  induction entries with
  | nil => simp [insertEntry, findEntry]
  | cons e rest ih =>
      obtain ⟨first, old⟩ := e
      obtain ⟨above, tail⟩ := List.pairwise_cons.1 sorted
      by_cases below : name < first
      · have all : ∀ e ∈ (first, old) :: rest, name < e.1 :=
          List.forall_mem_cons.2 ⟨below, fun e found => String.lt_trans below (above e found)⟩
        rw [findEntry_of_below all, insertEntry, if_pos below]
        have last := (@List.perm_append_comm _ [a] (old ++ (rest.map (·.2)).flatten))
        simpa using last
      · by_cases same : name = first
        · subst same
          rw [findEntry, if_pos rfl, insertEntry, if_neg below, if_pos rfl]
          have last := (@List.perm_append_comm _ [a] (rest.map (·.2)).flatten)
          simpa using last.append_left old
        · rw [findEntry, if_neg (Ne.symm same), insertEntry, if_neg below, if_neg same]
          simpa using (ih tail).append_left old

end NameMap

/-! ## the table -/

namespace FunctionTable

variable {t : FunctionTable} {m : NameMap (List ScriptFunction)}

theorem perm_addToGroup (m : NameMap (List ScriptFunction)) (f : ScriptFunction) :
    (addToGroup m f).values.flatten.Perm (m.values.flatten ++ [f]) :=
  NameMap.perm_insertEntry_member f.name f m.ascending

theorem perm_foldl_addToGroup (functions : List ScriptFunction)
    (m : NameMap (List ScriptFunction)) :
    (functions.foldl addToGroup m).values.flatten.Perm (m.values.flatten ++ functions) := by
  induction functions generalizing m with
  | nil => simp
  | cons f functions ih =>
      have rest := (perm_addToGroup m f).append_right functions
      rw [List.append_assoc, List.singleton_append] at rest
      exact (ih (addToGroup m f)).trans rest

/-- The groups hold the functions of the table, each as often as the table does. -/
theorem perm_grouped (t : FunctionTable) : t.grouped.values.flatten.Perm t.functions.toList := by
  have sorted : t.grouped.values.flatten =
      (t.functions.toList.foldl addToGroup .empty).values.flatMap
        (List.mergeSort · fun f g => f.arity ≤ g.arity) := by
    simp [grouped, NameMap.mapValues, NameMap.values, List.flatMap_def, Function.comp_def]
  have groups := List.Perm.flatMap_left (t.functions.toList.foldl addToGroup .empty).values
    (f := (List.mergeSort · fun f g => f.arity ≤ g.arity)) (g := id)
    fun group _ => List.mergeSort_perm group _
  rw [List.flatMap_id] at groups
  rw [sorted]
  exact groups.trans (perm_foldl_addToGroup t.functions.toList .empty)

/-- The functions in a group all have its name. -/
def Named (m : NameMap (List ScriptFunction)) : Prop :=
  ∀ name group, m.find? name = some group → ∀ f ∈ group, f.name = name

theorem Named.addToGroup (h : Named m) (f : ScriptFunction) : Named (addToGroup m f) := by
  intro name group found f' member
  rw [FunctionTable.addToGroup, NameMap.find?_insert] at found
  by_cases same : f.name = name
  · rw [if_pos same] at found
    obtain rfl := Option.some.inj found
    rcases List.mem_append.1 member with old | new
    · cases known : m.find? f.name with
      | none => simp [known] at old
      | some group =>
          rw [h f.name group known f' (by simpa [known] using old), same]
    · rw [List.mem_singleton.1 new, same]
  · rw [if_neg same] at found
    exact h name group found f' member

theorem named_grouped (t : FunctionTable) : Named t.grouped := by
  have fold (functions : List ScriptFunction) (m : NameMap (List ScriptFunction)) (h : Named m) :
      Named (functions.foldl FunctionTable.addToGroup m) := by
    induction functions generalizing m with
    | nil => exact h
    | cons f functions ih => exact ih _ (h.addToGroup f)
  intro name group found f member
  rw [← NameMap.mem_entries_iff, grouped, NameMap.mapValues] at found
  obtain ⟨⟨_, unsorted⟩, entry, same⟩ := List.mem_map.1 found
  obtain ⟨rfl, rfl⟩ := Prod.mk.inj same
  have all := fold t.functions.toList .empty nofun
  exact all _ unsorted (NameMap.mem_entries_iff.1 entry) f
    ((List.mergeSort_perm unsorted _).mem_iff.1 member)

end FunctionTable

/-! ## looking up -/

namespace Program

variable {program : Program} {name : String} {argc : Nat}

/-- All functions of a program. -/
def allFunctions (program : Program) : List ScriptFunction := program.functions.values.flatten

theorem mem_allFunctions {f : ScriptFunction} : f ∈ program.allFunctions ↔
    ∃ name group, program.functions.find? name = some group ∧ f ∈ group := by
  rw [allFunctions, List.mem_flatten]
  constructor
  · intro h
    obtain ⟨group, known, member⟩ := h
    obtain ⟨name, found⟩ := NameMap.mem_values_iff.1 known
    exact ⟨name, group, found, member⟩
  · intro h
    obtain ⟨name, group, found, member⟩ := h
    exact ⟨group, NameMap.mem_values_iff.2 ⟨name, found⟩, member⟩

/-- A function that is found is one of the program and answers the call. -/
theorem answers_of_function? (named : FunctionTable.Named program.functions) {f : ScriptFunction}
    (found : program.function? name argc = some f) :
    f ∈ program.allFunctions ∧ f.answers name argc = true := by
  obtain ⟨group, known, first⟩ := Option.bind_eq_some_iff.1 found
  have member := List.mem_of_find?_eq_some first
  have arity := List.find?_some first
  have same := named name group known f member
  exact ⟨mem_allFunctions.2 ⟨name, group, known, member⟩,
    by simpa [ScriptFunction.answers, same] using arity⟩

/-- Where no function is found, none answers the call. -/
theorem not_answers_of_function? (named : FunctionTable.Named program.functions)
    (missing : program.function? name argc = none) {f : ScriptFunction}
    (member : f ∈ program.allFunctions) : f.answers name argc = false := by
  obtain ⟨other, group, known, inside⟩ := mem_allFunctions.1 member
  have same := named other group known f inside
  by_cases here : other = name
  · subst here
    have none_ : group.find? (·.arity == argc) = none := by
      simpa [function?, known] using missing
    have differs := List.find?_eq_none.1 none_ f inside
    simp only [ScriptFunction.answers, Bool.and_eq_false_iff]
    exact .inr (by simpa using differs)
  · simp [ScriptFunction.answers, same, here]

end Program

end HostScript
