import HostScript.NameMap

/-!
# HostScript.Proofs.NameMap

Looking up names.  A map is a list in the order of its names, but all that its users need is what
`find?` finds: after an insertion the new value under the new name, and everything else as before.
-/

namespace HostScript.NameMap

variable {α β : Type}

/-! ## entries -/

/-- An insertion changes what is found under its own name only. -/
theorem findEntry_insertEntry (name other : String) (value : α) (entries : List (String × α)) :
    findEntry other (insertEntry name value entries) =
      if name = other then some value else findEntry other entries := by
  induction entries with
  | nil => simp [insertEntry, findEntry]
  | cons e rest ih =>
      obtain ⟨first, old⟩ := e
      unfold insertEntry
      split
      · simp [findEntry]
      · split
        next same =>
          subst same
          by_cases h : name = other <;> simp [findEntry, h]
        next notBelow different =>
          by_cases h : first = other
          · subst h
            simp [findEntry, different]
          · simp [findEntry, h, ih]

/-- A name that is found has an entry. -/
theorem mem_of_findEntry {name : String} {value : α} {entries : List (String × α)}
    (h : findEntry name entries = some value) : (name, value) ∈ entries := by
  induction entries with
  | nil => simp [findEntry] at h
  | cons e rest ih =>
      obtain ⟨first, old⟩ := e
      unfold findEntry at h
      split at h
      next same =>
        obtain rfl : old = value := by simpa using h
        exact same ▸ List.mem_cons_self
      next => exact List.mem_cons_of_mem _ (ih h)

/-- An entry is found under its name, for no other one has that name. -/
theorem findEntry_of_mem {name : String} {value : α} {entries : List (String × α)}
    (sorted : Ascending entries) (h : (name, value) ∈ entries) :
    findEntry name entries = some value := by
  induction entries with
  | nil => simp at h
  | cons e rest ih =>
      obtain ⟨first, old⟩ := e
      obtain ⟨below, tail⟩ := List.pairwise_cons.1 sorted
      rcases List.mem_cons.1 h with same | later
      · obtain ⟨rfl, rfl⟩ : name = first ∧ value = old := by simpa using same
        simp [findEntry]
      · have different : first ≠ name := fun same =>
          String.lt_irrefl name (same ▸ below (name, value) later)
        simp [findEntry, different, ih tail later]

/-! ## maps -/

@[simp] theorem find?_empty (name : String) : (empty : NameMap α).find? name = none := rfl

theorem find?_insert (m : NameMap α) (name other : String) (value : α) :
    (m.insert name value).find? other = if name = other then some value else m.find? other :=
  findEntry_insertEntry name other value m.entries

theorem find?_mapValues (f : α → β) (m : NameMap α) (name : String) :
    (m.mapValues f).find? name = (m.find? name).map f := by
  show findEntry name (m.entries.map _) = (findEntry name m.entries).map f
  induction m.entries with
  | nil => rfl
  | cons entry rest ih =>
      rw [List.map_cons, findEntry, findEntry, ih]
      split <;> rfl

theorem mem_entries_iff {m : NameMap α} {name : String} {value : α} :
    (name, value) ∈ m.entries ↔ m.find? name = some value :=
  ⟨findEntry_of_mem m.ascending, mem_of_findEntry⟩

theorem mem_values_iff {m : NameMap α} {value : α} :
    value ∈ m.values ↔ ∃ name, m.find? name = some value := by
  simp only [values, List.mem_map, Prod.exists, mem_entries_iff]
  exact ⟨fun ⟨name, v, h, same⟩ => ⟨name, same ▸ h⟩, fun ⟨name, h⟩ => ⟨name, value, h, rfl⟩⟩

theorem contains_eq_false_iff {m : NameMap α} {name : String} :
    m.contains name = false ↔ m.find? name = none := by
  simp [contains]

/-! ## building maps -/

/-- A name that comes behind all others goes to the end. -/
theorem insertEntry_of_above {name : String} (value : α) {entries : List (String × α)}
    (above : ∀ e ∈ entries, e.1 < name) :
    insertEntry name value entries = entries ++ [(name, value)] := by
  induction entries with
  | nil => rfl
  | cons e rest ih =>
      obtain ⟨first, old⟩ := e
      obtain ⟨less, others⟩ := List.forall_mem_cons.1 above
      have notBelow : ¬ name < first := String.lt_asymm less
      have different : name ≠ first := fun same => String.lt_irrefl first (same ▸ less)
      rw [insertEntry, if_neg notBelow, if_neg different, ih others, List.cons_append]

/-- Entries that come in order are the entries of the map that is made of them. -/
theorem ofList_entries (m : NameMap α) : ofList m.entries = m := by
  have fold (rest : List (String × α)) (front : NameMap α)
      (sorted : Ascending (front.entries ++ rest)) :
      (rest.foldl (fun m e => m.insert e.1 e.2) front).entries = front.entries ++ rest := by
    induction rest generalizing front with
    | nil => exact (List.append_nil _).symm
    | cons e rest ih =>
        have above : ∀ e' ∈ front.entries, e'.1 < e.1 := fun e' found =>
          (List.pairwise_append.1 sorted).2.2 e' found e List.mem_cons_self
        have next : (front.insert e.1 e.2).entries = front.entries ++ [e] :=
          insertEntry_of_above e.2 above
        rw [List.foldl_cons, ih (front.insert e.1 e.2), next, List.append_assoc,
          List.singleton_append]
        rwa [next, List.append_assoc, List.singleton_append]
  exact ext (fold m.entries .empty m.ascending)

end HostScript.NameMap
