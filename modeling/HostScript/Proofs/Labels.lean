import HostScript.Proofs.Scoping
import HostScript.Proofs.Statements

/-!
# HostScript.Proofs.Labels

Linking is exact.  The label table of a program has one entry for every label of the script, with
the address that the code behind the label has.  Every jump to a label goes to the address in the
table, and all other instructions are as they were before labels were linked.

A jump waits for its label under the name of the label.  That it gets this label and no other comes
from `Tracks`: the jumps that wait have different addresses, so no two names are linked to one
instruction.
-/

namespace HostScript

/-- The labels of a program with the tree `root`.  `Node.spots` lists the statements of the tree
with their addresses.  The code of a statement is its layout, which is what code generation adds for
it wherever it succeeds (`Generate.emit_extends`). -/
structure Program.LinksLabels (env : Environment) (parameters : List String) (root : Node)
    (program : Program) : Prop where
  /-- The labels of the tree and the jumps to them are all among the statements. -/
  marks : marksOf ((root.spots ⟨env, parameters⟩ 0).map (·.occurrence)) =
    marksOf (root.occurrences parameters)
  /-- And so are the functions. -/
  definitions : root.definitions.Perm
    ((root.spots ⟨env, parameters⟩ 0).filterMap (·.definition?))
  /-- The statements come in the order of their code. -/
  order : (root.spots ⟨env, parameters⟩ 0).Pairwise Spot.Precedes
  /-- The program has the code of every statement at its address, with the breaks and continues in
  it as the constructs around it say. -/
  code : ∀ s ∈ root.spots ⟨env, parameters⟩ 0, ∃ x y,
    program.Shows s.address (s.layout.retarget x y).code
  /-- There is an entry for each statement with a label, and no other. -/
  labels : program.labels.entries.Perm ((root.spots ⟨env, parameters⟩ 0).filterMap (·.label?))
  /-- There is an instruction at every label. -/
  inside : ∀ name address, program.labels.find? name = some address →
    address < program.instructions.length
  jumps : ∀ s ∈ root.spots ⟨env, parameters⟩ 0, ∀ l name, s.node = .jump l name →
    ∃ address, program.labels.find? name = some address ∧
      program.instructions[s.address]? = some (.jump (.address address))
  calls : ∀ s ∈ root.spots ⟨env, parameters⟩ 0, ∀ l name, s.node = .callLabel l name →
    ∃ address, program.labels.find? name = some address ∧
      program.instructions[s.address]? = some (.jumpPush (.address address))
  /-- Nothing else is changed. -/
  others : ∀ address < (Generate.layout root ⟨env, parameters⟩ 0).size,
    (∀ s ∈ root.spots ⟨env, parameters⟩ 0, s.wanted? = none ∨ s.address ≠ address) →
    program.instructions[address]? = (Generate.layout root ⟨env, parameters⟩ 0).code[address]?
  /-- Behind the code of the tree there is at most a return. -/
  epilogue : program.instructions.drop (Generate.layout root ⟨env, parameters⟩ 0).size = [] ∨
    program.instructions.drop (Generate.layout root ⟨env, parameters⟩ 0).size = [.pushNull, .ret]
  /-- A function covers the labels in its body.  Behind a label at the end of the body is the return
  of the function. -/
  functions : ∀ s ∈ root.spots ⟨env, parameters⟩ 0, ∀ d ∈ s.definition?,
    ∃ f, program.HasFunction f ∧ f.name = d.name ∧ f.parameters = d.parameters ∧
      f.start = s.address + 1 ∧
      ∀ t ∈ d.spots s.scope s.address, ∀ label ∈ t.label?, f.extent.Covers label.2 ∧
        (label.2 = f.start + (d.inner s.scope s.address).size →
          f.stop = label.2 + 1 ∧ program.instructions[label.2]? = some .pushNull ∧
            program.instructions[f.stop]? = some .ret)

/-! ## statements in the code -/

namespace Spot

variable {s : Spot} {f : Fragment} {name : String} {address : Nat}

/-- A statement that wants a label is one instruction, which has no target yet. -/
theorem code_of_wanted (wanted : s.wanted? = some (name, address)) :
    s.address = address ∧ s.inner = [] ∧
      ∃ i, s.layout.code = [i] ∧ i.target? = some .unresolved := by
  obtain ⟨node, scope, place⟩ := s
  cases node with
  | jump | callLabel =>
      obtain ⟨-, rfl⟩ := Prod.mk.inj (Option.some.inj wanted)
      exact ⟨rfl, rfl, _, rfl, rfl⟩
  | _ => cases wanted

/-- A statement that is one jump without a target has it at its address. -/
theorem Stands.getElem?_eq {i : Instruction} (h : s.Stands 0 f) (one : s.layout.code = [i])
    (open_ : i.target? = some .unresolved) : f.code[s.address]? = some i := by
  obtain ⟨x, y, before, after, shape, there⟩ := h.code
  have settled : ¬ i.Unsettled := by simp [Instruction.Unsettled, open_]
  have code : (s.layout.retarget x y).code = [i] := by
    simp [Fragment.retarget, one, Instruction.mapTarget_retarget settled]
  rw [Nat.zero_add] at there
  rw [shape, code, there, List.append_assoc, List.getElem?_append_right (Nat.le_refl _),
    Nat.sub_self]
  rfl

theorem node_of_definition {d : Definition} (defines : s.definition? = some d) :
    s.node = d.node := by
  obtain ⟨node, scope, place⟩ := s
  cases node with
  | function =>
      obtain rfl := Option.some.inj defines
      rfl
  | _ => cases defines

/-- The code of a function is a jump, and behind it the closed body. -/
theorem code_of_definition {d : Definition} (defines : s.definition? = some d) :
    ∃ i, s.layout.code = i :: ((d.inner s.scope s.address).closed (s.address + 1)).code := by
  have shape : s.layout = _ := congrArg (Generate.layout · s.scope s.address)
    (node_of_definition defines)
  rw [shape]
  exact ⟨_, List.append_nil _⟩

end Spot

namespace Tracks

variable {ss : List Spot} {base : Nat} {f : Fragment} {name name' : String} {address : Nat}

/-- The jumps that wait come in the order of their addresses. -/
theorem ordered (h : Tracks ss base f) : f.waiting.Pairwise (·.2 < ·.2) := by
  rw [h.waiting, List.pairwise_filterMap]
  refine h.precedes.imp fun precedes w wanted w' wanted' => ?_
  obtain ⟨here, alone, i, one, -⟩ := Spot.code_of_wanted wanted
  obtain ⟨there, -⟩ := Spot.code_of_wanted wanted'
  rcases precedes with inside | behind
  · rw [alone] at inside
    cases inside
  · rw [Spot.stop, Fragment.size, one, List.length_singleton, here, there] at behind
    exact behind

/-- No two jumps that wait have the same address. -/
theorem unique (h : Tracks ss base f) (waits : (name, address) ∈ f.waiting)
    (waits' : (name', address) ∈ f.waiting) : name = name' := by
  have distinct : (f.waiting.map (·.2)).Nodup := List.pairwise_map.2 (h.ordered.imp Nat.ne_of_lt)
  exact congrArg Prod.fst (List.inj_on_of_nodup_map distinct waits waits' rfl)

/-- What waits for a label is a jump to it. -/
theorem mem_waiting_iff (h : Tracks ss base f) :
    (name, address) ∈ f.waiting ↔ ∃ s ∈ ss, s.wanted? = some (name, address) := by
  rw [h.waiting, List.mem_filterMap]

end Tracks

/-! ## statements in the program -/

theorem Program.Shows.append_right {program : Program} {base : Nat} {front code : List Instruction}
    (h : program.Shows base (front ++ code)) : program.Shows (base + front.length) code := by
  intro k i found
  rw [Nat.add_assoc]
  refine h _ i ?_
  rw [List.getElem?_append_right (Nat.le_add_right _ _), Nat.add_sub_cancel_left, found]

namespace Completes

variable {env : Environment} {options : Options} {root : Node} {session : Session} {g : Generator}
  {program : Program} {s : Spot}

theorem tracks (h : Completes env options root session g program) :
    Tracks (root.spots ⟨env, options.mainArguments⟩ 0) 0
      (Generate.layout root ⟨env, options.mainArguments⟩ 0) :=
  Generate.tracks_statement root _ h.holds.statement 0

theorem waits_iff (h : Completes env options root session g program) {name : String}
    {address : Nat} : g.Waits name address ↔
      ∃ s ∈ root.spots ⟨env, options.mainArguments⟩ 0, s.wanted? = some (name, address) :=
  (h.holds.fresh.blank.waits_iff h.extends_).trans h.tracks.mem_waiting_iff

theorem listing_eq (h : Completes env options root session g program) :
    g.listing = (Generate.layout root ⟨env, options.mainArguments⟩ 0).code :=
  h.holds.fresh.blank.listing_eq h.extends_

/-- What waits for a label in the code has no target yet. -/
theorem open_of_waits (h : Completes env options root session g program) {name : String}
    {address : Nat} (waits : g.Waits name address) : g.Open address := by
  obtain ⟨s, found, wanted⟩ := h.waits_iff.1 waits
  obtain ⟨rfl, -, i, one, open_⟩ := Spot.code_of_wanted wanted
  refine ⟨i, ?_, open_⟩
  rw [h.listing_eq, (h.tracks.stands s found).getElem?_eq one open_]

/-- The program has the code of every statement. -/
theorem shows_spot (h : Completes env options root session g program)
    (found : s ∈ root.spots ⟨env, options.mainArguments⟩ 0) :
    ∃ x y, program.Shows s.address (s.layout.retarget x y).code := by
  have whole := h.finished.shows (fun _ _ => h.open_of_waits) h.listing_eq
  obtain ⟨x, y, contains⟩ := (h.tracks.stands s found).code
  exact ⟨x, y, whole.of_contains contains⟩

/-- A jump to a label has the address of that label in the program. -/
theorem links (h : Completes env options root session g program) {name : String} {i : Instruction}
    (found : s ∈ root.spots ⟨env, options.mainArguments⟩ 0)
    (wanted : s.wanted? = some (name, s.address)) (one : s.layout.code = [i])
    (open_ : i.target? = some .unresolved) :
    ∃ address, program.labels.find? name = some address ∧
      program.instructions[s.address]? = some (i.mapTarget fun _ => .address address) := by
  obtain ⟨g₁, g₂, linked, closed, instructions⟩ := h.finished.instructions
  obtain ⟨other, address, waits, known, moved⟩ :=
    linked.moved s.address ⟨name, h.waits_iff.2 ⟨s, found, wanted⟩⟩
  obtain rfl : other = name :=
    h.tracks.unique (h.tracks.mem_waiting_iff.2 (h.waits_iff.1 waits))
      (h.tracks.mem_waiting_iff.2 ⟨s, found, wanted⟩)
  refine ⟨address, by rw [h.finished.labels, known], ?_⟩
  have there : g₁.listing[s.address]? = some (i.mapTarget fun _ => .address address) := by
    rw [moved, h.listing_eq, (h.tracks.stands s found).getElem?_eq one open_]
    rfl
  rw [instructions, closed.listing,
    List.getElem?_append_left (List.getElem?_eq_some_iff.1 there).1, there]

/-- What is no jump to a label is in the program as it is in the layout. -/
theorem getElem?_eq (h : Completes env options root session g program) {address : Nat}
    (inside : address < (Generate.layout root ⟨env, options.mainArguments⟩ 0).size)
    (others : ∀ s ∈ root.spots ⟨env, options.mainArguments⟩ 0,
      s.wanted? = none ∨ s.address ≠ address) :
    program.instructions[address]? =
      (Generate.layout root ⟨env, options.mainArguments⟩ 0).code[address]? := by
  have there := List.getElem?_eq_getElem inside
  rw [there]
  refine h.finished.getElem?_of_rests (fun name waits => ?_) (by rw [h.listing_eq, there])
  obtain ⟨s, found, wanted⟩ := h.waits_iff.1 waits
  rcases others s found with none | other
  · cases none.symm.trans wanted
  · exact other (Spot.code_of_wanted wanted).1

theorem drop_size (h : Completes env options root session g program) :
    program.instructions.drop (Generate.layout root ⟨env, options.mainArguments⟩ 0).size = [] ∨
      program.instructions.drop (Generate.layout root ⟨env, options.mainArguments⟩ 0).size =
        [.pushNull, .ret] := by
  obtain ⟨g₁, g₂, linked, closed, instructions⟩ := h.finished.instructions
  have size : (Generate.layout root ⟨env, options.mainArguments⟩ 0).size = g₁.listing.length := by
    rw [g₁.length_listing, linked.here, ← g.length_listing, h.listing_eq, Fragment.size]
  rw [instructions, closed.listing, size, List.drop_left]
  split
  · exact .inr rfl
  · exact .inl rfl

/-! ## labels -/

theorem find?_label_iff (h : Completes env options root session g program) {name : String}
    {address : Nat} : program.labels.find? name = some address ↔
      (name, address) ∈ (Generate.layout root ⟨env, options.mainArguments⟩ 0).labels := by
  rw [h.finished.labels, h.holds.fresh.blank.labels_iff h.extends_]

theorem label_lt (h : Completes env options root session g program) {name : String}
    {address : Nat} (known : program.labels.find? name = some address) :
    address < program.instructions.length := by
  obtain ⟨g₁, g₂, linked, closed, instructions⟩ := h.finished.instructions
  have bounds := h.tracks.bounds (h.find?_label_iff.1 known)
  have le : address ≤ g₁.here := by
    rw [linked.here, ← g.length_listing, h.listing_eq]
    exact Nat.le_trans bounds.2 (Nat.le_of_eq (Nat.zero_add _))
  rw [instructions, g₂.length_listing]
  refine closed.lt_here le (.inr ⟨name, ?_⟩)
  rw [linked.labels, ← h.finished.labels, known]

/-- No two statements have the same label. -/
theorem nodup_labels (h : Completes env options root session g program) :
    ((root.spots ⟨env, options.mainArguments⟩ 0).filterMap (·.label?)).Nodup := by
  have marks := congrArg labelsOf
    (marks_spots root ⟨env, options.mainArguments⟩ h.holds.statement 0)
  rw [labelsOf_marksOf, labelsOf_marksOf] at marks
  have names : ((root.spots ⟨env, options.mainArguments⟩ 0).filterMap (·.label?)).map Prod.fst =
      labelsOf (root.occurrences options.mainArguments) := by
    refine Eq.trans ?_ marks
    rw [labelsOf, List.filterMap_map, List.map_filterMap]
    simp [Spot.label?, Function.comp_def]
  exact .of_map Prod.fst (names ▸ h.distinct)

theorem perm_labels (h : Completes env options root session g program) :
    program.labels.entries.Perm
      ((root.spots ⟨env, options.mainArguments⟩ 0).filterMap (·.label?)) := by
  have sorted : program.labels.entries.Nodup := by
    refine List.Pairwise.imp ?_ program.labels.ascending
    rintro e _ less rfl
    exact String.lt_irrefl _ less
  refine (List.perm_ext_iff_of_nodup sorted h.nodup_labels).2 fun entry => ?_
  rw [NameMap.mem_entries_iff, h.find?_label_iff, h.tracks.labels]

/-! ## functions -/

/-- Behind a label at the end of its body a function returns. -/
theorem returns_behind_label (h : Completes env options root session g program)
    (found : s ∈ root.spots ⟨env, options.mainArguments⟩ 0) {d : Definition}
    (defines : s.definition? = some d) {label : String × Nat}
    (declared : label ∈ (d.inner s.scope s.address).labels)
    (last : label.2 = s.address + 1 + (d.inner s.scope s.address).size) :
    s.address + ((d.inner s.scope s.address).closed (s.address + 1)).size = label.2 + 1 ∧
      program.instructions[label.2]? = some .pushNull ∧
      program.instructions[label.2 + 1]? = some .ret := by
  obtain ⟨x, y, shows_⟩ := h.shows_spot found
  obtain ⟨i, code⟩ := Spot.code_of_definition defines
  rw [Fragment.closed_of_label declared last] at code ⊢
  have shape : (s.layout.retarget x y).code = (i :: (d.inner s.scope s.address).code).map
      (·.mapTarget (Code.retarget x y)) ++ [.pushNull, .ret] := by
    simp [Fragment.retarget, code, Instruction.mapTarget]
  rw [shape] at shows_
  have behind := shows_.append_right
  have start : s.address + ((i :: (d.inner s.scope s.address).code).map
      (·.mapTarget (Code.retarget x y))).length = label.2 := by
    rw [List.length_map, List.length_cons, last, Fragment.size]
    omega
  rw [start] at behind
  refine ⟨?_, behind.eq (k := 0) (i := .pushNull) rfl (by decide),
    behind.eq (k := 1) (i := .ret) rfl (by decide)⟩
  rw [Fragment.size_append, Fragment.size_ofCode, last, List.length_cons, List.length_cons,
    List.length_nil]
  omega

/-- A function covers the labels in its body, and its return follows a label at the end. -/
theorem covers_label (h : Completes env options root session g program)
    (found : s ∈ root.spots ⟨env, options.mainArguments⟩ 0) {d : Definition}
    (defines : s.definition? = some d) :
    ∃ f, program.HasFunction f ∧ f.name = d.name ∧ f.parameters = d.parameters ∧
      f.start = s.address + 1 ∧
      ∀ t ∈ d.spots s.scope s.address, ∀ label ∈ t.label?, f.extent.Covers label.2 ∧
        (label.2 = f.start + (d.inner s.scope s.address).size →
          f.stop = label.2 + 1 ∧ program.instructions[label.2]? = some .pushNull ∧
            program.instructions[f.stop]? = some .ret) := by
  have stands := h.tracks.stands s found
  have defined : d ∈ root.definitions :=
    (definitions_perm_spots root _ 0).mem_iff.2 (List.mem_filterMap.2 ⟨s, found, defines⟩)
  refine ⟨_, h.hasFunction_iff.2 ⟨_, stands.placed d defines, d, defined, rfl, rfl⟩, rfl, rfl, rfl,
    fun t inside label declares => ?_⟩
  obtain ⟨declared, above, below⟩ := stands.labels d defines t inside label declares
  have le : label.2 ≤ s.address + ((d.inner s.scope s.address).closed (s.address + 1)).size := by
    have closed := Fragment.lt_closed_of_label declared below
    omega
  refine ⟨⟨above, le⟩, fun last => ?_⟩
  obtain ⟨stop, null, ret⟩ := h.returns_behind_label found defines declared last
  exact ⟨stop, null, (congrArg (program.instructions[·]?) stop).trans ret⟩

end Completes

/-! ## main result -/

section main

variable {env : Environment} {options : Options} {text : String} {program : Program}

/-- A script that compiles has its labels linked exactly: every jump to a label has the address of
the code behind that label, and nothing else is changed. -/
theorem compile_links_labels (plain : env.hostDirectives = [])
    (compiled : compile env options text = .ok program) :
    ∃ root, readTree env options text = some root ∧
      program.LinksLabels env options.mainArguments root := by
  obtain ⟨root, session, g, read, h⟩ := completes_of_compile plain compiled
  refine ⟨root, read, ?_⟩
  exact {
    marks := marks_spots root _ h.holds.statement 0
    definitions := definitions_perm_spots root _ 0
    order := h.tracks.precedes
    code := fun s found => h.shows_spot found
    labels := h.perm_labels
    inside := fun name address known => h.label_lt known
    jumps := fun s found l name jump => by
      obtain ⟨node, scope, address⟩ := s
      obtain rfl : node = _ := jump
      exact h.links found rfl rfl rfl
    calls := fun s found l name call => by
      obtain ⟨node, scope, address⟩ := s
      obtain rfl : node = _ := call
      exact h.links found rfl rfl rfl
    others := fun address inside others => h.getElem?_eq inside others
    epilogue := h.drop_size
    functions := fun s found d defines => h.covers_label found defines }

end main

/-- Jumps and calls to labels in front of them and behind them, into a function and out of it.  The
labels `out` and `done` have no statement behind them. -/
def labelScript : String :=
  "label top: call sub; jump out; jump done; label sub: back; function f(n) \x7b while n jump top; return n; label out: \x7d label done:"

theorem compile_links_labels_labelScript : ∃ root program,
    readTree {} {} labelScript = some root ∧ compile {} {} labelScript = .ok program ∧
      program.labels.entries = [("done", 13), ("out", 11), ("sub", 3), ("top", 0)] ∧
      program.instructions =
        [.jumpPush (.address 3), .jump (.address 11), .jump (.address 13), .jumpPop,
          .jump (.address 13), .pushArgument 0, .jumpUnless (.address 9), .jump (.address 0),
          .jump (.address 5), .pushArgument 0, .ret, .pushNull, .ret, .pushNull, .ret] ∧
      program.LinksLabels {} [] root := by
  have known : (compile {} {} labelScript).toOption.map
      (fun p => (p.labels.entries, p.instructions)) =
      some ([("done", 13), ("out", 11), ("sub", 3), ("top", 0)],
        [.jumpPush (.address 3), .jump (.address 11), .jump (.address 13), .jumpPop,
          .jump (.address 13), .pushArgument 0, .jumpUnless (.address 9), .jump (.address 0),
          .jump (.address 5), .pushArgument 0, .ret, .pushNull, .ret, .pushNull, .ret]) := by
    decide +kernel
  cases compiled : compile {} {} labelScript with
  | error e =>
      rw [compiled] at known
      cases known
  | ok program =>
      rw [compiled] at known
      obtain ⟨labels, instructions⟩ := Prod.mk.inj (Option.some.inj known)
      obtain ⟨root, read, links⟩ := compile_links_labels rfl compiled
      exact ⟨root, program, read, rfl, labels, instructions, links⟩

end HostScript
