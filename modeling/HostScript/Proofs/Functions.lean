import HostScript.Proofs.Completion
import HostScript.Proofs.Isolation
import HostScript.Proofs.Safety
import Mathlib.Data.List.Nodup

/-!
# HostScript.Proofs.Functions

The functions of a compiled program.  Each entry of its table stands for one definition of the
script: its range is the code of that definition, with a jump around it and a return at its end.
Ranges are nested or have nothing in common, and no jump leads into a function or out of it, except
for those to labels.
-/

namespace HostScript

/-! ## the table -/

namespace FunctionTable

variable {t : FunctionTable} {ps : List Placement}

theorem get?_placeAt (t : FunctionTable) (p : Placement) (id : Nat) :
    (t.placeAt p).get? id =
      if p.id = id then (t.get? id).map fun f => { f with start := p.start, stop := p.stop }
      else t.get? id := by
  simp only [placeAt, place, get?, Array.getElem?_modify]

theorem get?_foldl_placeAt_of_not_mem {id : Nat} (other : id ∉ ps.map (·.id)) :
    (ps.foldl placeAt t).get? id = t.get? id := by
  induction ps generalizing t with
  | nil => rfl
  | cons p ps ih =>
      rw [List.map_cons, List.mem_cons, not_or] at other
      rw [List.foldl_cons, ih other.2, get?_placeAt, if_neg (Ne.symm other.1)]

/-- Every function is where its placement says. -/
theorem get?_foldl_placeAt {p : Placement} (distinct : (ps.map (·.id)).Nodup) (found : p ∈ ps) :
    (ps.foldl placeAt t).get? p.id =
      (t.get? p.id).map fun f => { f with start := p.start, stop := p.stop } := by
  induction ps generalizing t with
  | nil => cases found
  | cons q ps ih =>
      rw [List.map_cons, List.nodup_cons] at distinct
      rw [List.foldl_cons]
      rcases List.mem_cons.1 found with rfl | found
      · rw [get?_foldl_placeAt_of_not_mem distinct.1, get?_placeAt, if_pos rfl]
      · have other : q.id ≠ p.id := fun same =>
          distinct.1 (same ▸ List.mem_map_of_mem found)
        rw [ih distinct.2 found, get?_placeAt, if_neg other]

/-- A function joins the group of its name, and the others stay in theirs. -/
theorem exists_group_addToGroup {m : NameMap (List ScriptFunction)} {f : ScriptFunction}
    (known : ∃ group, m.find? f.name = some group ∧ f ∈ group) (other : ScriptFunction) :
    ∃ group, (addToGroup m other).find? f.name = some group ∧ f ∈ group := by
  obtain ⟨group, found, member⟩ := known
  by_cases same : other.name = f.name
  · refine ⟨group ++ [other], ?_, List.mem_append_left _ member⟩
    rw [addToGroup, NameMap.find?_insert, if_pos same, same, found]
    rfl
  · exact ⟨group, by rw [addToGroup, NameMap.find?_insert, if_neg same, found], member⟩

/-- Grouping by name loses no function. -/
theorem exists_group_of_mem {f : ScriptFunction} (found : f ∈ t.functions) :
    ∃ group, t.grouped.find? f.name = some group ∧ f ∈ group := by
  have kept (functions : List ScriptFunction) (m : NameMap (List ScriptFunction))
      (known : ∃ group, m.find? f.name = some group ∧ f ∈ group) :
      ∃ group, (functions.foldl addToGroup m).find? f.name = some group ∧ f ∈ group := by
    induction functions generalizing m with
    | nil => exact known
    | cons other functions ih => exact ih _ (exists_group_addToGroup known other)
  have fold (functions : List ScriptFunction) (m : NameMap (List ScriptFunction))
      (member : f ∈ functions) :
      ∃ group, (functions.foldl addToGroup m).find? f.name = some group ∧ f ∈ group := by
    induction functions generalizing m with
    | nil => cases member
    | cons other functions ih =>
        rcases List.mem_cons.1 member with rfl | member
        · refine kept functions _ ⟨(m.find? f.name).getD [] ++ [f], ?_, by simp⟩
          rw [addToGroup, NameMap.find?_insert, if_pos rfl]
        · exact ih _ member
  obtain ⟨group, there, member⟩ := fold t.functions.toList .empty (by simpa using found)
  refine ⟨group.mergeSort fun f g => f.arity ≤ g.arity, NameMap.mem_entries_iff.1 ?_,
    (List.mergeSort_perm ..).mem_iff.2 member⟩
  exact List.mem_map.2 ⟨_, NameMap.mem_entries_iff.2 there, rfl⟩

end FunctionTable

/-! ## programs -/

namespace Program

/-- The function is in the table. -/
def HasFunction (program : Program) (f : ScriptFunction) : Prop :=
  ∃ name group, program.functions.find? name = some group ∧ f ∈ group

/-- The code stands in the program from `base` on.  Targets that are missing in it, those of jumps
to labels, are there in the program. -/
def Shows (program : Program) (base : Nat) (code : List Instruction) : Prop :=
  ∀ k i, code[k]? = some i → ∃ j, program.instructions[base + k]? = some j ∧
    (j = i ∨ i.target? = some .unresolved ∧ ∃ a, j = i.mapTarget fun _ => .address a)

/-- The functions of a program with the tree `root`.  The code of a node is its layout, which is
what code generation adds for it wherever it succeeds (`Generate.emit_extends`). -/
structure Isolates (env : Environment) (parameters : List String) (root : Node)
    (program : Program) : Prop where
  /-- The program is the code of the tree, with a return behind it if it needs one. -/
  code : program.Shows 0 (Generate.layout root ⟨env, parameters⟩ 0).code
  /-- There is code all around a function. -/
  within : ∀ f, program.HasFunction f →
    1 ≤ f.start ∧ f.start ≤ f.stop ∧ f.stop + 1 < program.instructions.length
  returns : ∀ f, program.HasFunction f → program.instructions[f.stop]? = some .ret
  around : ∀ f, program.HasFunction f →
    program.instructions[f.start - 1]? = some (.jump (.address (f.stop + 1)))
  apart : ∀ f f', program.HasFunction f → program.HasFunction f' → f ≠ f' → f.extent.Apart f'.extent
  /-- A function is the code of the only definition with its name and number of parameters. -/
  defined : ∀ f, program.HasFunction f → ∃ d ∈ root.definitions,
    d.name = f.name ∧ d.parameters = f.parameters ∧
    (∀ d' ∈ root.definitions, d'.signature = d.signature → d' = d) ∧
    f.start - 1 + (Generate.layout d.node ⟨env, []⟩ (f.start - 1)).size = f.stop + 1 ∧
    program.Shows (f.start - 1) (Generate.layout d.node ⟨env, []⟩ (f.start - 1)).code
  complete : ∀ d ∈ root.definitions, ∃ f, program.HasFunction f ∧
    f.name = d.name ∧ f.parameters = d.parameters
  /-- A jump that does not wait for a label stays on its side of every function. -/
  isolated : ∀ address (i : Instruction) target, program.instructions[address]? = some i →
    i.target? = some (.address target) →
    (∀ name, (name, address) ∉ (Generate.layout root ⟨env, parameters⟩ 0).waiting) →
    ∀ f, program.HasFunction f → (f.extent.Covers address ↔ f.extent.Covers target)

end Program

/-! ## the code of a script -/

section finished

variable {env : Environment} {options : Options} {root : Node} {s : Session} {g : Generator}
  {program : Program}

/-- Linking changes no instruction but jumps to labels. -/
theorem Finished.shows {f : Fragment} (finished : Finished g program)
    (open_ : ∀ name address, g.Waits name address → g.Open address)
    (listing : g.listing = f.code) : program.Shows 0 f.code := by
  obtain ⟨g₁, g₂, linked, closed, instructions⟩ := finished.instructions
  intro k i found
  rw [Nat.zero_add, instructions, closed.listing]
  have there : g.listing[k]? = some i := listing ▸ found
  have inside : k < g₁.listing.length := by
    rw [g₁.length_listing, linked.here, ← g.length_listing]
    exact (List.getElem?_eq_some_iff.1 there).1
  rw [List.getElem?_append_left inside]
  by_cases waits : ∃ name, g.Waits name k
  · obtain ⟨_, target, -, -, moved⟩ := linked.moved k waits
    obtain ⟨name, waiting⟩ := waits
    obtain ⟨j, same, unresolved⟩ := open_ name k waiting
    obtain rfl : j = i := Option.some.inj (same.symm.trans there)
    exact ⟨_, by rw [moved, there]; rfl, .inr ⟨unresolved, target, rfl⟩⟩
  · exact ⟨i, (linked.kept k waits).trans there, .inl rfl⟩

/-- What a program shows it shows of every part. -/
theorem Program.Shows.of_contains {f : Fragment} (h : program.Shows 0 f.code) {address : Nat}
    {code : List Instruction} (contains : f.Contains 0 address code) :
    program.Shows address code := by
  obtain ⟨before, after, shape, rfl⟩ := contains
  intro k i found
  rw [Nat.add_assoc]
  refine h _ i ?_
  rw [shape, List.append_assoc, List.getElem?_append_right (Nat.le_add_right _ _),
    Nat.add_sub_cancel_left, List.getElem?_append_left (List.getElem?_eq_some_iff.1 found).1, found]

/-- An instruction that is no jump to a label is shown as it is. -/
theorem Program.Shows.eq {base : Nat} {code : List Instruction} (h : program.Shows base code)
    {k : Nat} {i : Instruction} (found : code[k]? = some i)
    (settled : i.target? ≠ some .unresolved) :
    program.instructions[base + k]? = some i := by
  obtain ⟨j, there, rfl | ⟨unresolved, -⟩⟩ := h k i found
  · exact there
  · exact absurd unresolved settled

theorem Fragment.getLast?_closed (f : Fragment) (start : Nat) :
    (f.closed start).code.getLast? = some .ret := by
  unfold closed
  split
  next => simp
  next ends =>
    simp only [fallsOff, Bool.or_eq_true, not_or, Bool.not_eq_true', Bool.not_eq_false] at ends
    obtain ⟨i, last, isReturn⟩ := (Option.any_eq_true ..).1 ends.1.1
    rw [last, Instruction.isReturn_iff.1 isReturn]

/-- The code of a definition: a jump, and behind it the body with a return at its end. -/
theorem Generate.code_layout_definition (env : Environment) (d : Definition) (base : Nat) :
    ∃ inner, (layout d.node ⟨env, []⟩ base).code =
        .jump (.address (base + (layout d.node ⟨env, []⟩ base).size)) :: inner ∧
      inner.getLast? = some .ret := by
  let inner := (layout d.body ⟨env, d.parameters⟩ (base + 1)).closed (base + 1)
  refine ⟨inner.code, ?_, Fragment.getLast?_closed ..⟩
  have shape : layout d.node ⟨env, []⟩ base = .jumpOver .jump base inner ++
      ({ placements := [⟨d.id, base + 1, base + inner.size⟩] } : Fragment) := rfl
  rw [shape]
  simp [Fragment.jumpOver, Fragment.size]
  omega

/-- The functions of the table are those that are defined, each with the range of its placement. -/
theorem Session.Holds.exists_placement {f : Fragment} (holds : s.Holds env options root)
    (extends_ : Extends s.generator f g)
    (ids : (f.placements.map (·.id)).Perm (root.definitions.map (·.id))) {h : ScriptFunction}
    (found : h ∈ g.functions.functions) :
    ∃ p ∈ f.placements, ∃ d ∈ root.definitions, d.id = p.id ∧
      h = { d.entry with start := p.start, stop := p.stop } := by
  have distinct := ids.nodup_iff.2 holds.enrolled.nodup_ids
  obtain ⟨id, there⟩ := Array.mem_iff_getElem?.1 found
  have there : g.functions.get? id = some h := there
  rw [extends_.functions] at there
  by_cases placed : id ∈ f.placements.map (·.id)
  · obtain ⟨p, member, rfl⟩ := List.mem_map.1 placed
    rw [FunctionTable.get?_foldl_placeAt distinct member] at there
    obtain ⟨entry, registered, rfl⟩ := Option.map_eq_some_iff.1 there
    obtain ⟨d, defined, same, rfl⟩ := holds.enrolled.get?_eq_some_iff.1 registered
    exact ⟨p, member, d, defined, same, rfl⟩
  · rw [FunctionTable.get?_foldl_placeAt_of_not_mem placed] at there
    obtain ⟨d, defined, rfl, -⟩ := holds.enrolled.get?_eq_some_iff.1 there
    exact absurd (ids.mem_iff.2 (List.mem_map_of_mem defined)) placed

/-- Every placement has its function in the table. -/
theorem Session.Holds.mem_of_placement {f : Fragment} (holds : s.Holds env options root)
    (extends_ : Extends s.generator f g)
    (ids : (f.placements.map (·.id)).Perm (root.definitions.map (·.id))) {p : Placement}
    {d : Definition} (member : p ∈ f.placements) (defined : d ∈ root.definitions)
    (same : d.id = p.id) :
    { d.entry with start := p.start, stop := p.stop } ∈ g.functions.functions := by
  have distinct := ids.nodup_iff.2 holds.enrolled.nodup_ids
  have registered := holds.enrolled.get?_eq_some_iff.2 ⟨d, defined, same, rfl⟩
  have there : g.functions.get? p.id = some { d.entry with start := p.start, stop := p.stop } := by
    rw [extends_.functions, FunctionTable.get?_foldl_placeAt distinct member, registered]
    rfl
  exact Array.mem_of_getElem? there

/-- The range of a function is where its code is. -/
theorem Session.Holds.placed {f : Fragment} (holds : s.Holds env options root)
    (extends_ : Extends s.generator f g)
    (housed : Housed (fun _ => False) env root.definitions 0 f) {h : ScriptFunction}
    (found : h ∈ g.functions.functions) :
    ∃ p ∈ f.placements, ∃ d ∈ root.definitions, Lodges env 0 f p d ∧
      h = { d.entry with start := p.start, stop := p.stop } := by
  obtain ⟨p, member, d, defined, same, rfl⟩ := holds.exists_placement extends_ housed.ids found
  obtain ⟨d', known, lodges⟩ := housed.code p member
  obtain rfl := List.inj_on_of_nodup_map holds.enrolled.nodup_ids known defined
    (lodges.id.trans same.symm)
  exact ⟨p, member, d', known, lodges, rfl⟩

/-- Every definition has its function in the table. -/
theorem Session.Holds.exists_placed {f : Fragment} (holds : s.Holds env options root)
    (extends_ : Extends s.generator f g)
    (housed : Housed (fun _ => False) env root.definitions 0 f) {d : Definition}
    (defined : d ∈ root.definitions) :
    ∃ start stop, { d.entry with start, stop } ∈ g.functions.functions := by
  have placed := housed.ids.mem_iff.2 (List.mem_map_of_mem defined)
  obtain ⟨p, member, same⟩ := List.mem_map.1 placed
  exact ⟨p.start, p.stop, holds.mem_of_placement extends_ housed.ids member defined same.symm⟩

/-- A function starts behind a jump around it and ends in a return. -/
theorem Lodges.frame {f : Fragment} {p : Placement} {d : Definition} (lodges : Lodges env 0 f p d)
    (h : program.Shows 0 f.code) :
    program.instructions[p.start - 1]? = some (.jump (.address (p.stop + 1))) ∧
      program.instructions[p.stop]? = some .ret := by
  have shown := h.of_contains lodges.code
  have ends := lodges.ends
  obtain ⟨inner, code, last⟩ := Generate.code_layout_definition env d (p.start - 1)
  rw [code] at shown
  rw [Fragment.size, code, List.length_cons] at ends
  constructor
  · have first := shown.eq (k := 0) rfl (by simp [Instruction.target?])
    rwa [lodges.ends] at first
  · rw [List.getLast?_eq_getElem?] at last
    have nonempty := (List.getElem?_eq_some_iff.1 last).1
    have behind := shown.eq (k := inner.length) (i := .ret)
      (by rw [List.getElem?_cons, if_neg (by omega), last]) (by simp [Instruction.target?])
    rwa [show p.start - 1 + inner.length = p.stop by omega] at behind

theorem Program.HasFunction.mem (finished : Finished g program) {f : ScriptFunction}
    (h : program.HasFunction f) : f ∈ g.functions.functions := by
  obtain ⟨name, group, found, member⟩ := h
  rw [finished.functions] at found
  exact FunctionTable.mem_of_grouped found member

/-- A jump of the program that does not wait for a label is one of the code. -/
theorem Finished.getElem?_of_jump {address : Nat} {i : Instruction} {target : JumpTarget}
    (finished : Finished g program) (found : program.instructions[address]? = some i)
    (jumps : i.target? = some target) (settled : ∀ name, ¬ g.Waits name address) :
    g.listing[address]? = some i := by
  obtain ⟨g₁, g₂, linked, closed, instructions⟩ := finished.instructions
  rw [instructions, closed.listing] at found
  by_cases inside : address < g₁.listing.length
  · rw [List.getElem?_append_left inside] at found
    rwa [← linked.kept address fun ⟨name, waits⟩ => settled name waits]
  · rw [List.getElem?_append_right (Nat.le_of_not_lt inside)] at found
    have last := List.mem_of_getElem? found
    split at last
    next =>
      obtain rfl | rfl : i = .pushNull ∨ i = .ret := by simpa using last
      all_goals cases jumps
    next => cases last

end finished

/-- Whatever the text, in a compiled program every function of the table is the code of one
definition of the script, between a jump around it and a return at its end.  Two functions have
nothing in common or are nested, and no jump but those to labels leads into a function or out of
it. -/
theorem compile_isolates_functions {env : Environment} {options : Options} {text : String}
    {program : Program} (plain : env.hostDirectives = []) (macros : env.MacrosStayInLine)
    (compiled : compile env options text = .ok program) :
    ∃ root, readTree env options text = some root ∧
      program.Isolates env options.mainArguments root := by
  obtain ⟨root, s, g, read, h⟩ := completes_of_compile plain compiled
  obtain ⟨holds, -, -, extends_, finished, -⟩ := h
  refine ⟨root, read, ?_⟩
  have blank := holds.fresh.blank
  have same : (⟨env, options.mainArguments⟩ : Scope).environment.MacrosStayInLine := macros
  have housed : Housed (fun _ => False) env root.definitions 0
      (Generate.layout root ⟨env, options.mainArguments⟩ 0) :=
    Generate.housed_statement root same holds.statement 0
  have generated : Generated ⟨env, options.mainArguments⟩ g :=
    ⟨root, s.generator, blank, holds.statement, extends_⟩
  have listing := blank.listing_eq extends_
  have shows_ := finished.shows (generated.settled macros).waits listing
  have placed (f : ScriptFunction) (h : program.HasFunction f) :=
    holds.placed extends_ housed (h.mem finished)
  refine ⟨shows_, fun f h => ?_, fun f h => ?_, fun f h => ?_, fun f f' h h' other => ?_,
    fun f h => ?_, fun d defined => ?_, fun address i target found jumps free f h => ?_⟩
  · obtain ⟨p, member, d, -, lodges, rfl⟩ := placed f h
    obtain ⟨starts, ordered, -⟩ := housed.bounds p member
    have around := (lodges.frame shows_).1
    obtain ⟨a, inside, target⟩ := finished.targets _ _ (List.mem_of_getElem? around) rfl
    cases target
    exact ⟨starts, ordered, inside⟩
  · obtain ⟨p, member, d, -, lodges, rfl⟩ := placed f h
    exact (lodges.frame shows_).2
  · obtain ⟨p, member, d, -, lodges, rfl⟩ := placed f h
    exact (lodges.frame shows_).1
  · obtain ⟨p, member, d, known, lodges, rfl⟩ := placed f h
    obtain ⟨q, member', d', known', lodges', rfl⟩ := placed f' h'
    refine (housed.nested p member q member').resolve_left ?_
    rintro rfl
    have ids := holds.enrolled.nodup_ids
    obtain rfl := List.inj_on_of_nodup_map ids known known' (lodges.id.trans lodges'.id.symm)
    exact other rfl
  · obtain ⟨p, member, d, known, lodges, rfl⟩ := placed f h
    exact ⟨d, known, rfl, rfl, fun d' known' same =>
      List.inj_on_of_nodup_map holds.enrolled.nodup_signatures known' known same, lodges.ends,
      shows_.of_contains lodges.code⟩
  · obtain ⟨start, stop, found⟩ := holds.exists_placed extends_ housed defined
    obtain ⟨group, known, member⟩ := FunctionTable.exists_group_of_mem found
    exact ⟨_, ⟨_, group, finished.functions ▸ known, member⟩, rfl, rfl⟩
  · obtain ⟨p, member, d, -, -, rfl⟩ := placed f h
    have there := finished.getElem?_of_jump found jumps fun name waits =>
      free name ((blank.waits_iff extends_).1 waits)
    rw [listing] at there
    have keeps := housed.jumps address i there _ jumps
    rw [Nat.zero_add] at keeps
    obtain ⟨-, -, stays⟩ := keeps.resolve_left fun away => away.1
    exact stays p member

/-- A script with a function inside of another, behind which nothing else stands. -/
def nestedScript : String :=
  "function poll(n) \x7b while wait(n) if now break; function wait(n) \x7b return n && now; \x7d \x7d"

theorem compile_isolates_functions_nested :
    (compile clockHost {} nestedScript).isOk = true ∧
    ∀ program, compile clockHost {} nestedScript = .ok program →
      ∃ root, readTree clockHost {} nestedScript = some root ∧ program.Isolates clockHost [] root :=
  ⟨by decide +kernel, fun _ compiled => compile_isolates_functions rfl (by decide) compiled⟩

end HostScript
