import HostScript.Proofs.Accesses
import HostScript.Proofs.Completion
import HostScript.Proofs.Functions

/-!
# HostScript.Proofs.Scoping

Names are scoped lexically.  A name that the script reads becomes a constant, the expansion of a
system macro, an argument or a variable, in this order, where the arguments are those of the
function that the read stands in.  The program has no trace of scopes but the ranges of its
functions, so the statement is about these: at every address of a program the innermost function
around it says which names are arguments.
-/

namespace HostScript

/-- Whether an instruction means something else in another function. -/
def Instruction.isLocal : Instruction → Bool
  | pushArgument _ | setIdentifier _ => true
  | _ => false

/-- No system macro reads an argument or stores into a variable. -/
def Environment.MacrosKeepScope (env : Environment) : Prop :=
  ∀ name code, env.systemMacro? name = some code → ∀ i ∈ code, i.isLocal = false

theorem Environment.macrosKeepScope_iff {env : Environment} : env.MacrosKeepScope ↔
    ∀ entry ∈ env.systemMacros.entries, ∀ i ∈ entry.2, i.isLocal = false :=
  ⟨fun h entry found => h entry.1 entry.2 (NameMap.mem_entries_iff.1 found),
    fun h name code found => h (name, code) (NameMap.mem_entries_iff.2 found)⟩

instance (env : Environment) : Decidable env.MacrosKeepScope :=
  decidable_of_iff _ Environment.macrosKeepScope_iff.symm

namespace Program

/-- At the address these parameters are in scope: those of the innermost function around it, or the
arguments of the script where no function is. -/
def Sees (program : Program) (outer : List String) (address : Nat) (parameters : List String) :
    Prop :=
  (∀ f, program.HasFunction f → ¬ f.extent.Covers address) ∧ parameters = outer ∨
    ∃ f, program.HasFunction f ∧ f.parameters = parameters ∧ f.extent.Covers address ∧
      ∀ f', program.HasFunction f' → f'.extent.Covers address →
        f'.start ≤ f.start ∧ f.stop ≤ f'.stop

/-- The code of an access is in the program, where its parameters are in scope. -/
structure Performs (env : Environment) (outer : List String) (program : Program) (s : Site) :
    Prop where
  code : ∀ k i, (s.access.code env)[k]? = some i →
    ∃ j, program.instructions[s.address + k]? = some j ∧ i.Settles j
  scope : ∀ address, s.Covers env address → program.Sees outer address s.access.parameters

/-- The names of a program with the tree `root`. -/
structure ScopesNames (env : Environment) (outer : List String) (root : Node)
    (program : Program) : Prop where
  /-- Everything that the tree reads and stores has its site. -/
  accesses : (root.sites ⟨env, outer⟩ 0).map (·.access) = root.accesses outer
  /-- The program reads and stores in the order of the tree. -/
  ordered : (root.sites ⟨env, outer⟩ 0).Pairwise fun s t => s.address + s.width env ≤ t.address
  /-- What a node reads or stores stands where the layout has the code of that node. -/
  performs : ∀ s ∈ root.sites ⟨env, outer⟩ 0, program.Performs env outer s
  /-- The program reads and stores nothing else. -/
  complete : ∀ address i, program.instructions[address]? = some i → i.touches = true →
    ∃ s ∈ root.sites ⟨env, outer⟩ 0, s.Covers env address
  /-- There is an innermost function around every address that has any around it. -/
  innermost : ∀ address, ∃ parameters, ∀ other,
    program.Sees outer address other ↔ other = parameters
  arguments : ∀ address index parameters,
    program.instructions[address]? = some (.pushArgument index) →
    program.Sees outer address parameters → index < parameters.length
  stores : ∀ address name parameters,
    program.instructions[address]? = some (.setIdentifier name) →
    program.Sees outer address parameters →
    env.constant? name = none ∧ env.systemMacro? name = none ∧ name ∉ parameters

end Program

/-! ## the code of an access -/

section code

variable {env : Environment} {a : Access}

/-- The only local instruction that a read gives rise to is the read of an argument, which is a
parameter. -/
theorem Generate.argument_of_mem_readCode {scope : Scope} {name : String} {i : Instruction}
    (macros : scope.environment.MacrosKeepScope) (found : i ∈ readCode scope name)
    (isLocal : i.isLocal = true) : ∃ index < scope.parameters.length, i = .pushArgument index := by
  unfold readCode at found
  cases known : scope.environment.constant? name with
  | some constant =>
      simp only [known, List.mem_singleton] at found
      subst found
      cases constant <;> cases isLocal
  | none =>
      cases expands : scope.environment.systemMacro? name with
      | some code =>
          simp only [known, expands] at found
          rw [macros name code expands i found] at isLocal
          cases isLocal
      | none =>
          cases at_ : scope.parameters.idxOf? name with
          | some index =>
              simp only [known, expands, at_, List.mem_singleton] at found
              obtain ⟨inside, -⟩ := List.idxOf?_eq_some_iff.1 at_
              exact ⟨index, inside, found⟩
          | none =>
              simp only [known, expands, at_, List.mem_singleton] at found
              subst found
              cases isLocal

/-- A read of an argument comes of a name that is a parameter. -/
theorem Access.lt_of_pushArgument (macros : env.MacrosKeepScope) {index : Nat}
    (found : .pushArgument index ∈ a.code env) : index < a.parameters.length := by
  unfold Access.code at found
  split at found
  · simp at found
  · obtain ⟨position, inside, same⟩ := Generate.argument_of_mem_readCode macros found rfl
    cases same
    exact inside

/-- A variable that is stored into is that of the access. -/
theorem Access.stores_of_setIdentifier (macros : env.MacrosKeepScope) {name : String}
    (found : .setIdentifier name ∈ a.code env) : a.stores = true ∧ a.name = name := by
  unfold Access.code at found
  split at found
  next stores =>
    obtain rfl : name = a.name := by simpa using found
    exact ⟨stores, rfl⟩
  next =>
    obtain ⟨position, -, same⟩ := Generate.argument_of_mem_readCode macros found rfl
    cases same

/-- What has no target is settled as it is. -/
theorem Instruction.Settles.eq {i j : Instruction} (h : i.Settles j) (straight : j.target? = none) :
    i = j := by
  rcases h with rfl | ⟨unsettled, a, rfl⟩
  · rfl
  · rcases unsettled with jumps | jumps
    all_goals cases i <;> simp_all [Instruction.target?, Instruction.mapTarget]

end code

/-! ## from the layout to the program -/

section finished

variable {env : Environment} {options : Options} {root : Node} {s : Session} {g : Generator}
  {program : Program} {address : Nat} {i : Instruction}

theorem Finished.hasFunction_iff (finished : Finished g program) {f : ScriptFunction} :
    program.HasFunction f ↔ f ∈ g.functions.functions := by
  constructor
  · intro h
    exact h.mem finished
  · intro found
    obtain ⟨group, there, member⟩ := FunctionTable.exists_group_of_mem found
    exact ⟨f.name, group, by rw [finished.functions, there], member⟩

/-- What does not wait for a label is in the program as it is in the code. -/
theorem Finished.getElem?_of_rests (finished : Finished g program)
    (rests : ∀ name, ¬ g.Waits name address) (found : g.listing[address]? = some i) :
    program.instructions[address]? = some i := by
  obtain ⟨g₁, g₂, linked, closed, instructions⟩ := finished.instructions
  have kept : g₁.listing[address]? = some i := by
    rw [linked.kept address fun waiting => waiting.elim rests, found]
  have inside := (List.getElem?_eq_some_iff.1 kept).1
  rw [instructions, closed.listing, List.getElem?_append_left inside, kept]

/-- Linking and closing add no access. -/
theorem Finished.exists_of_touches (finished : Finished g program)
    (found : program.instructions[address]? = some i) (touches : i.touches = true) :
    ∃ j, g.listing[address]? = some j ∧ j.touches = true := by
  obtain ⟨g₁, g₂, linked, closed, instructions⟩ := finished.instructions
  rw [instructions, closed.listing] at found
  by_cases inside : address < g₁.listing.length
  · rw [List.getElem?_append_left inside] at found
    by_cases waits : ∃ name, g.Waits name address
    · obtain ⟨_, target, -, -, moved⟩ := linked.moved address waits
      rw [found] at moved
      obtain ⟨j, there, rfl⟩ := Option.map_eq_some_iff.1 moved.symm
      exact ⟨j, there, by simpa using touches⟩
    · rw [linked.kept address waits] at found
      exact ⟨i, found, touches⟩
  · rw [List.getElem?_append_right (Nat.le_of_not_lt inside)] at found
    have last := List.mem_of_getElem? found
    split at last
    next =>
      obtain rfl | rfl : i = .pushNull ∨ i = .ret := by simpa using last
      all_goals cases touches
    next => cases last

namespace Completes

/-- The tree of a script reads and stores what its layout reads and stores. -/
theorem layoutScoped (h : Completes env options root s g program) :
    Scoped env options.mainArguments root.definitions (root.sites ⟨env, options.mainArguments⟩ 0) 0
      (Generate.layout root ⟨env, options.mainArguments⟩ 0) :=
  Generate.scoped_statement env root options.mainArguments h.holds.statement h.valid 0

/-- The functions of a program are those of the layout. -/
theorem hasFunction_iff (h : Completes env options root s g program) {f : ScriptFunction} :
    program.HasFunction f ↔
      ∃ p ∈ (Generate.layout root ⟨env, options.mainArguments⟩ 0).placements,
        ∃ d ∈ root.definitions, d.id = p.id ∧
          f = { d.entry with start := p.start, stop := p.stop } := by
  rw [h.finished.hasFunction_iff]
  constructor
  · intro found
    exact h.holds.exists_placement h.extends_ h.layoutScoped.ids found
  · rintro ⟨p, member, d, defined, same, rfl⟩
    exact h.holds.mem_of_placement h.extends_ h.layoutScoped.ids member defined same

/-- So the scopes of a program are those of the layout. -/
theorem sees_iff (h : Completes env options root s g program) {parameters : List String} :
    program.Sees options.mainArguments address parameters ↔
      (Generate.layout root ⟨env, options.mainArguments⟩ 0).Sees root.definitions
        options.mainArguments address parameters := by
  have known (p : Placement)
      (member : p ∈ (Generate.layout root ⟨env, options.mainArguments⟩ 0).placements) :
      ∃ d ∈ root.definitions, d.id = p.id :=
    List.mem_map.1 (h.layoutScoped.ids.mem_iff.1 (List.mem_map_of_mem member))
  constructor
  · rintro (⟨exposed, same⟩ | ⟨f, found, same, covers, inner⟩)
    · refine .inl ⟨fun p member covers => ?_, same⟩
      obtain ⟨d, defined, id⟩ := known p member
      exact exposed _ (h.hasFunction_iff.2 ⟨p, member, d, defined, id, rfl⟩) covers
    · obtain ⟨p, member, d, defined, id, rfl⟩ := h.hasFunction_iff.1 found
      refine .inr ⟨p, member, d, defined, id, same, covers, fun q member' covers' => ?_⟩
      obtain ⟨d', defined', id'⟩ := known q member'
      exact inner _ (h.hasFunction_iff.2 ⟨q, member', d', defined', id', rfl⟩) covers'
  · rintro (⟨exposed, same⟩ | ⟨p, member, d, defined, id, same, covers, inner⟩)
    · refine .inl ⟨fun f found covers => ?_, same⟩
      obtain ⟨p, member, d, -, -, rfl⟩ := h.hasFunction_iff.1 found
      exact exposed p member covers
    · refine .inr ⟨_, h.hasFunction_iff.2 ⟨p, member, d, defined, id, rfl⟩, same, covers, ?_⟩
      intro f found covers'
      obtain ⟨q, member', d', -, -, rfl⟩ := h.hasFunction_iff.1 found
      exact inner q member' covers'

/-- No two functions start at the same address, so at most one is innermost. -/
theorem innermost (h : Completes env options root s g program) (address : Nat) :
    ∃ parameters, ∀ other,
      program.Sees options.mainArguments address other ↔ other = parameters := by
  obtain ⟨parameters, seen⟩ := h.layoutScoped.sees address
  refine ⟨parameters, fun other => h.sees_iff.trans ⟨fun also => ?_, fun same => same ▸ seen⟩⟩
  exact also.unique seen h.layoutScoped.starts h.holds.enrolled.nodup_ids

theorem performs (h : Completes env options root s g program) {site : Site}
    (stands : site.Stands env options.mainArguments root.definitions 0
      (Generate.layout root ⟨env, options.mainArguments⟩ 0)) :
    program.Performs env options.mainArguments site := by
  constructor
  · intro k i found
    obtain ⟨n, j, there, same, settles⟩ := stands.code k i found
    rw [Nat.zero_add] at same
    subst same
    have inside := (List.getElem?_eq_some_iff.1 found).1
    have rests := stands.rests (site.address + k)
      ⟨Nat.le_add_right _ _, Nat.add_lt_add_left inside _⟩
    refine ⟨j, h.finished.getElem?_of_rests (fun name waits => ?_) ?_, settles⟩
    · exact rests _ ((h.holds.fresh.blank.waits_iff h.extends_).1 waits) rfl
    · rw [h.holds.fresh.blank.listing_eq h.extends_, there]
  · intro address covers
    exact h.sees_iff.2 (stands.scope address covers)

end Completes

end finished

/-! ## main result -/

section main

variable {env : Environment} {outer : List String} {program : Program} {address : Nat}
  {i : Instruction} {s : Site}

/-- An instruction without a target is in the code of the access around it. -/
theorem Program.Performs.mem_code (h : program.Performs env outer s) (covers : s.Covers env address)
    (found : program.instructions[address]? = some i) (straight : i.target? = none) :
    i ∈ s.access.code env := by
  obtain ⟨k, rfl⟩ := Nat.exists_eq_add_of_le covers.1
  have inside : k < (s.access.code env).length := Nat.lt_of_add_lt_add_left covers.2
  obtain ⟨j, there, settles⟩ := h.code k _ (List.getElem?_eq_getElem inside)
  obtain rfl : i = j := Option.some.inj (found.symm.trans there)
  rw [← settles.eq straight]
  exact List.getElem_mem inside

variable {options : Options} {text : String}

/-- Whatever the text, a program reads and stores what the script reads and stores, in the same
order and nothing else, and each read and store stands at the address that its node has in the
layout of the script.  A name stands for a constant, an expansion, an argument or a variable as
its place in the script says, and the innermost function around an address has the arguments that
can be read there.  Only variables are stored into. -/
theorem compile_scopes_names (plain : env.hostDirectives = []) (macros : env.MacrosKeepScope)
    (compiled : compile env options text = .ok program) :
    ∃ root, readTree env options text = some root ∧
      program.ScopesNames env options.mainArguments root := by
  obtain ⟨root, session, g, read, h⟩ := completes_of_compile plain compiled
  refine ⟨root, read, ?_⟩
  have performed (s : Site) (member : s ∈ root.sites ⟨env, options.mainArguments⟩ 0) :=
    h.performs (h.layoutScoped.stand s member)
  have covered (address : Nat) (i : Instruction)
      (found : program.instructions[address]? = some i) (touches : i.touches = true) :
      ∃ s ∈ root.sites ⟨env, options.mainArguments⟩ 0, s.Covers env address := by
    obtain ⟨j, there, touches'⟩ := h.finished.exists_of_touches found touches
    rw [h.holds.fresh.blank.listing_eq h.extends_] at there
    have site := h.layoutScoped.complete address j there touches'
    rwa [Nat.zero_add] at site
  have seen (address : Nat) (s : Site) (member : s ∈ root.sites ⟨env, options.mainArguments⟩ 0)
      (covers : s.Covers env address) (parameters : List String)
      (sees : program.Sees options.mainArguments address parameters) :
      parameters = s.access.parameters := by
    obtain ⟨only, unique⟩ := h.innermost address
    rw [(unique _).1 sees, (unique _).1 ((performed s member).scope address covers)]
  constructor
  · exact root.map_access_sites ⟨env, options.mainArguments⟩ 0
  · exact h.layoutScoped.ordered
  · exact performed
  · exact covered
  · exact h.innermost
  · intro address index parameters found sees
    obtain ⟨s, member, covers⟩ := covered address _ found rfl
    rw [seen address s member covers parameters sees]
    exact Access.lt_of_pushArgument macros ((performed s member).mem_code covers found rfl)
  · intro address name parameters found sees
    obtain ⟨s, member, covers⟩ := covered address _ found rfl
    obtain ⟨stores, rfl⟩ := Access.stores_of_setIdentifier macros
      ((performed s member).mem_code covers found rfl)
    rw [seen address s member covers parameters sees]
    exact (h.layoutScoped.stand s member).permitted stores

end main

/-- A host with a constant and a system macro. -/
def quotaHost : Environment :=
  (({} : Environment).addConstant "limit" (.number .one)).addSystemMacro "now"
    [.pushIdentifier "clock", .pushField "now"]

/-- A function inside of another one.  Its own parameter hides that of the function around it, which
it has no other way to read. -/
def quotaScript : String :=
  "total = input + limit; function spend(a, b) \x7b function again(b) \x7b total -= a + b + now; return input \x7d return again(b) \x7d"

/-- What it reads and stores, and where its program does so. -/
def quotaSites : List Site :=
  [⟨⟨"input", ["input"], false⟩, 0⟩, ⟨⟨"limit", ["input"], false⟩, 1⟩,
    ⟨⟨"total", ["input"], true⟩, 3⟩, ⟨⟨"total", ["b"], false⟩, 6⟩, ⟨⟨"a", ["b"], false⟩, 7⟩,
    ⟨⟨"b", ["b"], false⟩, 8⟩, ⟨⟨"now", ["b"], false⟩, 10⟩, ⟨⟨"total", ["b"], true⟩, 14⟩,
    ⟨⟨"input", ["b"], false⟩, 15⟩, ⟨⟨"b", ["a", "b"], false⟩, 17⟩]

theorem compile_scopes_names_quota :
    ∃ program, compile quotaHost { mainArguments := ["input"] } quotaScript = .ok program ∧
      (∀ s ∈ quotaSites, program.Performs quotaHost ["input"] s) ∧
      ∀ address i, program.instructions[address]? = some i → i.touches = true →
        ∃ s ∈ quotaSites, s.Covers quotaHost address := by
  have known : (readTree quotaHost { mainArguments := ["input"] } quotaScript).map
      (·.sites ⟨quotaHost, ["input"]⟩ 0) = some quotaSites := by decide +kernel
  have succeeds : (compile quotaHost { mainArguments := ["input"] } quotaScript).isOk = true := by
    decide +kernel
  cases compiled : compile quotaHost { mainArguments := ["input"] } quotaScript with
  | error e =>
      rw [compiled] at succeeds
      cases succeeds
  | ok program =>
      obtain ⟨root, read, names⟩ := compile_scopes_names rfl (by decide) compiled
      rw [read, Option.map_some] at known
      rw [← Option.some.inj known]
      exact ⟨program, rfl, names.performs, names.complete⟩

end HostScript
