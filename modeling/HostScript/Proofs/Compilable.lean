import HostScript.Proofs.Demands
import HostScript.Proofs.Scripts

/-!
# HostScript.Proofs.Compilable

Which scripts compile.  Code generation succeeds exactly if the nodes of the tree are in order and
declare no label twice, by `Demands`.  What is left are the steps at the end: linking succeeds
exactly if all labels that are jumped to are declared, and the checks behind it exactly if all
calls have a function to go to.  Put together, a script whose tree can be read compiles exactly if
that tree is `Acceptable`.
-/

namespace HostScript

variable {env : Environment} {g g' : Generator}

/-! ## linking -/

namespace Generate

/-- A jump can be linked exactly if its label is declared. -/
theorem linkJump_succeeds_iff (name : String) {address : Nat} (l : Location)
    (jumps : g.Jumps address) : Succeeds (linkJump name address l) g ↔ g.Declares name := by
  unfold linkJump Generator.Declares
  cases found : g.labels.find? name with
  | none =>
      refine iff_of_false ?_ (by simp)
      rintro ⟨_, _, run⟩
      simp only [get_bind, found] at run
      exact fail_ne_ok run
  | some target =>
      refine iff_of_true ?_ rfl
      refine ⟨⟨⟩, { g with
        log := g.log.push (.linked address name target)
        code := g.code.setTarget address (.address target) }, ?_⟩
      simp only [get_bind, found, Generator.hasTarget_of_jumps jumps, if_true]
      rfl

/-- All jumps to one label can be linked exactly if it is declared. -/
theorem linkJumps_succeeds_iff (name : String) (jumps : List (Nat × Location))
    (there : ∀ jump ∈ jumps, g.Jumps jump.1) :
    Succeeds (linkJumps name jumps) g ↔ ∀ _ ∈ jumps, g.Declares name := by
  induction jumps generalizing g with
  | nil => simp [linkJumps, Succeeds, pure_eq_ok]
  | cons jump jumps ih =>
      obtain ⟨address, l⟩ := jump
      rw [List.forall_mem_cons] at there
      rw [linkJumps, List.forall_mem_cons]
      refine succeeds_bind_iff (linkJump_succeeds_iff name l there.1) fun _ g₁ run => ?_
      have linked := (linkJump_relinks name l there.1).post_of_ok run
      rw [ih fun jump found => linked.jumps (there.2 jump found)]
      simp only [Generator.Declares, linked.labels]

/-- All jumps can be linked exactly if their labels are declared. -/
theorem linkEntries_succeeds_iff (entries : List (String × List (Nat × Location)))
    (there : ∀ entry ∈ entries, ∀ jump ∈ entry.2, g.Jumps jump.1) :
    Succeeds (linkEntries entries) g ↔
      ∀ entry ∈ entries, ∀ _ ∈ entry.2, g.Declares entry.1 := by
  induction entries generalizing g with
  | nil => simp [linkEntries, Succeeds, pure_eq_ok]
  | cons entry entries ih =>
      obtain ⟨name, jumps⟩ := entry
      rw [List.forall_mem_cons] at there
      rw [linkEntries, List.forall_mem_cons]
      refine succeeds_bind_iff (linkJumps_succeeds_iff name jumps there.1) fun _ g₁ run => ?_
      have linked := (linkJumps_relinks name jumps there.1).post_of_ok run
      rw [ih fun entry found jump in_ => linked.jumps (there.2 entry found jump in_)]
      simp only [Generator.Declares, linked.labels]

/-- Linking succeeds exactly if all labels that are waited for are declared. -/
theorem linkLabels_succeeds_iff
    (waits : ∀ name address, g.Waits name address → g.Jumps address) :
    Succeeds linkLabels g ↔ ∀ name, g.Wants name → g.Declares name := by
  have pending (name : String) (address : Nat) : g.Waits name address ↔
      ∃ jumps l, (name, jumps) ∈ g.pending.entries ∧ (address, l) ∈ jumps := by
    simp only [Generator.Waits, NameMap.mem_entries_iff]
  have step : Succeeds linkLabels g ↔
      Succeeds (linkEntries g.pending.entries) { g with pending := .empty } := Iff.rfl
  rw [step, linkEntries_succeeds_iff]
  · constructor
    · rintro declared name ⟨address, waiting⟩
      obtain ⟨jumps, l, entry, jump⟩ := (pending name address).1 waiting
      exact declared (name, jumps) entry (address, l) jump
    · rintro declared ⟨name, jumps⟩ entry ⟨address, l⟩ jump
      exact declared name ⟨address, (pending name address).2 ⟨jumps, l, entry, jump⟩⟩
  · rintro ⟨name, jumps⟩ entry ⟨address, l⟩ jump
    exact waits name address ((pending name address).2 ⟨jumps, l, entry, jump⟩)

end Generate

/-! ## checking -/

namespace Generator

theorem mem_calls_iff {call : Signature} :
    call ∈ g.calls ↔
      ∃ (address : Nat) (i : Instruction),
        g.listing[address]? = some i ∧ i.callee? = some call := by
  rw [calls, List.mem_filterMap]
  constructor
  · rintro ⟨i, found, calls⟩
    obtain ⟨address, there⟩ := List.mem_iff_getElem?.1 found
    exact ⟨address, i, there, calls⟩
  · rintro ⟨address, i, there, calls⟩
    exact ⟨i, List.mem_of_getElem? there, calls⟩

/-- Linking changes no call. -/
theorem mem_calls_of_relinked {p : String → Nat → Prop} (linked : Relinked p g g')
    {call : Signature} : call ∈ g'.calls ↔ call ∈ g.calls := by
  rw [mem_calls_iff, mem_calls_iff]
  have same (address : Nat) :
      g'.listing[address]?.bind (·.callee?) = g.listing[address]?.bind (·.callee?) := by
    by_cases moved : ∃ name, p name address
    · obtain ⟨_, _, -, -, there⟩ := linked.moved address moved
      rw [there, Option.bind_map]
      simp only [Function.comp_def, callee?_mapTarget]
    · rw [linked.kept address moved]
  simp only [← Option.bind_eq_some_iff, same]

/-- A return at the end calls nothing. -/
theorem calls_of_closed (closed : Closed g g') : g'.calls = g.calls := by
  rw [calls, closed.listing, List.filterMap_append]
  split
  · exact List.append_nil _
  · exact List.append_nil _

/-- A call passes exactly if something can be called. -/
theorem callFault?_eq_none_iff {i : Instruction} :
    g.callFault? env i = none ↔ ∀ call, i.callee? = some call →
      g.isResolved env call.name call.argc = true := by
  cases i <;> simp [callFault?, Instruction.callee?]

theorem firstFault_eq_none_iff {check : Nat → Instruction → Option Cause}
    {code : List Instruction} :
    firstFault check 0 code = none ↔ ∀ k i, code[k]? = some i → check k i = none := by
  constructor
  · intro passed k i found
    have passed := firstFault_eq_none passed k i found
    rwa [Nat.zero_add] at passed
  · intro passed
    cases first : firstFault check 0 code with
    | none => rfl
    | some fault =>
        obtain ⟨k, i, found, failed⟩ := firstFault_eq_some first
        rw [Nat.zero_add, passed k i found] at failed
        cases failed

end Generator

namespace Generate

/-- A check passes exactly if it finds no fault. -/
theorem check_eq_ok {stop : Location} {fault? : Generator → Nat → Instruction → Option Cause}
    {u : Unit} : check stop fault? g = .ok u g' ↔
      (∀ address i, g.listing[address]? = some i → fault? g address i = none) ∧ g = g' := by
  unfold check
  rw [get_bind, Generator.listing, ← Generator.firstFault_eq_none_iff]
  cases first : Generator.firstFault (fault? g) 0 g.code.instructions.toList with
  | none => simp [pure_eq_ok]
  | some fault => simp [fail_ne_ok]

/-- A program can always be closed. -/
theorem closeProgram_succeeds (stop : Location) (g : Generator) :
    Succeeds (closeProgram stop) g := by
  unfold closeProgram
  rw [Succeeds, get_bind]
  split
  · exact ⟨⟨⟩, (g.push .pushNull stop).push .ret stop, rfl⟩
  · exact ⟨⟨⟩, g, rfl⟩

/-- Finishing succeeds exactly if all jumps have a label and all calls a function. -/
theorem finish_succeeds_iff (settled : g.Settled) (stop : Location) :
    Succeeds (finish env stop) g ↔ (∀ name, g.Wants name → g.Declares name) ∧
      ∀ call ∈ g.calls, g.isResolved env call.name call.argc = true := by
  have jumps (name : String) (address : Nat) (waits : g.Waits name address) : g.Jumps address :=
    (settled.waits name address waits).jumps
  refine succeeds_bind_iff (linkLabels_succeeds_iff jumps) fun _ g₁ run₁ => ?_
  have linked := (linkLabels_relinks jumps).post_of_ok run₁
  obtain ⟨⟨⟩, g₂, run₂⟩ := closeProgram_succeeds stop g₁
  have closed := (closeProgram_closes stop g₁).post_of_ok run₂
  have targets : check stop (fun g address i => g.targetFault? address i) g₂ = .ok ⟨⟩ g₂ :=
    check_eq_ok.2 ⟨fun address i found =>
      settled.targetFault?_eq_none linked closed (List.mem_of_getElem? found), rfl⟩
  have resolved (name : String) (argc : Nat) :
      g₂.isResolved env name argc = g.isResolved env name argc := by
    simp only [Generator.isResolved, closed.functions, linked.functions]
  have calls : Succeeds (check stop fun g _ i => g.callFault? env i) g₂ ↔
      ∀ call ∈ g.calls, g.isResolved env call.name call.argc = true := by
    simp only [← Generator.mem_calls_of_relinked linked, ← Generator.calls_of_closed closed,
      Generator.mem_calls_iff, ← resolved, Succeeds, check_eq_ok, Generator.callFault?_eq_none_iff]
    constructor
    · rintro ⟨-, -, passed, -⟩ call ⟨address, i, found, callee⟩
      exact passed address i found call callee
    · intro passed
      refine ⟨⟨⟩, g₂, fun address i found call callee => ?_, rfl⟩
      exact passed call ⟨address, i, found, callee⟩
  rw [succeeds_bind_of_ok run₂, succeeds_bind_of_ok targets]
  refine (succeeds_bind_iff calls fun _ g₃ _ => iff_true_intro ?_).trans (and_iff_left trivial)
  exact ⟨g₃.program, { g₃ with
    log := g₃.log.push (.finished g₃.here g₃.functions.size g₃.labels.size) }, rfl⟩

end Generate

/-! ## whole scripts -/

namespace Compile

variable {α : Type} {s : Session}

/-- A step of code generation succeeds exactly if the generator does. -/
theorem generating_succeeds_iff {x : Generate α} :
    Succeeds (generating x) s ↔ Succeeds x s.generator := by
  unfold Succeeds generating
  cases x s.generator with
  | ok a g => simp
  | error e g => simp

end Compile

/-- There is a function for a call exactly if the table or the host has one. -/
theorem isResolved_iff {root : Node} {t : FunctionTable}
    (enrolled : Enrolled env {} t root.definitions)
    (same : g.functions.signatures = t.signatures) {name : String} {argc : Nat} :
    g.isResolved env name argc = true ↔ Resolved env root ⟨name, argc⟩ := by
  have script : (g.functions.find? name argc).isSome = true ↔
      ∃ d ∈ root.definitions, d.signature = ⟨name, argc⟩ := by
    rw [Option.isSome_iff_ne_none, ne_eq, FunctionTable.find?_eq_none_iff, Decidable.not_not, same,
      enrolled.mem_signatures_iff]
  have host : (env.globalFunction? name).any (·.accepts argc) = true ↔
      ∃ f, env.globalFunction? name = some f ∧ f.accepts argc = true := Option.any_eq_true ..
  rw [Generator.isResolved, Bool.or_eq_true, Bool.or_eq_true, script, host, or_assoc]
  rfl

variable {options : Options} {text : String} {s : Session} {root : Node}

namespace Compile

/-- What code for the tree of a script demands.  Outside of functions the names are those of the
script itself. -/
theorem root_demands (holds : s.Holds env options root) :
    Generate.Demands s.generator.functions.size ⟨env, options.mainArguments⟩
      ⟨env, options.mainArguments⟩ (root.occurrences options.mainArguments)
      (Generate.emit root ⟨env, options.mainArguments⟩) :=
  Generate.statement_demands root ⟨env, options.mainArguments⟩ holds.statement

/-- Generating code for a tree succeeds exactly if its nodes are in order and declare no label
twice. -/
theorem compileRoot_succeeds_iff (holds : s.Holds env options root) :
    Succeeds compileRoot s ↔
      (∀ o ∈ root.occurrences options.mainArguments, o.Valid env) ∧
        (labelsOf (root.occurrences options.mainArguments)).Nodup := by
  have undeclared (name : String) : ¬ s.generator.Declares name := by
    simp [Generator.Declares, holds.fresh.blank.labels, NameMap.find?_empty]
  have emits := (root_demands holds).succeeds s.generator rfl (holds.fresh.blank.ready _).names
  rw [HostScript.Fresh, and_iff_left fun name _ => undeclared name] at emits
  rw [Succeeds, compileRoot_eq holds]
  refine (succeeds_bind_iff (generating_succeeds_iff.trans emits) fun _ s₁ _ => ?_).trans
    (and_iff_left trivial)
  exact iff_true_intro (generating_succeeds_iff.2
    ⟨⟨⟩, { s₁.generator with log := s₁.generator.log.push (.generated s₁.generator.here) }, rfl⟩)

/-- The code of a tree adds what its occurrences say. -/
theorem compileRoot_adds (holds : s.Holds env options root) {u : Unit} {s' : Session}
    (run : compileRoot s = .ok u s') :
    Adds env (root.occurrences options.mainArguments) s.generator s'.generator := by
  rw [compileRoot_eq holds] at run
  obtain ⟨_, s₁, run₁, run₂⟩ := bind_eq_ok.1 run
  obtain ⟨g₁, emitted, rfl⟩ := generating_eq_ok run₁
  obtain ⟨g₂, recorded, rfl⟩ := generating_eq_ok run₂
  have added := (root_demands holds).adds _ _ _ (holds.fresh.blank.ready _).names emitted
  cases recorded
  exact ⟨added.functions, added.parameters, added.labels, added.wants, added.calls⟩

/-- Finishing the code of a tree succeeds exactly if its jumps have labels and its calls
functions. -/
theorem finish_succeeds_iff (macros : env.MacrosStayInLine) (holds : s.Holds env options root)
    {u : Unit} {s' : Session} (run : compileRoot s = .ok u s') :
    Succeeds finish s' ↔
      (∀ name ∈ wantedOf (root.occurrences options.mainArguments),
        name ∈ labelsOf (root.occurrences options.mainArguments)) ∧
      ∀ call ∈ callsOf env (root.occurrences options.mainArguments), Resolved env root call := by
  have blank := holds.fresh.blank
  have added := compileRoot_adds holds run
  obtain ⟨host, generated⟩ :=
    (compileRoot_faultless holds.fresh holds.tree holds.statement).post_of_ok run
  have declares (name : String) : ¬ s.generator.Declares name := by
    simp [Generator.Declares, blank.labels, NameMap.find?_empty]
  have wants (name : String) : ¬ s.generator.Wants name := by
    simp [Generator.Wants, Generator.Waits, blank.pending, NameMap.find?_empty]
  have calls : s.generator.calls = [] := by
    simp [Generator.calls, Generator.listing, blank.code]
  rw [Succeeds, finish, get_bind]
  refine generating_succeeds_iff.trans ?_
  rw [Generate.finish_succeeds_iff (generated.settled macros), host]
  simp only [added.wants, added.labels, added.calls, declares, wants, calls, false_or,
    List.not_mem_nil, isResolved_iff holds.enrolled added.functions]

end Compile

/-- A compilation succeeds exactly if all its steps do. -/
theorem compile_isOk_iff : (compile env options text).isOk = true ↔
    Succeeds (Compile.script noPreprocessing text) (.start env options) := by
  unfold compile compileWith Succeeds
  cases Compile.script noPreprocessing text (.start env options) with
  | ok program s => simp [Except.isOk, Except.toBool]
  | error e s => simp [Except.isOk, Except.toBool]

/-- For a host without directive rules of its own and without jumps in its system macros, a script
whose tree can be read compiles exactly if the tree is acceptable. -/
theorem compile_isOk_iff_acceptable (plain : env.hostDirectives = [])
    (macros : env.MacrosStayInLine) (h : readTree env options text = some root) :
    (compile env options text).isOk = true ↔ Acceptable env options.mainArguments root := by
  obtain ⟨s, read, holds⟩ := readTree_eq_some plain h
  rw [compile_isOk_iff, Compile.script_eq, ← Compile.read, succeeds_bind_of_ok read,
    succeeds_bind_iff (Compile.compileRoot_succeeds_iff holds) fun _ s' run =>
      Compile.finish_succeeds_iff macros holds run]
  constructor
  · rintro ⟨⟨valid, distinct⟩, declared, resolved⟩
    exact ⟨valid, distinct, declared, resolved⟩
  · rintro ⟨valid, distinct, declared, resolved⟩
    exact ⟨⟨valid, distinct⟩, declared, resolved⟩

/-- The first script calls a function before it is defined and jumps out of it; in the second one
the parameter of the function is assigned to. -/
theorem compile_isOk_iff_acceptable_tick :
    (∃ root, readTree clockHost {} "tick(now); label done: return; function tick(t) \x7b jump done; \x7d" =
        some root ∧ Acceptable clockHost [] root) ∧
    ∃ root, readTree clockHost {} "tick(now); label done: return; function tick(t) \x7b t = 1; \x7d" =
        some root ∧ ¬ Acceptable clockHost [] root := by
  have first : (readTree clockHost {}
      "tick(now); label done: return; function tick(t) \x7b jump done; \x7d").isSome = true := by
    decide +kernel
  have second : (readTree clockHost {}
      "tick(now); label done: return; function tick(t) \x7b t = 1; \x7d").isSome = true := by
    decide +kernel
  obtain ⟨root, read⟩ := Option.isSome_iff_exists.1 first
  obtain ⟨root', read'⟩ := Option.isSome_iff_exists.1 second
  refine ⟨⟨root, read, ?_⟩, root', read', ?_⟩
  · exact (compile_isOk_iff_acceptable rfl (by decide) read).1 (by decide +kernel)
  · intro acceptable
    have compiles := (compile_isOk_iff_acceptable rfl (by decide) read').2 acceptable
    exact absurd compiles (by decide +kernel)

end HostScript
