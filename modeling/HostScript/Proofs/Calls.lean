import HostScript.Proofs.Completion
import HostScript.Proofs.Grouping
import Mathlib.Data.List.Nodup

/-!
# HostScript.Proofs.Calls

Where calls go.  While a script is read, a function is registered only if nothing else has its name
and number of parameters; once the program is complete, every call must find a function.  Together
this leaves no choice: a call goes to the one function of the script that answers it, and then the
host has none for it, or else to the host.
-/

namespace HostScript

/-! ## names that are taken -/

/-- Nothing of the host stands in the way of a function with this name and number of parameters. -/
structure Environment.Leaves (env : Environment) (name : String) (argc : Nat) : Prop where
  macros : env.macroSignature? name argc = none
  builtins : env.builtin? name argc = none
  functions : env.globalFunction? name = none
  /-- A constant is read like a function without parameters is called. -/
  constants : argc = 0 → env.constant? name = none

/-- A name that no function of the host is a rival for is left to scripts. -/
theorem Parse.leaves_of_rival? {env : Environment} {name : String} {argc : Nat}
    (h : rival? env {} name argc = none) : env.Leaves name argc := by
  have empty : FunctionTable.find? {} name argc = none := rfl
  unfold rival? at h
  rw [empty] at h
  cases macros : env.macroSignature? name argc with
  | some s => simp [macros] at h
  | none =>
      cases builtins : env.builtin? name argc with
      | some s => simp [macros, builtins] at h
      | none =>
          cases constant : decide (argc = 0) && (env.constant? name).isSome with
          | true => simp [macros, builtins, constant] at h
          | false =>
              cases functions : env.globalFunction? name with
              | some f => simp [macros, builtins, constant, functions] at h
              | none =>
                  have unread (nullary : argc = 0) : env.constant? name = none := by
                    simpa [nullary] using constant
                  exact ⟨macros, builtins, functions, unread⟩

/-! ## parameters -/

section parameters

variable {env : Environment}

mutual

/-- No function of a script has two parameters of one name. -/
theorem Grammar.nodup_parameters {allowed : Allowed} : (node : Node) →
    Grammar.Statement env allowed node → ∀ d ∈ node.definitions, d.parameters.Nodup
  | .block _ statements, h => Grammar.nodup_parametersOf statements h
  | .branch _ _ accepted otherwise, h =>
      List.forall_mem_append.2 ⟨Grammar.nodup_parameters accepted h.2.1,
        Grammar.nodup_parametersOfOptional otherwise h.2.2⟩
  | .switch _ _ _ cases fallback, h =>
      List.forall_mem_append.2 ⟨Grammar.nodup_parametersOfCases cases h.2.1,
        Grammar.nodup_parametersOfOptional fallback h.2.2.2⟩
  | .whileLoop _ _ body, h => Grammar.nodup_parameters body h.2
  | .doLoop _ body _, h => Grammar.nodup_parameters body h.1
  | .forLoop _ init _ post body, h =>
      List.forall_mem_append.2 ⟨List.forall_mem_append.2 ⟨Grammar.nodup_parameters init h.1,
        Grammar.nodup_parameters post h.2.2.1⟩, Grammar.nodup_parameters body h.2.2.2⟩
  | .label _ _ statement, h => Grammar.nodup_parameters statement h
  | .function _ _ _ _ body, h =>
      List.forall_mem_append.2 ⟨Grammar.nodup_parameters body h.2.2, by simpa using h.1⟩
  | .directive _ _ _ statements, h => by
      rw [Node.definitions, h.2.2]
      nofun
  | .returns .., _ | .discard .., _ | .assign .., _ | .adjust .., _ | .leave _, _ | .proceed _, _
  | .jump .., _ | .callLabel .., _ | .back _, _ => nofun

/-- Parameters are distinct in all functions of a list. -/
theorem Grammar.nodup_parametersOf {allowed : Allowed} : (nodes : List Node) →
    Grammar.Statements env allowed nodes → ∀ d ∈ definitionsOf nodes, d.parameters.Nodup
  | [], _ => nofun
  | node :: nodes, h =>
      List.forall_mem_append.2
        ⟨Grammar.nodup_parameters node h.1, Grammar.nodup_parametersOf nodes h.2⟩

theorem Grammar.nodup_parametersOfOptional {allowed : Allowed} : (node : Option Node) →
    Grammar.Otherwise env allowed node → ∀ d ∈ definitionsOfOptional node, d.parameters.Nodup
  | none, _ => nofun
  | some node, h => Grammar.nodup_parameters node h

theorem Grammar.nodup_parametersOfCases {allowed : Allowed} : (cases : List SwitchCase) →
    Grammar.Cases env allowed cases → ∀ d ∈ definitionsOfCases cases, d.parameters.Nodup
  | [], _ => nofun
  | .mk _ body :: cases, h =>
      List.forall_mem_append.2
        ⟨Grammar.nodup_parameters body h.2.2.1, Grammar.nodup_parametersOfCases cases h.2.2.2⟩

end

end parameters

/-! ## the functions of a program -/

/-- What a function is called and what it takes, wherever it stands. -/
def ScriptFunction.head (f : ScriptFunction) : String × List String := (f.name, f.parameters)

def Definition.head (d : Definition) : String × List String := (d.name, d.parameters)

/-- Placing functions changes neither their names nor their parameters. -/
theorem FunctionTable.heads_placeAt (t : FunctionTable) (ps : List Placement) :
    (ps.foldl placeAt t).functions.toList.map (·.head) = t.functions.toList.map (·.head) := by
  induction ps generalizing t with
  | nil => rfl
  | cons p ps ih =>
      rw [List.foldl_cons, ih]
      apply List.ext_getElem?
      intro k
      simp only [placeAt, place, Array.toList_modify, List.getElem?_map, List.getElem?_modify]
      cases t.functions.toList[k]? with
      | none => simp
      | some f => by_cases here : p.id = k <;> simp [here, ScriptFunction.head]

/-- The functions of a script are registered as they are defined. -/
theorem Enrolled.perm_heads {env : Environment} {t : FunctionTable} {ds : List Definition}
    (h : Enrolled env {} t ds) : (t.functions.toList.map (·.head)).Perm (ds.map (·.head)) := by
  obtain ⟨fs, list, perm⟩ := h.added
  have functions : t.functions.toList = fs := by simpa using list
  have entries := (perm.map Prod.fst).map ScriptFunction.head
  rw [List.zipIdx_map_fst, ← functions, List.map_map, List.map_map] at entries
  exact entries.symm

variable {env : Environment} {options : Options} {text : String} {root : Node} {s : Session}
  {g : Generator} {program : Program}

namespace Completes

/-- The functions of the program are those that the script defines, each of them once. -/
theorem perm_heads (h : Completes env options root s g program) :
    (program.allFunctions.map (·.head)).Perm (root.definitions.map (·.head)) := by
  have grouped : program.allFunctions.Perm g.functions.functions.toList := by
    rw [Program.allFunctions, h.finished.functions]
    exact g.functions.perm_grouped
  have placed : g.functions.functions.toList.map (·.head) =
      s.generator.functions.functions.toList.map (·.head) := by
    rw [h.extends_.functions, FunctionTable.heads_placeAt]
  exact (placed ▸ grouped.map _).trans h.holds.enrolled.perm_heads

/-- Every function of a program has its definition. -/
theorem exists_definition (h : Completes env options root s g program) {f : ScriptFunction}
    (member : f ∈ program.allFunctions) : ∃ d ∈ root.definitions, d.head = f.head :=
  List.mem_map.1 (h.perm_heads.mem_iff.1 (List.mem_map_of_mem member))

/-- Functions are grouped under their own names. -/
theorem named (h : Completes env options root s g program) :
    FunctionTable.Named program.functions := by
  rw [h.finished.functions]
  exact g.functions.named_grouped

/-- No two functions answer to the same calls. -/
theorem nodup_signatures (h : Completes env options root s g program) :
    (program.allFunctions.map (·.signature)).Nodup := by
  let sign (head : String × List String) : Signature := ⟨head.1, head.2.length⟩
  have same := h.perm_heads.map sign
  rw [List.map_map, List.map_map] at same
  exact same.nodup_iff.2 h.holds.enrolled.nodup_signatures

/-- A function of a program has a name that the host leaves to scripts. -/
theorem leaves (h : Completes env options root s g program) {f : ScriptFunction}
    (member : f ∈ program.allFunctions) : env.Leaves f.name f.arity := by
  obtain ⟨d, defined, same⟩ := h.exists_definition member
  obtain ⟨name, parameters⟩ := Prod.mk.inj same
  have free := h.holds.enrolled.free d defined
  rw [name, parameters] at free
  exact Parse.leaves_of_rival? free

/-- The function that answers a call is the only one. -/
theorem filter_answers (h : Completes env options root s g program) {f : ScriptFunction}
    {name : String} {argc : Nat} (member : f ∈ program.allFunctions)
    (answers : f.answers name argc = true) :
    program.allFunctions.filter (·.answers name argc) = [f] := by
  have signature (f : ScriptFunction) : f.answers name argc = (f.signature == ⟨name, argc⟩) := by
    rw [Bool.eq_iff_iff]
    simp [ScriptFunction.answers, ScriptFunction.signature]
  have count : (program.allFunctions.map (·.signature)).count ⟨name, argc⟩ = 1 := by
    apply List.count_eq_one_of_mem h.nodup_signatures
    rw [signature, beq_iff_eq] at answers
    exact List.mem_map.2 ⟨f, member, answers⟩
  have length : (program.allFunctions.filter (·.answers name argc)).length = 1 := by
    rw [← List.countP_eq_length_filter, ← count, List.count, List.countP_map]
    simp only [signature, Function.comp_def]
  obtain ⟨only, alone⟩ := List.length_eq_one_iff.1 length
  have inside : f ∈ program.allFunctions.filter (·.answers name argc) :=
    List.mem_filter.2 ⟨member, answers⟩
  rw [alone, List.mem_singleton] at inside
  rw [alone, inside]

end Completes

/-! ## calls -/

/-- The call finds its function, and there is no other one for it, neither in the script nor with
the host. -/
def Program.CallsScript (program : Program) (env : Environment) (name : String) (argc : Nat) :
    Prop :=
  ∃ f, program.function? name argc = some f ∧
    program.allFunctions.filter (·.answers name argc) = [f] ∧
    env.globalFunction? name = none ∧ env.builtin? name argc = none

/-- The script has no function for the call, but the host has one. -/
def Program.CallsHost (program : Program) (env : Environment) (name : String) (argc : Nat) : Prop :=
  program.function? name argc = none ∧
    program.allFunctions.filter (·.answers name argc) = [] ∧
    ((∃ f, env.globalFunction? name = some f ∧ f.accepts argc = true) ∨
      (env.builtin? name argc).isSome = true)

/-- The functions of a program with the tree `root`, and its calls. -/
structure Program.ResolvesCalls (env : Environment) (root : Node) (program : Program) : Prop where
  /-- Wherever functions are defined, inside of others or behind their calls, they are there. -/
  complete : (program.allFunctions.map (·.head)).Perm (root.definitions.map (·.head))
  distinct : (program.allFunctions.map (·.signature)).Nodup
  free : ∀ f ∈ program.allFunctions, env.Leaves f.name f.arity
  parameters : ∀ f ∈ program.allFunctions, f.parameters.Nodup
  calls : ∀ name argc, .call name argc ∈ program.instructions →
    program.CallsScript env name argc ∨ program.CallsHost env name argc

/-- A call that is resolved goes to the script or to the host, and never could go to both. -/
theorem Completes.calls (h : Completes env options root s g program) {name : String} {argc : Nat}
    (resolved : g.isResolved env name argc = true) :
    program.CallsScript env name argc ∨ program.CallsHost env name argc := by
  cases found : program.function? name argc with
  | some f =>
      obtain ⟨member, answers⟩ := Program.answers_of_function? h.named found
      have free := h.leaves member
      simp only [ScriptFunction.answers, Bool.and_eq_true, beq_iff_eq] at answers
      rw [answers.1, answers.2] at free
      exact .inl ⟨f, found, h.filter_answers member (by simp [ScriptFunction.answers, answers]),
        free.functions, free.builtins⟩
  | none =>
      have silent : ∀ f ∈ program.allFunctions, f.answers name argc = false :=
        fun f member => Program.not_answers_of_function? h.named found member
      have missing : g.functions.find? name argc = none := by
        rw [FunctionTable.find?, Array.find?_eq_none]
        intro f inside
        have grouped := g.functions.perm_grouped
        rw [← h.finished.functions] at grouped
        have member : f ∈ program.allFunctions := grouped.mem_iff.2 (by simpa using inside)
        simp [silent f member]
      have host : (env.globalFunction? name).any (·.accepts argc) = true ∨
          (env.builtin? name argc).isSome = true := by
        simpa [Generator.isResolved, missing] using resolved
      rw [Option.any_eq_true] at host
      exact .inr ⟨found, List.filter_eq_nil_iff.2 (by simpa using silent), host⟩

/-- Whatever the text and the host, in a compiled program every call has one place to go to.  All
functions of the script are there; no two of them answer to the same calls, none has a name that the
host uses for something else, and each has distinct parameters. -/
theorem compile_resolves_calls (plain : env.hostDirectives = [])
    (compiled : compile env options text = .ok program) :
    ∃ root, readTree env options text = some root ∧ program.ResolvesCalls env root := by
  obtain ⟨root, s, g, read, h⟩ := completes_of_compile plain compiled
  refine ⟨root, read, h.perm_heads, h.nodup_signatures, fun f member => h.leaves member, ?_, ?_⟩
  · intro f member
    obtain ⟨d, defined, same⟩ := h.exists_definition member
    rw [← (Prod.mk.inj same).2]
    exact Grammar.nodup_parameters root h.holds.grammar d defined
  · intro name argc found
    exact h.calls (h.resolved name argc found)

/-- A host with a function for logging that takes one or two arguments, a builtin `max`, and a
system macro that calls the builtin. -/
def loggingHost : Environment where
  systemMacros := .ofList [("top", [.pushNumber .one, .pushNumber .zero, .call "max" 2])]
  globalFunctions := [{ name := "log", minArgs := 1, maxArgs := some 2 }]
  builtins := [⟨"max", 2⟩]

/-- A script that calls a function of its own before its definition, which is inside of another one,
and beside it an overload, a function of the host and a builtin. -/
def loggingScript : String :=
  "log(max(1)); function max(a) \x7b log(top, a); return step(a, a); function step(a, b) \x7b return a \x7d \x7d"

theorem compile_resolves_calls_logging :
    ∃ program, compile loggingHost {} loggingScript = .ok program ∧
      program.CallsScript loggingHost "step" 2 ∧ program.CallsHost loggingHost "max" 2 := by
  have known : ((compile loggingHost {} loggingScript).toOption.map fun program =>
      (decide (.call "step" 2 ∈ program.instructions ∧ .call "max" 2 ∈ program.instructions),
        (program.function? "step" 2).isSome, (program.function? "max" 2).isSome)) =
      some (true, true, false) := by decide +kernel
  cases compiled : compile loggingHost {} loggingScript with
  | error e => simp [compiled, Except.toOption] at known
  | ok program =>
      simp only [compiled, Except.toOption, Option.map_some, Option.some.injEq, Prod.mk.injEq,
        decide_eq_true_eq] at known
      obtain ⟨⟨calls, calls'⟩, found, missing⟩ := known
      obtain ⟨root, -, resolves⟩ := compile_resolves_calls rfl compiled
      have step := resolves.calls "step" 2 calls
      have top := resolves.calls "max" 2 calls'
      refine ⟨program, rfl, step.resolve_right ?_, top.resolve_left ?_⟩
      · intro host
        simp [host.1] at found
      · intro script
        obtain ⟨f, there, -⟩ := script
        simp [there] at missing

end HostScript
