import HostScript.Proofs.NameMap
import HostScript.Proofs.Occurrences
import HostScript.Proofs.Parallel.Scripts

/-!
# HostScript.Proofs.Locality

A script is compiled with what the host says about the names in it.  `mentioned` lists these names:
the identifiers and keywords of the script, and the functions that system macros among them call.
Hosts that agree on all of them cannot be told apart by the script, whatever else they predefine.
In particular a host can be extended by names that a script does not have.
-/

namespace HostScript

/-! ## the names in a script -/

/-- The identifiers and keywords among some tokens. -/
def wordsOf (tokens : List Token) : List String := tokens.filterMap (·.kind.word?)

/-- The functions that are called where the system macro `name` is read. -/
def Environment.calledBy (env : Environment) (name : String) : List String :=
  ((env.systemMacro? name).getD []).filterMap fun i => i.callee?.map (·.name)

/-- The words of a text, and what the system macros among them call. -/
def mentioned (env : Environment) (options : Options) (text : String) : List String :=
  match tokenize options.sourceName options.startingLine text with
  | .ok tokens => wordsOf tokens ++ (wordsOf tokens).flatMap env.calledBy
  | .error _ => []

section mentioned

variable {env : Environment} {options : Options} {text : String} {tokens : List Token}
  {token : Token} {word : String}

/-- The word of a token is one of the words of a text. -/
theorem mem_wordsOf (member : token ∈ tokens) (h : token.kind.word? = some word) :
    word ∈ wordsOf tokens :=
  List.mem_filterMap.2 ⟨token, member, h⟩

/-- What an expansion calls is called by its name. -/
theorem Environment.mem_calledBy {name callee : String} {code : List Instruction} {argc : Nat}
    (expands : env.systemMacro? name = some code) (called : .call callee argc ∈ code) :
    callee ∈ env.calledBy name := by
  unfold calledBy
  rw [expands, Option.getD_some, List.mem_filterMap]
  exact ⟨.call callee argc, called, rfl⟩

/-- The words of a text are mentioned by it. -/
theorem mem_mentioned (read : tokenize options.sourceName options.startingLine text = .ok tokens)
    (member : word ∈ wordsOf tokens) : word ∈ mentioned env options text := by
  simp only [mentioned, read, List.mem_append]
  exact .inl member

/-- What is called by a word of a text is mentioned by it as well. -/
theorem mem_mentioned_of_calledBy {callee : String}
    (read : tokenize options.sourceName options.startingLine text = .ok tokens)
    (member : word ∈ wordsOf tokens) (called : callee ∈ env.calledBy word) :
    callee ∈ mentioned env options text := by
  simp only [mentioned, read, List.mem_append, List.mem_flatMap]
  exact .inr ⟨word, member, called⟩

end mentioned

/-! ## hosts that agree -/

/-- A program that is moved nowhere is the same. -/
theorem Program.move_id (p : Program) : p.move id = p := by
  have locations : p.locations.map (·.move id) = p.locations := List.map_id p.locations
  rw [Program.move, locations]

theorem moveResult_id (r : Except CompileError Program) : moveResult id r = r := by
  cases r with
  | ok p => rw [moveResult, p.move_id]
  | error e => rfl

/-- A script cannot tell hosts apart that agree on all that it mentions. -/
theorem compile_eq_of_agreesOn {env env' : Environment} {options : Options} {text : String}
    (plain : env.hostDirectives = [])
    (agree : ∀ name ∈ mentioned env options text, env.AgreesOn env' name) :
    compile env' options text = compile env options text := by
  cases read : tokenize options.sourceName options.startingLine text with
  | error e => rw [compile_of_tokenize_error env read, compile_of_tokenize_error env' read]
  | ok tokens =>
      let c : Comparison :=
        { first := env
          second := env'
          place := id
          known := fun name => name ∈ wordsOf tokens
          plain
          agree := fun name member => agree name (mem_mentioned read member)
          expansions := fun name code member expands callee argc called =>
            (agree callee (mem_mentioned_of_calledBy read member
              (env.mem_calledBy expands called))).callsAlike }
      obtain ⟨log, first⟩ := compile_eq_compileTokens env read
      obtain ⟨log', second⟩ := compile_eq_compileTokens env' read
      have known (token : Token) (member : token ∈ tokens) (word : String)
          (h : token.kind.word? = some word) : c.known word := mem_wordsOf member h
      have nonempty := ne_nil_of_tokenize read
      have same := compileTokens_move c nonempty known (Eq.refl options.mainArguments) log log'
      have unmoved : tokens.map (·.move id) = tokens := List.map_id tokens
      rw [moveResult_id, unmoved] at same
      rw [first, second]
      exact same

/-! ## hosts with more names -/

/-- What goes behind a list is not found where it is not looked for. -/
theorem find?_append_of_not {α : Type} {p : α → Bool} {x : α} (xs : List α) (h : p x = false) :
    (xs ++ [x]).find? p = xs.find? p := by
  simp [List.find?_append, h]

/-- Signatures of other names make no difference. -/
theorem Signature.find?_append_of_ne {s : Signature} {name : String} (signatures : List Signature)
    (h : s.name ≠ name) (argc : Nat) :
    find? (signatures ++ [s]) name argc = find? signatures name argc :=
  find?_append_of_not signatures (by simp [h])

namespace Environment

/-- Something more that a host predefines. -/
inductive Addition where
  | constant (name : String) (value : Constant)
  | systemMacro (name : String) (code : List Instruction)
  | globalFunction (f : HostFunction)
  | builtin (s : Signature)
  | preprocessed (s : Signature)
  | template (t : Template)
  | directive (name : String)

namespace Addition

def name : Addition → String
  | constant name _ => name
  | systemMacro name _ => name
  | globalFunction f => f.name
  | builtin s => s.name
  | preprocessed s => s.name
  | template t => t.name
  | directive name => name

end Addition

def add (env : Environment) : Addition → Environment
  | .constant name value => env.addConstant name value
  | .systemMacro name code => env.addSystemMacro name code
  | .globalFunction f => env.addGlobalFunction f
  | .builtin s => env.addBuiltin s
  | .preprocessed s => env.addMacro s
  | .template t => env.addTemplate t
  | .directive name => env.addDirective name

/-- The host with all of the additions, made one after the other. -/
def extend (env : Environment) (additions : List Addition) : Environment := additions.foldl add env

variable {name : String}

/-- An addition has a say about its own name only. -/
theorem agreesOn_add (env : Environment) {a : Addition} (other : a.name ≠ name) :
    env.AgreesOn (env.add a) name := by
  have same := AgreesOn.refl env name
  cases a with
  | constant added value =>
      have kept : (env.addConstant added value).constant? name = env.constant? name :=
        (env.constants.find?_insert added name value).trans (if_neg other)
      exact { same with constant := kept }
  | systemMacro added code =>
      have kept : (env.addSystemMacro added code).systemMacro? name = env.systemMacro? name :=
        (env.systemMacros.find?_insert added name code).trans (if_neg other)
      exact { same with systemMacro := kept }
  | globalFunction f =>
      have kept : (env.addGlobalFunction f).globalFunction? name = env.globalFunction? name :=
        find?_append_of_not env.globalFunctions (beq_false_of_ne other)
      exact { same with globalFunction := kept }
  | builtin s => exact { same with builtin := Signature.find?_append_of_ne env.builtins other }
  | preprocessed s =>
      exact { same with macroSignature := Signature.find?_append_of_ne env.macros other }
  | template t =>
      have kept : (env.addTemplate t).template? name = env.template? name :=
        find?_append_of_not env.templates (beq_false_of_ne other)
      exact { same with template := kept }
  | directive added =>
      have apart : name ≠ added := Ne.symm other
      have kept : (env.addDirective added).directive? name = env.directive? name := by
        simp [directive?, addDirective, apart]
      exact { same with directive := kept }

/-- A host agrees with its extension on all names that nothing was added for. -/
theorem agreesOn_extend (env : Environment) {additions : List Addition}
    (others : ∀ a ∈ additions, a.name ≠ name) : env.AgreesOn (env.extend additions) name := by
  induction additions generalizing env with
  | nil => exact .refl env name
  | cons a additions ih =>
      rw [List.forall_mem_cons] at others
      exact (env.agreesOn_add others.1).trans (ih (env.add a) others.2)

end Environment

/-! ## main result -/

/-- A script compiles alike, to the same program or the same error, for all hosts that agree on the
names that it mentions; and any other names that a host may have more do not matter. -/
theorem compile_depends_on_mentioned_names {env : Environment} (plain : env.hostDirectives = [])
    (options : Options) (text : String) :
    (∀ env' : Environment, (∀ name ∈ mentioned env options text, env.AgreesOn env' name) →
      compile env' options text = compile env options text) ∧
    ∀ additions : List Environment.Addition,
      (∀ a ∈ additions, a.name ∉ mentioned env options text) →
        compile (env.extend additions) options text = compile env options text := by
  constructor
  · intro env' agree
    exact compile_eq_of_agreesOn plain agree
  · intro additions strange
    apply compile_eq_of_agreesOn plain
    intro name member
    apply env.agreesOn_extend
    intro a added same
    exact strange a added (same ▸ member)

/-- A host with a builtin and a system macro that calls it. -/
def gaugeHost : Environment where
  systemMacros := .ofList [("top", [.pushNumber .one, .pushNumber .zero, .call "max" 2])]
  builtins := [⟨"max", 2⟩]

def gaugeScript : String := "level = share(top); function share(a) \x7b return a / 2 \x7d"

/-- One addition of each sort. -/
def gaugeAdditions : List Environment.Addition :=
  [.constant "limit" (.number .one), .systemMacro "now" [.call "clock" 0],
    .globalFunction { name := "print" }, .builtin ⟨"min", 2⟩, .preprocessed ⟨"trace", 1⟩,
    .template { name := "Point" }, .directive "strict"]

/-- The script does not see any of the additions, nor that hosts disagree on a constant that it does
not read.  It mentions `max` through the system macro, and a host function with the name of its own
function is in its way. -/
theorem compile_depends_on_mentioned_names_gauge :
    mentioned gaugeHost {} gaugeScript =
      ["level", "share", "top", "function", "share", "a", "return", "a", "max"] ∧
    (compile gaugeHost {} gaugeScript).isOk = true ∧
    compile (gaugeHost.extend gaugeAdditions) {} gaugeScript = compile gaugeHost {} gaugeScript ∧
    compile (gaugeHost.addConstant "limit" (.number .zero)) {} gaugeScript =
      compile (gaugeHost.addConstant "limit" (.number .one)) {} gaugeScript ∧
    (compile (gaugeHost.addGlobalFunction { name := "share" }) {} gaugeScript).isOk = false := by
  have names : mentioned gaugeHost {} gaugeScript =
      ["level", "share", "top", "function", "share", "a", "return", "a", "max"] := by decide +kernel
  have plain : gaugeHost.hostDirectives = [] := rfl
  have extended := (compile_depends_on_mentioned_names plain {} gaugeScript).2 gaugeAdditions
    (by rw [names]; decide)
  have strange : "limit" ∉
      mentioned (gaugeHost.addConstant "limit" (.number .one)) {} gaugeScript := by decide +kernel
  have agree (name : String)
      (member : name ∈ mentioned (gaugeHost.addConstant "limit" (.number .one)) {} gaugeScript) :
      (gaugeHost.addConstant "limit" (.number .one)).AgreesOn
        (gaugeHost.addConstant "limit" (.number .zero)) name := by
    have other : "limit" ≠ name := fun same => strange (same ▸ member)
    have one := gaugeHost.agreesOn_add (a := .constant "limit" (.number .one)) other
    have zero := gaugeHost.agreesOn_add (a := .constant "limit" (.number .zero)) other
    exact one.symm.trans zero
  have changed := (compile_depends_on_mentioned_names rfl {} gaugeScript).1 _ agree
  exact ⟨names, by decide +kernel, extended, changed, by decide +kernel⟩

end HostScript
