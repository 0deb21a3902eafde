import HostScript.Proofs.Definitions

/-!
# HostScript.Proofs.Occurrences

What a script must be like for code to be generated from it.  `Node.occurrences` lists all nodes of
a tree, each with the little that its place says about it: whether it is a link of a chain, and
whose parameters it can see.  `Acceptable` puts the conditions on them together.  Nothing here
speaks of code generation.
-/

namespace HostScript

/-- A node of a tree and what its place says about it. -/
structure Occurrence where
  node : Node
  /-- Whether it stands behind a point of a chain. -/
  isLink : Bool
  /-- The parameters of the function around it, or the arguments of the script itself. -/
  parameters : List String

mutual

/-- A node and all nodes inside of it. -/
def Node.occurrences (parameters : List String) (node : Node) : List Occurrence :=
  ⟨node, false, parameters⟩ :: match node with
    | .chain _ current remaining =>
      current.occurrences parameters ++ remaining.occurrencesOfLinks parameters
    | .call _ _ arguments => occurrencesOfAll parameters arguments
    | .staticCall _ _ _ arguments => occurrencesOfAll parameters arguments
    | .unary _ _ operand => operand.occurrences parameters
    | .binary _ _ left right => left.occurrences parameters ++ right.occurrences parameters
    | .block _ statements => occurrencesOfAll parameters statements
    | .returns _ value => occurrencesOfOptional parameters value
    | .discard _ value => value.occurrences parameters
    | .branch _ condition accepted otherwise =>
      condition.occurrences parameters ++ accepted.occurrences parameters ++
        occurrencesOfOptional parameters otherwise
    | .switch _ _ value cases fallback =>
      value.occurrences parameters ++ occurrencesOfValues parameters cases ++
        occurrencesOfBodies parameters cases ++ occurrencesOfOptional parameters fallback
    | .assign _ _ target value => target.occurrences parameters ++ value.occurrences parameters
    | .adjust _ _ target _ => target.occurrences parameters
    | .whileLoop _ condition body =>
      condition.occurrences parameters ++ body.occurrences parameters
    | .doLoop _ body condition => body.occurrences parameters ++ condition.occurrences parameters
    | .forLoop _ init condition post body =>
      init.occurrences parameters ++ condition.occurrences parameters ++
        body.occurrences parameters ++ post.occurrences parameters
    | .label _ _ statement => statement.occurrences parameters
    | .directive _ _ _ statements => occurrencesOfAll parameters statements
    | .function _ _ _ inner body => body.occurrences inner
    | _ => []

/-- A link of a chain and all nodes inside of it. -/
def Node.occurrencesOfLink (parameters : List String) (node : Node) : List Occurrence :=
  ⟨node, true, parameters⟩ :: match node with
    | .call _ _ arguments => occurrencesOfAll parameters arguments
    | _ => []

/-- The links of a chain behind its first point. -/
def Node.occurrencesOfLinks (parameters : List String) : Node → List Occurrence
  | .chain _ current remaining =>
    current.occurrencesOfLink parameters ++ remaining.occurrencesOfLinks parameters
  | .call location name arguments =>
    ⟨.call location name arguments, true, parameters⟩ :: occurrencesOfAll parameters arguments
  | last => [⟨last, true, parameters⟩]

def occurrencesOfAll (parameters : List String) : List Node → List Occurrence
  | [] => []
  | node :: nodes => node.occurrences parameters ++ occurrencesOfAll parameters nodes

def occurrencesOfOptional (parameters : List String) : Option Node → List Occurrence
  | none => []
  | some node => node.occurrences parameters

def occurrencesOfValues (parameters : List String) : List SwitchCase → List Occurrence
  | [] => []
  | .mk value _ :: cases => value.occurrences parameters ++ occurrencesOfValues parameters cases

def occurrencesOfBodies (parameters : List String) : List SwitchCase → List Occurrence
  | [] => []
  | .mk _ body :: cases => body.occurrences parameters ++ occurrencesOfBodies parameters cases

end

/-! ## conditions on single nodes -/

/-- What can be assigned to: a name that stands for a variable, or a chain that ends in a field. -/
def Assignable (env : Environment) (parameters : List String) : Node → Prop
  | .identifier _ name =>
    env.constant? name = none ∧ env.systemMacro? name = none ∧ name ∉ parameters
  | .chain _ _ remaining => ∃ location name, remaining.lastLink = .identifier location name
  | _ => False

def Node.IsChain : Node → Prop
  | .chain .. => True
  | _ => False

/-- A template of the host has a static function that takes so many arguments. -/
def Environment.HasStatic (env : Environment) (template name : String) (argc : Nat) : Prop :=
  ∃ t, env.template? template = some t ∧ (t.staticFunction? name argc).isSome

namespace Occurrence

/-- What a node has to fulfil, wherever it stands. -/
def Valid (env : Environment) (o : Occurrence) : Prop :=
  match o.node with
  | .assign _ _ target _ => Assignable env o.parameters target
  | .adjust _ kind target _ =>
    Assignable env o.parameters target ∧ (kind ≠ .statement → ¬ target.IsChain)
  | .staticCall _ template name arguments => env.HasStatic template name arguments.length
  | _ => True

/-- The label that a node declares. -/
def label? (o : Occurrence) : Option String :=
  match o.node with
  | .label _ name _ => some name
  | _ => none

/-- The label that a node jumps to. -/
def wanted? (o : Occurrence) : Option String :=
  match o.node with
  | .jump _ name | .callLabel _ name => some name
  | _ => none

end Occurrence

/-! ## calls -/

/-- The function that an instruction calls by its name. -/
def Instruction.callee? : Instruction → Option Signature
  | .call name argc => some ⟨name, argc⟩
  | _ => none

/-- The instructions that a read of a name expands to, unless it is no system macro. -/
def Environment.expansion (env : Environment) (name : String) : List Instruction :=
  match env.constant? name, env.systemMacro? name with
  | none, some code => code
  | _, _ => []

/-- The functions that a node calls by their names: itself, or in the expansion of a system macro
that it reads.  Links of chains are no such calls, they go to the functions of an object. -/
def Occurrence.calls (env : Environment) (o : Occurrence) : List Signature :=
  match o.isLink, o.node with
  | false, .call _ name arguments => [⟨name, arguments.length⟩]
  | false, .identifier _ name => (env.expansion name).filterMap (·.callee?)
  | _, _ => []

/-- There is a function for a call: one of the script, wherever it is defined, the first one of the
host with its name if it takes so many arguments, or a builtin. -/
def Resolved (env : Environment) (root : Node) (call : Signature) : Prop :=
  (∃ d ∈ root.definitions, d.signature = call) ∨
    (∃ f, env.globalFunction? call.name = some f ∧ f.accepts call.argc) ∨
    (env.builtin? call.name call.argc).isSome

/-! ## conditions on the whole -/

/-- All labels that are declared. -/
def labelsOf (os : List Occurrence) : List String := os.filterMap (·.label?)

/-- All labels that are jumped to. -/
def wantedOf (os : List Occurrence) : List String := os.filterMap (·.wanted?)

/-- All functions that are called by their names. -/
def callsOf (env : Environment) (os : List Occurrence) : List Signature := os.flatMap (·.calls env)

/-- A script that code can be generated from: every node is in order, no label is declared twice,
and there is a label for every jump and a function for every call. -/
structure Acceptable (env : Environment) (parameters : List String) (root : Node) : Prop where
  valid : ∀ o ∈ root.occurrences parameters, o.Valid env
  distinct : (labelsOf (root.occurrences parameters)).Nodup
  declared : ∀ name ∈ wantedOf (root.occurrences parameters),
    name ∈ labelsOf (root.occurrences parameters)
  resolved : ∀ call ∈ callsOf env (root.occurrences parameters), Resolved env root call

end HostScript
