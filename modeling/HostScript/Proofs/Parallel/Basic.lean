import HostScript.Node.Parse.Statement
import HostScript.Program.Link
import HostScript.Proofs.Steps

/-!
# HostScript.Proofs.Parallel.Basic

Two compilations side by side.  They start from the same tokens, but those of the second may stand
at other places, and it may be for another host as long as both hosts say the same about the words
of the script.  `Comparison` is what such a pair of compilations has in common.

`Parallel` relates a step of the first to a step of the second: from states that are alike both
succeed, with results and states that are alike again, or both fail for the same cause.  Everything
that the second one produces is what the first one produces, moved to its place by `move`.
-/

namespace HostScript

/-! ## other places -/

namespace Location

/-- The place inside of the script. -/
def position (l : Location) : Position := ⟨l.line, l.column⟩

/-- The same script, but another line and column. -/
def move (place : Position → Position) (l : Location) : Location :=
  .ofPosition l.source (place l.position)

@[simp] theorem sourceName_move (place : Position → Position) (l : Location) :
    (l.move place).sourceName = l.sourceName := rfl

end Location

def CodeLocation.move (place : Position → Position) (l : CodeLocation) : CodeLocation :=
  ⟨l.source, (place ⟨l.line, l.column⟩).line, (place ⟨l.line, l.column⟩).column⟩

def Token.move (place : Position → Position) (t : Token) : Token := ⟨t.kind, t.location.move place⟩

def CompileError.move (place : Position → Position) (e : CompileError) : CompileError :=
  ⟨e.location.move place, e.cause⟩

def Program.move (place : Position → Position) (p : Program) : Program :=
  { p with locations := p.locations.map (·.move place) }

mutual

/-- The same tree at another place. -/
def Node.move (place : Position → Position) : Node → Node
  | .null l => .null (l.move place)
  | .number l value => .number (l.move place) value
  | .string l value => .string (l.move place) value
  | .identifier l name => .identifier (l.move place) name
  | .chain l current remaining =>
    .chain (l.move place) (current.move place) (remaining.move place)
  | .call l name arguments => .call (l.move place) name (moveAll place arguments)
  | .staticCall l template name arguments =>
    .staticCall (l.move place) template name (moveAll place arguments)
  | .unary l op operand => .unary (l.move place) op (operand.move place)
  | .binary l op left right => .binary (l.move place) op (left.move place) (right.move place)
  | .block l statements => .block (l.move place) (moveAll place statements)
  | .returns l value => .returns (l.move place) (moveOptional place value)
  | .discard l value => .discard (l.move place) (value.move place)
  | .branch l condition accepted otherwise =>
    .branch (l.move place) (condition.move place) (accepted.move place)
      (moveOptional place otherwise)
  | .switch l kind value cases fallback =>
    .switch (l.move place) kind (value.move place) (moveCases place cases)
      (moveOptional place fallback)
  | .assign l op target value => .assign (l.move place) op (target.move place) (value.move place)
  | .adjust l kind target direction => .adjust (l.move place) kind (target.move place) direction
  | .whileLoop l condition body =>
    .whileLoop (l.move place) (condition.move place) (body.move place)
  | .doLoop l body condition => .doLoop (l.move place) (body.move place) (condition.move place)
  | .forLoop l init condition post body =>
    .forLoop (l.move place) (init.move place) (condition.move place) (post.move place)
      (body.move place)
  | .leave l => .leave (l.move place)
  | .proceed l => .proceed (l.move place)
  | .label l name statement => .label (l.move place) name (statement.move place)
  | .jump l label => .jump (l.move place) label
  | .callLabel l label => .callLabel (l.move place) label
  | .back l => .back (l.move place)
  | .directive l name code statements =>
    .directive (l.move place) name code (moveAll place statements)
  | .function l id name parameters body =>
    .function (l.move place) id name parameters (body.move place)

def moveAll (place : Position → Position) : List Node → List Node
  | [] => []
  | node :: nodes => node.move place :: moveAll place nodes

def moveOptional (place : Position → Position) : Option Node → Option Node
  | none => none
  | some node => some (node.move place)

def moveCases (place : Position → Position) : List SwitchCase → List SwitchCase
  | [] => []
  | .mk value body :: cases => .mk (value.move place) (body.move place) :: moveCases place cases

end

namespace Node

variable (place : Position → Position)

/-- A node that is moved is at the moved place. -/
@[simp] theorem location_move (node : Node) :
    (node.move place).location = node.location.move place := by
  cases node <;> rw [move] <;> rfl

/-- The end of a chain moves with it. -/
theorem lastLink_move : (node : Node) → (node.move place).lastLink = node.lastLink.move place
  | .chain _ _ remaining => by rw [move, lastLink, lastLink, lastLink_move remaining]
  | .null _ | .number .. | .string .. | .identifier .. | .call .. | .staticCall .. | .unary ..
  | .binary .. | .block .. | .returns .. | .discard .. | .branch .. | .switch .. | .assign ..
  | .adjust .. | .whileLoop .. | .doLoop .. | .forLoop .. | .leave _ | .proceed _ | .label ..
  | .jump .. | .callLabel .. | .back _ | .directive .. | .function .. => by simp [move, lastLink]

end Node

/-- As many nodes are there elsewhere. -/
@[simp] theorem length_moveAll (place : Position → Position) (nodes : List Node) :
    (moveAll place nodes).length = nodes.length := by
  induction nodes with
  | nil => rfl
  | cons node nodes ih => rw [moveAll, List.length_cons, List.length_cons, ih]

/-! ## words -/

/-- Identifiers and keywords are words. -/
def TokenKind.word? : TokenKind → Option String
  | identifier name => some name
  | keyword word => some word.text
  | _ => none

mutual

/-- Everything in a tree that the host may have a meaning for is known. -/
def Node.Uses (known : String → Prop) : Node → Prop
  | .identifier _ name => known name
  | .chain _ current remaining => current.Uses known ∧ remaining.Uses known
  | .call _ name arguments => known name ∧ UsesAll known arguments
  | .staticCall _ template _ arguments => known template ∧ UsesAll known arguments
  | .unary _ _ operand => operand.Uses known
  | .binary _ _ left right => left.Uses known ∧ right.Uses known
  | .block _ statements => UsesAll known statements
  | .returns _ value => UsesOptional known value
  | .discard _ value => value.Uses known
  | .branch _ condition accepted otherwise =>
    condition.Uses known ∧ accepted.Uses known ∧ UsesOptional known otherwise
  | .switch _ _ value cases fallback =>
    value.Uses known ∧ UsesCases known cases ∧ UsesOptional known fallback
  | .assign _ _ target value => target.Uses known ∧ value.Uses known
  | .adjust _ _ target _ => target.Uses known
  | .whileLoop _ condition body => condition.Uses known ∧ body.Uses known
  | .doLoop _ body condition => body.Uses known ∧ condition.Uses known
  | .forLoop _ init condition post body =>
    init.Uses known ∧ condition.Uses known ∧ post.Uses known ∧ body.Uses known
  | .label _ _ statement => statement.Uses known
  | .directive _ _ code statements =>
    (∀ name argc, .call name argc ∈ code → known name) ∧ UsesAll known statements
  | .function _ _ _ _ body => body.Uses known
  | _ => True

def UsesAll (known : String → Prop) : List Node → Prop
  | [] => True
  | node :: nodes => node.Uses known ∧ UsesAll known nodes

def UsesOptional (known : String → Prop) : Option Node → Prop
  | none => True
  | some node => node.Uses known

def UsesCases (known : String → Prop) : List SwitchCase → Prop
  | [] => True
  | .mk value body :: cases => (value.Uses known ∧ body.Uses known) ∧ UsesCases known cases

end

/-! ## two compilations -/

namespace Environment

/-- Two hosts have the same answer to every question about a name. -/
structure AgreesOn (env env' : Environment) (name : String) : Prop where
  constant : env'.constant? name = env.constant? name
  systemMacro : env'.systemMacro? name = env.systemMacro? name
  globalFunction : env'.globalFunction? name = env.globalFunction? name
  template : env'.template? name = env.template? name
  builtin : ∀ argc, env'.builtin? name argc = env.builtin? name argc
  macroSignature : ∀ argc, env'.macroSignature? name argc = env.macroSignature? name argc
  directive : env'.directive? name = env.directive? name

namespace AgreesOn

variable {env env' env'' : Environment} {name : String}

/-- A host agrees with itself on every name. -/
theorem refl (env : Environment) (name : String) : env.AgreesOn env name :=
  ⟨rfl, rfl, rfl, rfl, fun _ => rfl, fun _ => rfl, rfl⟩

/-- To agree on a name is mutual. -/
theorem symm (h : env.AgreesOn env' name) : env'.AgreesOn env name where
  constant := h.constant.symm
  systemMacro := h.systemMacro.symm
  globalFunction := h.globalFunction.symm
  template := h.template.symm
  builtin argc := (h.builtin argc).symm
  macroSignature argc := (h.macroSignature argc).symm
  directive := h.directive.symm

/-- To agree on a name carries over. -/
theorem trans (h : env.AgreesOn env' name) (h' : env'.AgreesOn env'' name) :
    env.AgreesOn env'' name where
  constant := h'.constant.trans h.constant
  systemMacro := h'.systemMacro.trans h.systemMacro
  globalFunction := h'.globalFunction.trans h.globalFunction
  template := h'.template.trans h.template
  builtin argc := (h'.builtin argc).trans (h.builtin argc)
  macroSignature argc := (h'.macroSignature argc).trans (h.macroSignature argc)
  directive := h'.directive.trans h.directive

end AgreesOn

/-- Two hosts accept the same calls of a function that the script does not have. -/
def CallsAlike (env env' : Environment) (name : String) : Prop :=
  env'.globalFunction? name = env.globalFunction? name ∧
    ∀ argc, env'.builtin? name argc = env.builtin? name argc

/-- Hosts that agree on a name do the same for a call of it. -/
theorem AgreesOn.callsAlike {env env' : Environment} {name : String} (h : env.AgreesOn env' name) :
    env.CallsAlike env' name :=
  ⟨h.globalFunction, h.builtin⟩

end Environment

/-- Two hosts that agree on the words that are known, and on what the system macros among these
call; and where the second compilation has things. -/
structure Comparison where
  first : Environment
  second : Environment
  place : Position → Position
  known : String → Prop
  plain : first.hostDirectives = []
  agree : ∀ name, known name → first.AgreesOn second name
  expansions : ∀ name code, known name → first.systemMacro? name = some code →
    ∀ callee argc, .call callee argc ∈ code → first.CallsAlike second callee

namespace Comparison

/-- The second token is the first one at its place. -/
def Words (c : Comparison) (t t' : Token) : Prop :=
  (∀ word, t.kind.word? = some word → c.known word) ∧ t' = t.move c.place

/-- The second tree is the first one at its place. -/
def Trees (c : Comparison) (node node' : Node) : Prop :=
  node.Uses c.known ∧ node' = node.move c.place

/-- Names that both compilations know mean the same in calls. -/
theorem callsAlike (c : Comparison) {name : String} (known : c.known name) :
    c.first.CallsAlike c.second name :=
  (c.agree name known).callsAlike

end Comparison

/-! ## steps -/

section parallel

variable {σ τ α β γ δ : Type} {place : Position → Position} {alike : σ → τ → Prop}

/-- Both runs succeed with results and states that are alike, or both fail for the same cause. -/
inductive Outcomes (place : Position → Position) (alike : σ → τ → Prop) (post : α → β → Prop) :
    EStateM.Result CompileError σ α → EStateM.Result CompileError τ β → Prop
  | ok {a : α} {b : β} {s : σ} {t : τ} (result : post a b) (state : alike s t) :
    Outcomes place alike post (.ok a s) (.ok b t)
  | error {e : CompileError} {s : σ} {t : τ} :
    Outcomes place alike post (.error e s) (.error (e.move place) t)

/-- From states that are alike, the outcomes are alike. -/
def Parallel (place : Position → Position) (alike : σ → τ → Prop) (post : α → β → Prop)
    (x : EStateM CompileError σ α) (y : EStateM CompileError τ β) : Prop :=
  ∀ s t, alike s t → Outcomes place alike post (x s) (y t)

namespace Parallel

variable {x : EStateM CompileError σ α} {y : EStateM CompileError τ β} {post : α → β → Prop}
  {post' : γ → δ → Prop}

/-- Two sequences run side by side if their first parts do and lead to where their second parts
do. -/
theorem bind {f : α → EStateM CompileError σ γ} {g : β → EStateM CompileError τ δ}
    (h : Parallel place alike post x y)
    (rest : ∀ a b, post a b → Parallel place alike post' (f a) (g b)) :
    Parallel place alike post' (x >>= f) (y >>= g) := by
  intro s t start
  have first := h s t start
  generalize run : x s = result at first
  generalize run' : y t = result' at first
  cases first with
  | @ok a b s' t' result state =>
      rw [bind_of_ok run, bind_of_ok run']
      exact rest a b result s' t' state
  | error =>
      rw [bind_of_error run, bind_of_error run']
      exact .error

/-- Steps with equal results. -/
theorem bindEq {y : EStateM CompileError τ α} {f : α → EStateM CompileError σ γ}
    {g : α → EStateM CompileError τ δ} (h : Parallel place alike Eq x y)
    (rest : ∀ a, Parallel place alike post' (f a) (g a)) :
    Parallel place alike post' (x >>= f) (y >>= g) :=
  h.bind fun a _ same => same ▸ rest a

/-- Two values that are returned are as they should be. -/
theorem pure {a : α} {b : β} (h : post a b) :
    Parallel place alike post (pure a) (pure b) := fun _ _ state => .ok h state

/-- Two failures are the same but for their place. -/
theorem throw (e : CompileError) :
    Parallel place alike post (throw e) (throw (e.move place)) := fun _ _ _ => .error

/-- Two changes keep states alike. -/
theorem modify {f : σ → σ} {g : τ → τ} (h : ∀ s t, alike s t → alike (f s) (g t)) :
    Parallel place alike Eq (modify f : EStateM CompileError σ PUnit) (modify g) :=
  fun s t state => .ok rfl (h s t state)

theorem get : Parallel place alike alike (get : EStateM CompileError σ σ) get :=
  fun _ _ state => .ok state state

end Parallel

end parallel

end HostScript
