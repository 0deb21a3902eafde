import HostScript.Node.Parse.Statement

/-!
# HostScript.Proofs.Tree

The syntax trees that a script can turn into.  `Node` has one type for expressions, statements and
the links of chains; the predicates here say which node may stand where.  `IsStatement` also follows
where `break` and `continue` are allowed, and that functions carry the number of one that is
registered.
-/

namespace HostScript

mutual

def IsExpression : Node → Prop
  | .null _ | .number .. | .string .. | .identifier .. => True
  | .chain _ current remaining => IsExpression current ∧ AreLinks remaining
  | .call _ _ arguments => AreExpressions arguments
  | .staticCall _ _ _ arguments => AreExpressions arguments
  | .unary _ _ operand => IsExpression operand
  | .binary _ _ left right => IsExpression left ∧ IsExpression right
  | .adjust _ kind target _ => kind ≠ .statement ∧ IsExpression target
  | _ => False

def AreExpressions : List Node → Prop
  | [] => True
  | node :: nodes => IsExpression node ∧ AreExpressions nodes

/-- A field or an instance call. -/
def IsLink : Node → Prop
  | .identifier .. => True
  | .call _ _ arguments => AreExpressions arguments
  | _ => False

/-- The links of a chain behind its first point. -/
def AreLinks : Node → Prop
  | .chain _ current remaining => IsLink current ∧ AreLinks remaining
  | .identifier .. => True
  | .call _ _ arguments => AreExpressions arguments
  | _ => False

end

mutual

/-- A statement at a place where `allowed` says what it may do, in a script with so many
functions. -/
def IsStatement (functions : Nat) (allowed : Allowed) : Node → Prop
  | .block _ statements => AreStatements functions allowed statements
  | .returns _ none => True
  | .returns _ (some value) => IsExpression value
  | .discard _ value => IsExpression value
  | .branch _ condition accepted otherwise =>
    IsExpression condition ∧ IsStatement functions allowed accepted ∧
      IsOptional functions allowed otherwise
  | .switch _ kind value cases fallback =>
    IsExpression value ∧ AreCases functions (allowed.cases kind) cases ∧
      IsOptional functions (allowed.cases kind) fallback
  | .assign _ _ target value => IsExpression target ∧ IsExpression value
  | .adjust _ kind target _ => kind = .statement ∧ IsExpression target
  | .whileLoop _ condition body => IsExpression condition ∧ IsStatement functions .loopBody body
  | .doLoop _ body condition => IsStatement functions .loopBody body ∧ IsExpression condition
  | .forLoop _ init condition post body =>
    IsStatement functions allowed init ∧ IsExpression condition ∧
      IsStatement functions .loopPost post ∧ IsStatement functions .loopBody body
  | .leave _ => allowed.leave = true
  | .proceed _ => allowed.proceed = true
  | .label _ _ statement => IsStatement functions allowed statement
  | .jump .. | .callLabel .. | .back _ => True
  | .directive _ _ code statements => code = [] ∧ statements = []
  | .function _ id _ _ body => id < functions ∧ IsStatement functions .nowhere body
  | _ => False

def AreStatements (functions : Nat) (allowed : Allowed) : List Node → Prop
  | [] => True
  | node :: nodes => IsStatement functions allowed node ∧ AreStatements functions allowed nodes

def IsOptional (functions : Nat) (allowed : Allowed) : Option Node → Prop
  | none => True
  | some node => IsStatement functions allowed node

def AreCases (functions : Nat) (allowed : Allowed) : List SwitchCase → Prop
  | [] => True
  | .mk value body :: cases =>
    IsExpression value ∧ IsStatement functions allowed body ∧ AreCases functions allowed cases

end

/-! ## more functions

Functions that are registered later do no harm. -/

variable {m n : Nat}

mutual

theorem IsStatement.mono (le : m ≤ n) {allowed : Allowed} : (node : Node) →
    IsStatement m allowed node → IsStatement n allowed node
  | .block _ statements, h => AreStatements.mono le statements h
  | .branch _ _ accepted otherwise, h =>
    ⟨h.1, IsStatement.mono le accepted h.2.1, IsOptional.mono le otherwise h.2.2⟩
  | .switch _ _ _ cases fallback, h =>
    ⟨h.1, AreCases.mono le cases h.2.1, IsOptional.mono le fallback h.2.2⟩
  | .whileLoop _ _ body, h => ⟨h.1, IsStatement.mono le body h.2⟩
  | .doLoop _ body _, h => ⟨IsStatement.mono le body h.1, h.2⟩
  | .forLoop _ init _ post body, h =>
    ⟨IsStatement.mono le init h.1, h.2.1, IsStatement.mono le post h.2.2.1,
      IsStatement.mono le body h.2.2.2⟩
  | .label _ _ statement, h => IsStatement.mono le statement h
  | .function _ _ _ _ body, h => ⟨Nat.lt_of_lt_of_le h.1 le, IsStatement.mono le body h.2⟩
  | .returns _ none, h | .returns _ (some _), h | .discard .., h | .assign .., h | .adjust .., h
  | .leave _, h | .proceed _, h | .jump .., h | .callLabel .., h | .back _, h
  | .directive .., h => h

theorem AreStatements.mono (le : m ≤ n) {allowed : Allowed} : (nodes : List Node) →
    AreStatements m allowed nodes → AreStatements n allowed nodes
  | [], h => h
  | node :: nodes, h => ⟨IsStatement.mono le node h.1, AreStatements.mono le nodes h.2⟩

theorem IsOptional.mono (le : m ≤ n) {allowed : Allowed} : (node : Option Node) →
    IsOptional m allowed node → IsOptional n allowed node
  | none, h => h
  | some node, h => IsStatement.mono le node h

theorem AreCases.mono (le : m ≤ n) {allowed : Allowed} : (cases : List SwitchCase) →
    AreCases m allowed cases → AreCases n allowed cases
  | [], h => h
  | .mk _ body :: cases, h =>
    ⟨h.1, IsStatement.mono le body h.2.1, AreCases.mono le cases h.2.2⟩

end

end HostScript
