import HostScript.Proofs.Grammar

/-!
# HostScript.Proofs.Unparse

Writing syntax trees back into tokens.  `Node.unparse` puts every operand, target, condition,
argument and case value in parentheses and a semicolon behind every statement, so that nothing
depends on precedence or on what a reader would take for the end of a statement.

Two trees are alike when they are the same but for the locations of their nodes.  `Node.bare`
takes the locations away, and gives functions other ids on the way.
-/

namespace HostScript

/-! ## tokens of a tree -/

/-- Tokens in parentheses. -/
def enclosed (kinds : List TokenKind) : List TokenKind := .parenOpen :: (kinds ++ [.parenClose])

@[simp] theorem enclosed_append (kinds rest : List TokenKind) :
    enclosed kinds ++ rest = .parenOpen :: (kinds ++ .parenClose :: rest) := by
  simp [enclosed]

@[simp] theorem length_enclosed (kinds : List TokenKind) :
    (enclosed kinds).length = kinds.length + 2 := by
  simp [enclosed]

/-- Tokens in parentheses, with commas between the items. -/
def listed (items : List (List TokenKind)) : List TokenKind :=
  enclosed (List.intercalate [.comma] items)

/-- A list in parentheses, and what follows it. -/
theorem listed_append (items : List (List TokenKind)) (rest : List TokenKind) :
    listed items ++ rest =
      .parenOpen :: (List.intercalate [.comma] items ++ .parenClose :: rest) :=
  enclosed_append _ rest

/-- The minus sign is a token for two operators. -/
def UnaryOperator.token : UnaryOperator → TokenKind
  | negate => .operator .sub
  | not => .unary .not

def SwitchKind.keyword : SwitchKind → Keyword
  | switch => .switchKw
  | select => .selectKw

/-- The token that a word is read as. -/
def TokenKind.ofWord (word : String) : TokenKind :=
  match Keyword.ofText? word with
  | some reserved => .keyword reserved
  | none => .identifier word

mutual

/-- The tokens of an expression, or those of a statement up to the semicolon behind it. -/
def Node.unparse : Node → List TokenKind
  | .null _ => [.keyword .nullKw]
  | .number _ value => [.number value]
  | .string _ value => [.string value]
  | .identifier _ name => [.identifier name]
  | .chain _ current remaining => current.unparse ++ .period :: remaining.unparse
  | .call _ name arguments => .identifier name :: listed (unparseEach arguments)
  | .staticCall _ template name arguments =>
    (if name = Template.constructor then [.keyword .newKw, .identifier template]
      else [.identifier template, .period, .identifier name]) ++ listed (unparseEach arguments)
  | .unary _ op operand => op.token :: enclosed operand.unparse
  | .binary _ op left right => enclosed left.unparse ++ .operator op :: enclosed right.unparse
  | .block _ statements => .braceOpen :: (unparseAll statements ++ [.braceClose])
  | .returns _ value => .keyword .returnKw :: unparseOptional value
  | .discard _ value => value.unparse
  | .branch _ condition accepted otherwise =>
    .keyword .ifKw ::
      (enclosed condition.unparse ++ accepted.unparse ++ .semicolon :: unparseElse otherwise)
  | .switch _ kind value cases fallback =>
    .keyword kind.keyword :: (value.unparse ++ .braceOpen ::
      (unparseCases cases ++ unparseFallback fallback ++ [.braceClose]))
  | .assign _ op target value => enclosed target.unparse ++ .set op :: value.unparse
  | .adjust _ .before target direction => .adjust direction :: enclosed target.unparse
  | .adjust _ .after target direction => enclosed target.unparse ++ [.adjust direction]
  | .adjust _ .statement target direction => enclosed target.unparse ++ [.adjust direction]
  | .whileLoop _ condition body =>
    .keyword .whileKw :: (enclosed condition.unparse ++ body.unparse ++ [.semicolon])
  | .doLoop _ body condition =>
    .keyword .doKw ::
      (body.unparse ++ .semicolon :: .keyword .whileKw :: enclosed condition.unparse)
  | .forLoop _ init condition post body =>
    .keyword .forKw :: .parenOpen :: (init.unparse ++ .semicolon ::
      (enclosed condition.unparse ++ .semicolon :: (post.unparse ++ .semicolon :: .parenClose ::
        (body.unparse ++ [.semicolon]))))
  | .leave _ => [.keyword .breakKw]
  | .proceed _ => [.keyword .continueKw]
  | .label _ name statement =>
    .keyword .labelKw :: .string name :: .colon :: (statement.unparse ++ [.semicolon])
  | .jump _ label => [.keyword .jumpKw, .string label]
  | .callLabel _ label => [.keyword .callKw, .string label]
  | .back _ => [.keyword .backKw]
  | .directive _ name _ _ => [.pound, .ofWord name]
  | .function _ _ name parameters body =>
    .keyword .functionKw :: .identifier name ::
      (listed (parameters.map ([.identifier ·])) ++ body.unparse ++ [.semicolon])

/-- The arguments of a call, each in parentheses. -/
def unparseEach : List Node → List (List TokenKind)
  | [] => []
  | node :: nodes => enclosed node.unparse :: unparseEach nodes

/-- Statements one after the other. -/
def unparseAll : List Node → List TokenKind
  | [] => []
  | node :: nodes => node.unparse ++ .semicolon :: unparseAll nodes

def unparseOptional : Option Node → List TokenKind
  | none => []
  | some node => node.unparse

def unparseElse : Option Node → List TokenKind
  | none => []
  | some node => .keyword .elseKw :: (node.unparse ++ [.semicolon])

def unparseCases : List SwitchCase → List TokenKind
  | [] => []
  | .mk value body :: cases =>
    .keyword .caseKw ::
      (enclosed value.unparse ++ .colon :: (body.unparseBody ++ unparseCases cases))

/-- The default, which stands behind all cases. -/
def unparseFallback : Option Node → List TokenKind
  | none => []
  | some body => .keyword .defaultKw :: .colon :: body.unparseBody

/-- The statements of a block without its braces: the body of a case, or a whole script. -/
def Node.unparseBody : Node → List TokenKind
  | .block _ statements => unparseAll statements
  | _ => []

end

/-! ## first tokens -/

/-- Whether a token is the first one of some statement. -/
def TokenKind.begins : TokenKind → Bool
  | .parenOpen | .identifier _ | .braceOpen | .pound => true
  | .keyword word => word ∉ [.elseKw, .caseKw, .defaultKw]
  | _ => false

def Begins (kinds : List TokenKind) : Prop := ∃ k rest, kinds = k :: rest ∧ k.begins = true

/-- What begins with a token still does so when more follows. -/
theorem Begins.append {kinds : List TokenKind} (h : Begins kinds) (rest : List TokenKind) :
    Begins (kinds ++ rest) := by
  obtain ⟨k, more, rfl, begins⟩ := h
  exact ⟨k, more ++ rest, rfl, begins⟩

/-- The start of a chain begins with a name or with `new`. -/
theorem Grammar.Head.begins {env : Environment} {node : Node} (h : Grammar.Head env node) :
    ∃ k rest, node.unparse = k :: rest ∧
      ((∃ name, k = .identifier name) ∨ k = .keyword .newKw) := by
  cases node with
  | identifier _ name => exact ⟨_, _, rfl, .inl ⟨name, rfl⟩⟩
  | call _ name => exact ⟨_, _, rfl, .inl ⟨name, rfl⟩⟩
  | staticCall _ template name =>
      rw [Node.unparse]
      split
      · exact ⟨_, _, rfl, .inr rfl⟩
      · exact ⟨_, _, rfl, .inl ⟨template, rfl⟩⟩
  | _ => cases h

/-- So does an expression that is a statement. -/
theorem Grammar.Effect.begins {env : Environment} {node : Node} (effect : Grammar.Effect node)
    (h : Grammar.Expression env node) :
    ∃ k rest, node.unparse = k :: rest ∧
      ((∃ name, k = .identifier name) ∨ k = .keyword .newKw) := by
  have alone (head : Grammar.Head env node) := head.begins
  cases node with
  | call | staticCall => exact alone trivial
  | chain _ current remaining =>
      obtain ⟨k, rest, written, starts⟩ := h.1.begins
      exact ⟨k, rest ++ .period :: remaining.unparse, by rw [Node.unparse, written]; rfl, starts⟩
  | _ => cases effect

/-- Whether a token is the first one of some expression. -/
def TokenKind.opens : TokenKind → Bool
  | .keyword .nullKw | .keyword .newKw | .number _ | .string _ | .identifier _ | .parenOpen
  | .operator _ | .unary _ | .adjust _ => true
  | _ => false

/-- An expression is written with a token first that opens an expression. -/
theorem Grammar.Expression.opens {env : Environment} {node : Node}
    (h : Grammar.Expression env node) :
    ∃ k rest, node.unparse = k :: rest ∧ k.opens = true := by
  have called (effect : Grammar.Effect node) :
      ∃ k rest, node.unparse = k :: rest ∧ k.opens = true := by
    obtain ⟨k, rest, written, ⟨name, rfl⟩ | rfl⟩ := effect.begins h
    · exact ⟨_, rest, written, rfl⟩
    · exact ⟨_, rest, written, rfl⟩
  cases node with
  | null | number | string | identifier | binary => exact ⟨_, _, rfl, rfl⟩
  | call | staticCall | chain => exact called trivial
  | unary _ op operand => cases op <;> exact ⟨_, _, rfl, rfl⟩
  | adjust _ kind target direction => cases kind <;> exact ⟨_, _, rfl, rfl⟩
  | _ => cases h

/-! ## trees without locations -/

mutual

/-- A tree without its locations, in which the function with the id `i` has the id `number i`. -/
def Node.bare (number : Nat → Nat) : Node → Node
  | .null _ => .null default
  | .number _ value => .number default value
  | .string _ value => .string default value
  | .identifier _ name => .identifier default name
  | .chain _ current remaining => .chain default (current.bare number) (remaining.bare number)
  | .call _ name arguments => .call default name (bareAll number arguments)
  | .staticCall _ template name arguments =>
    .staticCall default template name (bareAll number arguments)
  | .unary _ op operand => .unary default op (operand.bare number)
  | .binary _ op left right => .binary default op (left.bare number) (right.bare number)
  | .block _ statements => .block default (bareAll number statements)
  | .returns _ value => .returns default (bareOptional number value)
  | .discard _ value => .discard default (value.bare number)
  | .branch _ condition accepted otherwise =>
    .branch default (condition.bare number) (accepted.bare number) (bareOptional number otherwise)
  | .switch _ kind value cases fallback =>
    .switch default kind (value.bare number) (bareCases number cases)
      (bareOptional number fallback)
  | .assign _ op target value => .assign default op (target.bare number) (value.bare number)
  | .adjust _ kind target direction => .adjust default kind (target.bare number) direction
  | .whileLoop _ condition body => .whileLoop default (condition.bare number) (body.bare number)
  | .doLoop _ body condition => .doLoop default (body.bare number) (condition.bare number)
  | .forLoop _ init condition post body =>
    .forLoop default (init.bare number) (condition.bare number) (post.bare number)
      (body.bare number)
  | .leave _ => .leave default
  | .proceed _ => .proceed default
  | .label _ name statement => .label default name (statement.bare number)
  | .jump _ label => .jump default label
  | .callLabel _ label => .callLabel default label
  | .back _ => .back default
  | .directive _ name code statements => .directive default name code (bareAll number statements)
  | .function _ id name parameters body =>
    .function default (number id) name parameters (body.bare number)

def bareAll (number : Nat → Nat) : List Node → List Node
  | [] => []
  | node :: nodes => node.bare number :: bareAll number nodes

def bareOptional (number : Nat → Nat) : Option Node → Option Node
  | none => none
  | some node => some (node.bare number)

def bareCases (number : Nat → Nat) : List SwitchCase → List SwitchCase
  | [] => []
  | .mk value body :: cases => .mk (value.bare number) (body.bare number) :: bareCases number cases

end

/-- There are as many nodes without their places. -/
theorem length_bareAll (number : Nat → Nat) (nodes : List Node) :
    (bareAll number nodes).length = nodes.length := by
  induction nodes with
  | nil => rfl
  | cons node nodes ih => rw [bareAll, List.length_cons, List.length_cons, ih]

mutual

/-- Functions stay in their places and get the ids that they are given. -/
theorem definitions_bare (number : Nat → Nat) : (node : Node) →
    (node.bare number).definitions.map (·.id) = node.definitions.map (fun d => number d.id)
  | .block _ statements => definitionsOf_bareAll number statements
  | .branch _ _ accepted otherwise => by
    simp only [Node.bare, Node.definitions, List.map_append, definitions_bare number accepted,
      definitionsOfOptional_bare number otherwise]
  | .switch _ _ _ cases fallback => by
    simp only [Node.bare, Node.definitions, List.map_append, definitionsOfCases_bare number cases,
      definitionsOfOptional_bare number fallback]
  | .whileLoop _ _ body => definitions_bare number body
  | .doLoop _ body _ => definitions_bare number body
  | .forLoop _ init _ post body => by
    simp only [Node.bare, Node.definitions, List.map_append, definitions_bare number init,
      definitions_bare number post, definitions_bare number body]
  | .label _ _ statement => definitions_bare number statement
  | .directive _ _ _ statements => definitionsOf_bareAll number statements
  | .function _ id _ _ body => by
    simp only [Node.bare, Node.definitions, List.map_append, definitions_bare number body,
      List.map_cons, List.map_nil]
  | .null _ | .number .. | .string .. | .identifier .. | .chain .. | .call .. | .staticCall ..
  | .unary .. | .binary .. | .returns .. | .discard .. | .assign .. | .adjust .. | .leave _
  | .proceed _ | .jump .. | .callLabel .. | .back _ => rfl

/-- The definitions of a list without places are those of the list. -/
theorem definitionsOf_bareAll (number : Nat → Nat) : (nodes : List Node) →
    (definitionsOf (bareAll number nodes)).map (·.id) =
      (definitionsOf nodes).map (fun d => number d.id)
  | [] => rfl
  | node :: nodes => by
    simp only [bareAll, definitionsOf, List.map_append, definitions_bare number node,
      definitionsOf_bareAll number nodes]

theorem definitionsOfOptional_bare (number : Nat → Nat) : (node : Option Node) →
    (definitionsOfOptional (bareOptional number node)).map (·.id) =
      (definitionsOfOptional node).map (fun d => number d.id)
  | none => rfl
  | some node => definitions_bare number node

theorem definitionsOfCases_bare (number : Nat → Nat) : (cases : List SwitchCase) →
    (definitionsOfCases (bareCases number cases)).map (·.id) =
      (definitionsOfCases cases).map (fun d => number d.id)
  | [] => rfl
  | .mk _ body :: cases => by
    simp only [bareCases, definitionsOfCases, List.map_append, definitions_bare number body,
      definitionsOfCases_bare number cases]

end

end HostScript
