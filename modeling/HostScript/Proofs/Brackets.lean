import HostScript.Node.Parse.Statement
import HostScript.Proofs.Steps

/-!
# HostScript.Proofs.Brackets

What is allowed behind a reader.  Loops, switches and functions change where `break` and `continue`
may stand while they read their parts, and a part can fail at any depth.  `Restores x` says that
behind `x` the same is allowed as before, whether `x` succeeds or fails.

A part that says itself what is allowed in it (`within`) restores that by itself.  The cases of a
switch (`inCases`) put back no more than whether a break is allowed, and rely on what is read in
them for the rest.  All other readers are sequences of such steps.
-/

namespace HostScript.Parse

variable {α β : Type}

/-- Behind `x` the same is allowed as before it, also if it fails. -/
def Restores (x : Parse α) : Prop :=
  ∀ input state, (endState (x input) state).allowed = state.allowed

namespace Restores

/-- A sequence restores what its parts restore, also if it ends with the first of them. -/
theorem bind {x : Parse α} {f : α → Parse β} (first : Restores x) (rest : ∀ a, Restores (f a)) :
    Restores (x >>= f) := by
  intro input state
  have start := first input state
  rw [endState] at start
  show (endState (x input >>= fun a => f a input) state).allowed = _
  rw [endState_bind]
  cases run : x input state with
  | ok a state' =>
      rw [run] at start
      exact (rest a input state').trans start
  | error e state' =>
      rw [run] at start
      exact start

theorem pure (a : α) : Restores (pure a : Parse α) := fun _ _ => rfl

/-- A failure changes nothing. -/
theorem fail (l : Location) (cause : Cause) : Restores (fail l cause : Parse α) := fun _ _ => rfl

end Restores

/-! ## brackets -/

/-- A part that says what is allowed in it may do what it likes to that. -/
theorem within_restores (inner : Allowed) (x : Parse α) : Restores (within inner x) := by
  intro input state
  unfold endState within bracket
  cases x input { state with allowed := inner } with
  | ok a state' => rfl
  | error e state' => rfl

/-- Between the cases of a switch, which says whether a break is allowed, nobody may have changed
whether a continue is. -/
theorem inCases_restores (kind : SwitchKind) {x : Parse α} (h : Restores x) :
    Restores (inCases kind x) := by
  intro input state
  have inside := h input { state with allowed := state.allowed.cases kind }
  unfold endState at inside
  unfold endState inCases bracket
  -- The break is put back, and the continue is as `x` leaves it.
  cases run : x input { state with allowed := state.allowed.cases kind } with
  | ok a state' =>
      simp only [run] at inside
      simp only [inside]
      rfl
  | error e state' =>
      simp only [run] at inside
      simp only [inside]
      rfl

/-! ## tokens -/

theorem peek_restores (offset : Nat) : Restores (peek offset) := fun _ _ => rfl

theorem current_restores : Restores current := peek_restores 0

theorem get_restores : Restores (get : Parse State) := fun _ _ => rfl

theorem remaining_restores : Restores remaining := fun _ _ => rfl

theorem environment_restores : Restores environment := fun _ _ => rfl

theorem allowed_restores : Restores allowed := fun _ _ => rfl

theorem retreat_restores : Restores retreat := fun _ _ => rfl

theorem record_restores (entry : LogRecord) : Restores (record entry) := fun _ _ => rfl

/-- Moving on to the next token leaves the flags alone, at the end of the tokens as well. -/
theorem advance_restores : Restores advance := by
  intro input state
  show (if state.cursor < input.tokens.size then _ else _ : State).allowed = _
  split <;> rfl

/-- The next token is the current one and a step behind it. -/
theorem next_restores : Restores next :=
  current_restores.bind fun token => advance_restores.bind fun _ => .pure token

/-- A token is passed or not, and nothing else happens. -/
theorem accept_restores (kind : TokenKind) : Restores (accept kind) := by
  refine current_restores.bind fun token => ?_
  split
  · exact advance_restores.bind fun _ => .pure true
  · exact .pure false

/-- A token that is not the expected one is an error, but it has been read. -/
theorem expect_restores (kind : TokenKind) : Restores (expect kind) := by
  refine next_restores.bind fun token => ?_
  split
  · exact .pure token
  · exact .fail _ _

/-- Running out of fuel is reported like any other error. -/
theorem noProgress_restores : Restores (noProgress : Parse α) :=
  current_restores.bind fun _ => .fail _ _

theorem take_restores (count : Nat) : Restores (take count) := by
  induction count with
  | zero => exact .pure []
  | succ count ih => exact next_restores.bind fun _ => ih.bind fun _ => .pure _

/-- A list of items restores what each of them restores, by induction on the fuel. -/
theorem collect_restores {item : Parse (Option α)} (h : Restores item) (fuel : Nat) :
    Restores (collect item fuel) := by
  induction fuel with
  | zero => exact noProgress_restores
  | succ fuel ih =>
      refine h.bind fun found => ?_
      cases found with
      | none => exact .pure []
      | some a => exact ih.bind fun _ => .pure _

theorem many_restores {item : Parse (Option α)} (h : Restores item) : Restores (many item) :=
  remaining_restores.bind fun _ => collect_restores h _

/-! ## expressions -/

/-- An operator behind a target is one more token. -/
theorem adjusted_restores (node : Node) : Restores (adjusted node) := by
  refine current_restores.bind fun token => ?_
  cases token.kind with
  | adjust direction => exact advance_restores.bind fun _ => .pure _
  | _ => exact .pure node

section expressions

variable {nested : Bool → Parse Node} (inner : ∀ b, Restores (nested b))

include inner

/-- The arguments of a call from any of them on. -/
theorem argumentsFrom_restores (opening : Location) (fuel : Nat) :
    Restores (argumentsFrom nested opening fuel) := by
  induction fuel with
  | zero => exact noProgress_restores
  | succ fuel ih =>
      refine (inner true).bind fun argument => next_restores.bind fun separator => ?_
      cases separator.kind with
      | comma => exact ih.bind fun _ => .pure _
      | parenClose => exact .pure _
      | _ => exact .fail _ _

/-- An empty list of arguments has no argument to restore anything. -/
theorem arguments_restores : Restores (arguments nested) := by
  refine (expect_restores .parenOpen).bind fun opening =>
    (accept_restores .parenClose).bind fun closed => ?_
  cases closed with
  | true => exact .pure []
  | false => exact remaining_restores.bind fun _ => argumentsFrom_restores inner _ _

/-- A chain goes on behind each of its links, of which calls have arguments. -/
theorem chainLinks_restores (fuel : Nat) : Restores (chainLinks nested fuel) := by
  induction fuel with
  | zero => exact noProgress_restores
  | succ fuel ih =>
      refine next_restores.bind fun token => ?_
      cases token.kind with
      | identifier name =>
          have rest (link : Node) : Restores (do
              if ← accept .period then
                return .chain token.location link (← chainLinks nested fuel)
              else return link) := by
            refine (accept_restores .period).bind fun more => ?_
            cases more with
            | true => exact ih.bind fun _ => .pure _
            | false => exact .pure link
          refine current_restores.bind fun following => ?_
          split
          · exact (arguments_restores inner).bind fun _ => rest _
          · exact rest _
      | _ => exact .fail _ _

/-- A value may be the start of a chain. -/
theorem continueChain_restores (l : Location) (base : Node) :
    Restores (continueChain nested l base) := by
  refine (accept_restores .period).bind fun more => ?_
  cases more with
  | true =>
      exact remaining_restores.bind fun _ => (chainLinks_restores inner _).bind fun _ => .pure _
  | false => exact .pure base

/-- A name is a call, a static call or a variable, as the tokens behind it say. -/
theorem identifierExpression_restores (l : Location) (name : String) :
    Restores (identifierExpression nested l name) := by
  have rest (base : Node) := continueChain_restores inner l base
  refine environment_restores.bind fun env => current_restores.bind fun token =>
    (peek_restores 1).bind fun second => ?_
  cases token.kind with
  | parenOpen => exact (arguments_restores inner).bind fun _ => rest _
  | period =>
      cases env.template? name with
      | none => exact rest _
      | some template =>
          cases second.kind with
          | identifier function =>
              exact advance_restores.bind fun _ => advance_restores.bind fun _ =>
                (arguments_restores inner).bind fun _ => rest _
          | _ => exact rest _
  | _ => exact rest _

/-- The arguments of a constructor and what follows them. -/
theorem constructorCall_restores (template : Template) (l : Location) (name function : String) :
    Restores (do
      let arguments ← arguments nested
      match template.staticFunction? function arguments.length with
      | none => fail l (.noConstructor name function arguments.length)
      | some _ => continueChain nested l (.staticCall l name function arguments)) := by
  refine (arguments_restores inner).bind fun nodes => ?_
  cases template.staticFunction? function nodes.length with
  | none => exact .fail _ _
  | some _ => exact continueChain_restores inner l _

/-- A constructor has a name of its own or the usual one. -/
theorem newExpression_restores (l : Location) : Restores (newExpression nested l) := by
  refine next_restores.bind fun token => ?_
  cases token.kind with
  | identifier name =>
      refine environment_restores.bind fun env => ?_
      cases env.template? name with
      | none => exact .fail _ _
      | some template =>
          have rest := constructorCall_restores inner template l name
          refine (accept_restores .period).bind fun named => ?_
          cases named with
          | true =>
              refine next_restores.bind fun token => ?_
              cases token.kind with
              | identifier function => exact rest function
              | _ => exact Restores.bind (.fail _ _) rest
          | false => exact rest Template.constructor
  | _ => exact .fail _ _

/-- An operand by its first token. -/
theorem operand_restores : Restores (operand nested) := by
  refine next_restores.bind fun token => ?_
  cases token.kind with
  | number value | string value => exact .pure _
  | identifier name => exact identifierExpression_restores inner _ name
  | parenOpen =>
      exact (inner true).bind fun node => (expect_restores .parenClose).bind fun _ => .pure node
  | operator op =>
      cases op with
      | sub => exact (inner false).bind fun _ => .pure _
      | _ => exact .fail _ _
  | unary op => exact (inner false).bind fun _ => .pure _
  | adjust direction => exact (inner false).bind fun _ => .pure _
  | keyword word =>
      cases word with
      | nullKw => exact .pure _
      | newKw => exact newExpression_restores inner _
      | _ => exact .fail _ _
  | _ => exact .fail _ _

theorem operatorAndOperand_restores : Restores (operatorAndOperand nested) := by
  refine current_restores.bind fun token => ?_
  cases token.kind with
  | operator op => exact advance_restores.bind fun _ => (inner false).bind fun _ => .pure _
  | _ => exact .pure none

/-- What comes back from the pairs of operators and operands is a tree or an error. -/
theorem operators_restores (first : Node) : Restores (operators nested first) := by
  refine (many_restores (operatorAndOperand_restores inner)).bind fun rest => ?_
  cases Precedence.fold? Precedence.join (first, rest) with
  | some tree => exact .pure tree
  | none => exact current_restores.bind fun _ => .fail _ _

theorem expressionStep_restores (withOperators : Bool) :
    Restores (expressionStep nested withOperators) := by
  refine (operand_restores inner).bind fun node => (adjusted_restores node).bind fun node => ?_
  cases withOperators with
  | true => exact operators_restores inner node
  | false => exact .pure node

end expressions

/-- Nested expressions restore with less fuel, so all do, by induction on the fuel. -/
theorem expressionAt_restores (fuel : Nat) (withOperators : Bool) :
    Restores (expressionAt fuel withOperators) := by
  induction fuel generalizing withOperators with
  | zero => exact noProgress_restores
  | succ fuel ih => exact expressionStep_restores ih withOperators

/-- No expression changes what is allowed. -/
theorem expression_restores (withOperators : Bool) : Restores (expression withOperators) :=
  remaining_restores.bind fun _ => expressionAt_restores _ withOperators

/-! ## parts of statements -/

theorem labelName_restores : Restores labelName := by
  refine next_restores.bind fun token => ?_
  cases token.kind with
  | identifier name | string name => exact .pure _
  | _ => exact .fail _ _

/-- What stands behind a parameter: the other parameters or the end of all. -/
theorem separator_restores {others : Parse (List String)} (h : Restores others)
    (found : List String) :
    Restores (do
      let separator ← next
      match separator.kind with
      | .comma => others
      | .parenClose => return found
      | kind => fail separator.location (.unexpected .separator kind)) := by
  refine next_restores.bind fun separator => ?_
  cases separator.kind with
  | comma => exact h
  | parenClose => exact .pure _
  | _ => exact .fail _ _

/-- The parameters behind those that were found, by induction on the fuel. -/
theorem parametersFrom_restores (function : String) (fuel : Nat) (parameters : List String) :
    Restores (parametersFrom function fuel parameters) := by
  induction fuel generalizing parameters with
  | zero => exact noProgress_restores
  | succ fuel ih =>
      refine next_restores.bind fun token => ?_
      cases token.kind with
      | identifier parameter =>
          -- Whether the parameter comes twice is found out before what follows it is read.
          have more := ih (parameters ++ [parameter])
          have rest := separator_restores more (parameters ++ [parameter])
          dsimp only
          split
          · exact Restores.bind (.fail _ _) fun _ => rest
          · exact rest
      | _ => exact .fail _ _

theorem parameters_restores (function : String) : Restores (parameters function) := by
  refine (expect_restores .parenOpen).bind fun _ =>
    (accept_restores .parenClose).bind fun closed => ?_
  cases closed with
  | true => exact .pure []
  | false => exact remaining_restores.bind fun _ => parametersFrom_restores function _ _

/-- A function enters the table, which has nothing to do with the flags. -/
theorem register_restores (name : String) (parameters : List String) (l : Location) :
    Restores (register name parameters l) := by
  refine get_restores.bind fun state => environment_restores.bind fun env => ?_
  cases rival? env state.functions name parameters.length with
  | some rival => exact .fail _ _
  | none =>
      have adds : Restores (modify fun s =>
          { s with functions := state.functions.register name parameters }) := fun _ _ => rfl
      exact adds.bind fun _ => (record_restores _).bind fun _ => .pure _

/-- An expression that stands alone is a statement or it is none. -/
theorem loneExpression_restores (l : Location) (node : Node) :
    Restores (match node with
      | .adjust location _ target direction =>
        return .adjust location .statement target direction
      | .call .. | .staticCall .. | .chain .. => return .discard l node
      | other => fail other.location (.notAStatement other.kindName) : Parse Node) := by
  cases node with
  | adjust | call | staticCall | chain => exact .pure _
  | _ => exact .fail _ _

/-- An assignment has another expression behind its operator. -/
theorem expressionStatement_restores (l : Location) : Restores (expressionStatement l) := by
  refine (expression_restores false).bind fun node => current_restores.bind fun token => ?_
  cases token.kind with
  | set op =>
      exact advance_restores.bind fun _ => (expression_restores true).bind fun _ => .pure _
  | _ => exact loneExpression_restores l node

theorem returnValue_restores : Restores returnValue := by
  refine current_restores.bind fun token => ?_
  cases token.kind with
  | semicolon | braceClose | eof => exact .pure none
  | _ => exact (expression_restores true).bind fun _ => .pure _

/-! ## statements -/

section statements

variable {nested : Parse Node} (inner : Restores nested)

include inner

/-- A block ends or it has one more statement. -/
theorem blockItem_restores (opening : Location) : Restores (blockItem nested opening) := by
  refine current_restores.bind fun token => ?_
  cases token.kind with
  | braceClose => exact advance_restores.bind fun _ => .pure none
  | eof => exact .fail _ _
  | _ => exact inner.bind fun _ => .pure _

theorem block_restores (opening : Location) : Restores (block nested opening) :=
  (many_restores (blockItem_restores inner opening)).bind fun _ => .pure _

/-- A case goes on until the next one or the end of the switch. -/
theorem caseItem_restores (switch : Location) : Restores (caseItem nested switch) := by
  refine current_restores.bind fun token => ?_
  have more : Restores (return some (← nested)) := inner.bind fun _ => .pure _
  cases token.kind with
  | braceClose => exact .pure none
  | keyword word =>
      cases word with
      | caseKw | defaultKw => exact .pure none
      | _ => exact more
  | eof => exact .fail _ _
  | _ => exact more

theorem caseBody_restores (switch l : Location) : Restores (caseBody nested switch l) :=
  (many_restores (caseItem_restores inner switch)).bind fun _ => .pure _

/-- The cases of a switch are read one by one, with a second default as an error between them. -/
theorem casesFrom_restores (switch : Location) (fuel : Nat) (fallback : Option Node) :
    Restores (casesFrom nested switch fuel fallback) := by
  induction fuel generalizing fallback with
  | zero => exact noProgress_restores
  | succ fuel ih =>
      refine next_restores.bind fun token => ?_
      have body := caseBody_restores inner switch token.location
      cases token.kind with
      | keyword word =>
          cases word with
          | caseKw =>
              exact (expression_restores true).bind fun _ => (expect_restores .colon).bind fun _ =>
                body.bind fun _ => (ih fallback).bind fun _ => .pure _
          | defaultKw =>
              have rest : Restores (do
                  let _ ← expect .colon
                  let body ← caseBody nested switch token.location
                  casesFrom nested switch fuel (some body)) :=
                (expect_restores .colon).bind fun _ => body.bind fun _ => ih _
              cases fallback with
              | some _ => exact Restores.bind (.fail _ _) fun _ => rest
              | none => exact rest
          | _ => exact .fail _ _
      | braceClose => exact .pure _
      | _ => exact .fail _ _

/-- A switch restores, since its cases do and `inCases` puts the break back. -/
theorem switch_restores (l : Location) (kind : SwitchKind) : Restores (switch nested l kind) :=
  (expression_restores true).bind fun _ => (expect_restores .braceOpen).bind fun _ =>
    remaining_restores.bind fun _ =>
      (inCases_restores kind (casesFrom_restores inner l _ none)).bind fun _ => .pure _

/-- The two brackets of a for loop are those around its last part and its body. -/
theorem forLoop_restores (l : Location) : Restores (forLoop nested l) := by
  refine (accept_restores .parenOpen).bind fun parenthesized => inner.bind fun init =>
    (expression_restores true).bind fun condition => (accept_restores .semicolon).bind fun _ =>
    (within_restores .loopPost nested).bind fun post => ?_
  have body := within_restores .loopBody nested
  cases parenthesized with
  | true => exact (expect_restores .parenClose).bind fun _ => body.bind fun _ => .pure _
  | false => exact body.bind fun _ => .pure _

theorem label_restores (l : Location) : Restores (label nested l) := by
  refine labelName_restores.bind fun name => (accept_restores .colon).bind fun _ =>
    current_restores.bind fun token => ?_
  cases token.kind with
  | braceClose | eof => exact .pure _
  | _ => exact inner.bind fun _ => .pure _

/-- What a rule of the host makes of the tokens or statements behind it. -/
theorem directiveBody_restores (name : Token) (rule : DirectiveRule) :
    Restores (directiveBody nested name rule) := by
  cases rule with
  | marker => exact .pure _
  | arguments count code =>
      refine (take_restores count).bind fun tokens => ?_
      cases code tokens with
      | ok code => exact .pure _
      | error message => exact .fail _ _
  | statement copies => exact inner.bind fun _ => .pure _

/-- The rest of a directive whose name has been read. -/
theorem directiveRule_restores (l : Location) (name : String) (token : Token) :
    Restores (do
      match (← environment).directive? name with
      | none => fail token.location (.invalidDirective name)
      | some rule =>
        let (code, statements) ← directiveBody nested token rule
        record (.directive name l)
        return Node.directive l name code statements) := by
  refine environment_restores.bind fun env => ?_
  cases env.directive? name with
  | none => exact .fail _ _
  | some rule =>
      exact (directiveBody_restores inner token rule).bind fun _ =>
        (record_restores _).bind fun _ => .pure _

/-- A directive is read by the rule that its name has. -/
theorem directive_restores (l : Location) : Restores (directive nested l) := by
  refine next_restores.bind fun token => ?_
  have named := directiveRule_restores inner l token.kind.text token
  obtain ⟨kind, l₁⟩ := token
  cases kind with
  | identifier name | keyword word => exact named
  | _ => exact .fail _ _

omit inner in
/-- The body of a function is in a bracket, so nothing has to be known of it. -/
theorem function_restores (l : Location) : Restores (function nested l) := by
  refine next_restores.bind fun token => ?_
  cases token.kind with
  | identifier name =>
      refine (parameters_restores name).bind fun parameters =>
        current_restores.bind fun opening => ?_
      have rest : Restores (do
          let body ← within .nowhere nested
          let id ← register name parameters token.location
          return Node.function l id name parameters body) :=
        (within_restores .nowhere nested).bind fun _ =>
          (register_restores name parameters _).bind fun _ => .pure _
      dsimp only
      split
      · exact Restores.bind (.fail _ _) fun _ => rest
      · exact rest
  | _ => exact .fail _ _

/-- A statement by its first token.  Loops and functions have brackets around their bodies, all
others only pass on what their statements do. -/
theorem statementFrom_restores (token : Token) : Restores (statementFrom nested token) := by
  obtain ⟨kind, l⟩ := token
  -- What begins with no keyword of a statement is read again from its first token.
  have effect : Restores (do retreat; expressionStatement l) :=
    retreat_restores.bind fun _ => expressionStatement_restores l
  have body := within_restores .loopBody nested
  cases kind with
  | braceOpen => exact block_restores inner l
  | pound => exact directive_restores inner l
  | keyword word =>
      cases word with
      | returnKw => exact returnValue_restores.bind fun _ => .pure _
      | ifKw =>
          refine (expression_restores true).bind fun condition => inner.bind fun accepted =>
            (accept_restores _).bind fun more => ?_
          cases more with
          | true => exact inner.bind fun _ => .pure _
          | false => exact .pure _
      | switchKw | selectKw => exact switch_restores inner l _
      | whileKw => exact (expression_restores true).bind fun _ => body.bind fun _ => .pure _
      | doKw =>
          exact body.bind fun _ => (expect_restores _).bind fun _ =>
            (expression_restores true).bind fun _ => .pure _
      | forKw => exact forLoop_restores inner l
      | breakKw =>
          refine allowed_restores.bind fun allowed => ?_
          cases allowed.leave with
          | true => exact .pure _
          | false => exact .fail _ _
      | continueKw =>
          refine allowed_restores.bind fun allowed => ?_
          cases allowed.proceed with
          | true => exact .pure _
          | false => exact .fail _ _
      | labelKw => exact label_restores inner l
      | jumpKw | callKw => exact labelName_restores.bind fun _ => .pure _
      | backKw => exact .pure _
      | functionKw => exact function_restores l
      | _ => exact effect
  | _ => exact effect

/-- A semicolon behind a statement is one more token. -/
theorem statementStep_restores : Restores (statementStep nested) :=
  next_restores.bind fun token => (statementFrom_restores inner token).bind fun node =>
    (accept_restores .semicolon).bind fun _ => .pure node

end statements

/-- Nested statements restore with less fuel, so all do, by induction on the fuel. -/
theorem statementAt_restores (fuel : Nat) : Restores (statementAt fuel) := by
  induction fuel with
  | zero => exact noProgress_restores
  | succ fuel ih => exact statementStep_restores ih

/-- Whatever is read of a statement, what is allowed behind it is what was allowed before. -/
theorem statement_restores : Restores statement :=
  remaining_restores.bind fun _ => statementAt_restores _

end HostScript.Parse
