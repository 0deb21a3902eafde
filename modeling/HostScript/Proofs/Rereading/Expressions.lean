import HostScript.Proofs.Unparse

/-!
# HostScript.Proofs.Rereading.Expressions

Reading what `Node.unparse` has written.  Where the tokens of an expression come next and nothing
follows that could belong to it, the reader finds the expression and stops behind it; there is one
lemma for every kind of expression, from what holds of its parts.
-/

namespace HostScript

namespace TokenKind

def isAdjust : TokenKind → Bool
  | .adjust _ => true
  | _ => false

def isOperator : TokenKind → Bool
  | .operator _ => true
  | _ => false

/-- What the reader would take for a part of an expression that ends in a closing parenthesis. -/
def extendsOperand (k : TokenKind) : Bool := k.isAdjust || k.isOperator

/-- What the reader would take for a part of an expression that ends in a name or in arguments. -/
def extendsName (k : TokenKind) : Bool := k.extendsOperand || k = .period || k = .parenOpen

/-- What goes on with a name goes on with an operand, or it makes the name a call or a chain. -/
theorem extendsName_eq_false {k : TokenKind} :
    k.extendsName = false ↔ k.extendsOperand = false ∧ k ≠ .period ∧ k ≠ .parenOpen := by
  simp [extendsName, and_assoc]

end TokenKind

namespace Parse

variable {α β : Type} {input : Input} {state : State} {allowed : Allowed} {t : FunctionTable}
  {k : TokenKind} {kinds rest : List TokenKind} {failed : CompileError → Prop}

/-! ## the tokens that are left -/

/-- A state in which `allowed` says where a break or continue may stand, the functions `t` are
registered and tokens of these kinds are left. -/
structure Input.At (input : Input) (state : State) (allowed : Allowed) (t : FunctionTable)
    (kinds : List TokenKind) : Prop where
  allowed : state.allowed = allowed
  functions : state.functions = t
  kinds : (input.tokens.toList.drop state.cursor).map (·.kind) = kinds

namespace Input.At

/-- As many tokens are left as are written. -/
theorem left (here : input.At state allowed t kinds) : input.left state = kinds.length := by
  simp [← here.kinds, Input.left]

/-- Each token that is written is found at its place. -/
theorem kind_at (here : input.At state allowed t kinds) {i : Nat} (found : kinds[i]? = some k) :
    (input.tokens[state.cursor + i]?.getD input.eof).kind = k := by
  rw [← here.kinds, List.getElem?_map, List.getElem?_drop, Array.getElem?_toList] at found
  obtain ⟨token, there, rfl⟩ := Option.map_eq_some_iff.1 found
  rw [there, Option.getD_some]

/-- The next token is the first one that is left. -/
theorem kind (here : input.At state allowed t (k :: kinds)) : (input.token state).kind = k :=
  here.kind_at (i := 0) rfl

/-- The cursor is before the end. -/
theorem cursor_lt (here : input.At state allowed t (k :: kinds)) :
    state.cursor < input.tokens.size := by
  have left := here.left
  rw [Input.left, List.length_cons] at left
  omega

/-- Behind the first token the others are left. -/
theorem advanced (here : input.At state allowed t (k :: kinds)) :
    input.At (input.advanced state) allowed t kinds where
  allowed := (input.allowed_advanced state).trans here.allowed
  functions := (input.functions_advanced state).trans here.functions
  kinds := by
    rw [Input.advanced, if_pos here.cursor_lt, ← List.drop_drop, List.map_drop, here.kinds]
    rfl

/-- How many tokens are left can be seen from their kinds. -/
theorem left_lt (here : input.At state allowed t kinds) {state' : State} {t' : FunctionTable}
    {kinds' : List TokenKind} (there : input.At state' allowed t' kinds')
    (fewer : kinds'.length < kinds.length) : input.left state' < input.left state := by
  rw [here.left, there.left]
  exact fewer

end Input.At

section running

variable {post : β → State → Prop}

/-- The next token is the first one that is written. -/
theorem meets_next_at {f : Token → Parse β} (here : input.At state allowed t (k :: kinds))
    (rest : ∀ token state', token.kind = k → input.At state' allowed t kinds →
      Meets failed (f token input) state' post) :
    Meets failed ((next >>= f) input) state post :=
  meets_next.2 (rest _ _ here.kind here.advanced)

/-- A token that has to be there is there. -/
theorem meets_expect_at {f : Token → Parse β} (here : input.At state allowed t (k :: kinds))
    (rest : ∀ token state', input.At state' allowed t kinds →
      Meets failed (f token input) state' post) :
    Meets failed ((expect k >>= f) input) state post := by
  have run : expect k input state = .ok (input.token state) (input.advanced state) := by
    show (if (input.token state).kind = k then _ else _ : Parse Token) input
      (input.advanced state) = _
    rw [if_pos here.kind]
    rfl
  exact meets_then ((Meets.iff_of_ok run).2 here.advanced) fun token state' => rest token state'

/-- A token that may be missing is there. -/
theorem meets_accept_at {f : Bool → Parse β} (here : input.At state allowed t (k :: kinds))
    (rest : ∀ state', input.At state' allowed t kinds → Meets failed (f true input) state' post) :
    Meets failed ((accept k >>= f) input) state post := by
  rw [meets_accept, if_pos here.kind]
  exact rest _ here.advanced

/-- A token that may be missing is not there. -/
theorem meets_decline_at {kind : TokenKind} {f : Bool → Parse β}
    (here : input.At state allowed t (k :: kinds)) (other : k ≠ kind)
    (rest : Meets failed (f false input) state post) :
    Meets failed ((accept kind >>= f) input) state post := by
  rw [meets_accept, if_neg (by rwa [here.kind])]
  exact rest

end running

/-! ## expressions -/

variable {number : Nat → Nat}

/-- What was read is like `node`, and these tokens are left. -/
structure Found (input : Input) (number : Nat → Nat) (allowed : Allowed) (t : FunctionTable)
    (kinds : List TokenKind) (node found : Node) (state : State) : Prop where
  here : input.At state allowed t kinds
  same : found.bare id = node.bare number

/-- The reader finds an expression where it is written and nothing follows that extends it. -/
def Readable (input : Input) (number : Nat → Nat) (withOperators : Bool) (node : Node) : Prop :=
  ∀ ⦃fuel : Nat⦄ ⦃state : State⦄ ⦃allowed : Allowed⦄ ⦃t : FunctionTable⦄ ⦃k : TokenKind⦄
    ⦃rest : List TokenKind⦄,
    k.extendsName = false → input.At state allowed t (node.unparse ++ k :: rest) →
    input.left state < fuel →
    Meets Never (expressionAt fuel withOperators input) state
      (Found input number allowed t (k :: rest) node)

/-- Like `Readable`, for expressions that are read as one operand. -/
def ReadableOperand (input : Input) (number : Nat → Nat) (node : Node) : Prop :=
  ∀ ⦃fuel : Nat⦄ ⦃state : State⦄ ⦃allowed : Allowed⦄ ⦃t : FunctionTable⦄ ⦃k : TokenKind⦄
    ⦃rest : List TokenKind⦄,
    k.extendsName = false → input.At state allowed t (node.unparse ++ k :: rest) →
    input.left state ≤ fuel →
    Meets Never (operand (expressionAt fuel) input) state
      (Found input number allowed t (k :: rest) node)

section expressions

variable {nested : Bool → Parse Node} {node left right target : Node} {nodes : List Node}
  {location : Location} {fuel : Nat}

/-! ### behind an operand -/

/-- Behind an operand no increment follows. -/
theorem adjusted_declines (other : k.isAdjust = false)
    (here : input.At state allowed t (k :: kinds)) :
    Meets failed (adjusted node input) state fun found state' => found = node ∧ state' = state := by
  unfold adjusted
  rw [meets_current, here.kind]
  cases k with
  | adjust direction => cases other
  | _ => exact ⟨rfl, rfl⟩

/-- Behind an operand an increment follows. -/
theorem adjusted_takes {direction : Direction}
    (here : input.At state allowed t (.adjust direction :: kinds)) :
    Meets failed (adjusted node input) state fun found state' =>
      found = .adjust node.location .after node direction ∧ input.At state' allowed t kinds := by
  unfold adjusted
  rw [meets_current, here.kind]
  exact ⟨rfl, here.advanced⟩

/-- No operator follows. -/
theorem operatorAndOperand_declines (other : k.isOperator = false)
    (here : input.At state allowed t (k :: kinds)) :
    Meets failed (operatorAndOperand nested input) state fun found state' =>
      found = none ∧ state' = state := by
  unfold operatorAndOperand
  rw [meets_current, here.kind]
  cases k with
  | operator op => cases other
  | _ => exact ⟨rfl, rfl⟩

/-- No operators follow. -/
theorem collect_declines (other : k.isOperator = false)
    (here : input.At state allowed t (k :: kinds)) :
    Meets failed (collect (operatorAndOperand nested) (fuel + 1) input) state fun found state' =>
      found = [] ∧ state' = state := by
  refine meets_then (operatorAndOperand_declines other here) ?_
  rintro _ _ ⟨rfl, rfl⟩
  exact ⟨rfl, rfl⟩

/-- An operand without an operator behind it stays alone. -/
theorem operators_declines (other : k.isOperator = false)
    (here : input.At state allowed t (k :: kinds)) :
    Meets failed (operators nested node input) state fun found state' =>
      found = node ∧ state' = state := by
  unfold operators many
  refine meets_then (meets_remaining.2 (collect_declines other here)) ?_
  rintro _ _ ⟨rfl, rfl⟩
  exact ⟨rfl, rfl⟩

/-- One operator joins what stands on its sides, whatever its precedence. -/
theorem fold?_single (op : BinaryOperator) (left right : Node) :
    Precedence.fold? Precedence.join (left, [(op, right)]) =
      some (Precedence.join left op right) := by
  cases op <;> rfl

/-- One operator follows, and an operand with no operator behind it. -/
theorem operators_takes {op : BinaryOperator} (other : k.isOperator = false)
    (here : input.At state allowed t (.operator op :: kinds))
    (next : ∀ state', input.At state' allowed t kinds →
      Meets Never (nested false input) state' (Found input number allowed t (k :: rest) right)) :
    Meets Never (operators nested left input) state fun found state' =>
      ∃ found', found = Precedence.join left op found' ∧
        Found input number allowed t (k :: rest) right found' state' := by
  have first : Meets Never (operatorAndOperand nested input) state fun found state' =>
      ∃ found', found = some (op, found') ∧
        Found input number allowed t (k :: rest) right found' state' := by
    unfold operatorAndOperand
    rw [meets_current, here.kind, meets_advance]
    exact meets_then (next _ here.advanced) fun found state' good => ⟨found, rfl, good⟩
  -- the second round of the loop finds no operator, so one pair is all there is to fold
  have one : Meets Never (collect (operatorAndOperand nested) (input.left state + 1) input) state
      fun found state' => ∃ found', found = [(op, found')] ∧
        Found input number allowed t (k :: rest) right found' state' := by
    rw [here.left, List.length_cons]
    refine meets_then first ?_
    rintro _ state₁ ⟨found, rfl, good⟩
    refine meets_then (collect_declines other good.here) ?_
    rintro _ _ ⟨rfl, rfl⟩
    exact ⟨found, rfl, good⟩
  unfold operators many
  refine meets_then (meets_remaining.2 one) ?_
  rintro _ state₁ ⟨found, rfl, good⟩
  rw [fold?_single]
  exact ⟨found, rfl, good⟩

/-! ### operands -/

/-- An operand with nothing behind it that extends it is an expression. -/
theorem expressionAt_of_operand (withOperators : Bool) (stop : k.extendsOperand = false)
    (first : Meets Never (operand (expressionAt fuel) input) state
      (Found input number allowed t (k :: rest) node)) :
    Meets Never (expressionAt (fuel + 1) withOperators input) state
      (Found input number allowed t (k :: rest) node) := by
  obtain ⟨noAdjust, noOperator⟩ := Bool.or_eq_false_iff.1 stop
  refine meets_then first ?_
  rintro found state₁ good
  refine meets_then (adjusted_declines noAdjust good.here) ?_
  rintro _ _ ⟨rfl, rfl⟩
  cases withOperators with
  | true =>
      refine (operators_declines noOperator good.here).imp ?_
      rintro _ _ ⟨rfl, rfl⟩
      exact good
  | false => exact good

/-- An operand can be read back as an expression. -/
theorem ReadableOperand.readable (h : ReadableOperand input number node) (withOperators : Bool) :
    Readable input number withOperators node := by
  intro fuel state allowed t k rest stop here enough
  obtain ⟨fuel, rfl⟩ := Nat.exists_eq_add_one.2 (Nat.zero_lt_of_lt enough)
  exact expressionAt_of_operand withOperators (TokenKind.extendsName_eq_false.1 stop).1
    (h stop here (by omega))

/-- In parentheses an expression is one operand, whatever follows. -/
theorem operand_enclosed (h : Readable input number true node)
    (here : input.At state allowed t (enclosed node.unparse ++ kinds))
    (enough : input.left state ≤ fuel) :
    Meets Never (operand (expressionAt fuel) input) state
      (Found input number allowed t kinds node) := by
  rw [enclosed_append] at here
  refine meets_next_at here fun token state₁ kind here₁ => ?_
  rw [kind]
  have less := here.left_lt here₁ (by simp)
  refine meets_then (h rfl here₁ (by omega)) ?_
  rintro found state₂ ⟨here₂, same⟩
  exact meets_expect_at here₂ fun _ _ here₃ => ⟨here₃, same⟩

/-- In parentheses every expression can be read back as an operand. -/
theorem expressionAt_enclosed (h : Readable input number true node) (withOperators : Bool)
    (stop : k.extendsOperand = false)
    (here : input.At state allowed t (enclosed node.unparse ++ k :: rest))
    (enough : input.left state < fuel) :
    Meets Never (expressionAt fuel withOperators input) state
      (Found input number allowed t (k :: rest) node) := by
  obtain ⟨fuel, rfl⟩ := Nat.exists_eq_add_one.2 (Nat.zero_lt_of_lt enough)
  exact expressionAt_of_operand withOperators stop (operand_enclosed h here (by omega))

theorem null_readable : ReadableOperand input number (.null location) := by
  intro fuel state allowed t k rest _ here _
  refine meets_next_at here fun token state₁ kind here₁ => ?_
  rw [kind]
  exact ⟨here₁, rfl⟩

theorem number_readable {value : Number} :
    ReadableOperand input number (.number location value) := by
  intro fuel state allowed t k rest _ here _
  refine meets_next_at here fun token state₁ kind here₁ => ?_
  rw [kind]
  exact ⟨here₁, rfl⟩

theorem string_readable {value : String} :
    ReadableOperand input number (.string location value) := by
  intro fuel state allowed t k rest _ here _
  refine meets_next_at here fun token state₁ kind here₁ => ?_
  rw [kind]
  exact ⟨here₁, rfl⟩

/-- The operand of a unary operator is written in parentheses. -/
theorem unary_readable {op : UnaryOperator} (h : Readable input number true node) :
    ReadableOperand input number (.unary location op node) := by
  intro fuel state allowed t k rest stop here enough
  refine meets_next_at here fun token state₁ kind here₁ => ?_
  have less := here.left_lt here₁ (by simp [Node.unparse])
  have inner := expressionAt_enclosed h false (TokenKind.extendsName_eq_false.1 stop).1 here₁
    (show input.left state₁ < fuel by omega)
  cases op with
  | negate | not =>
      rw [kind]
      exact meets_then inner fun found state₂ good => ⟨good.here, by simp [Node.bare, good.same]⟩

/-- The target of an increment before it is written in parentheses. -/
theorem before_readable {direction : Direction} (h : Readable input number true target) :
    ReadableOperand input number (.adjust location .before target direction) := by
  intro fuel state allowed t k rest stop here enough
  refine meets_next_at here fun token state₁ kind here₁ => ?_
  have less := here.left_lt here₁ (by simp [Node.unparse])
  rw [kind]
  refine meets_then (expressionAt_enclosed h false (TokenKind.extendsName_eq_false.1 stop).1 here₁
    (by omega)) ?_
  rintro found state₂ ⟨here₂, same⟩
  exact ⟨here₂, by simp [Node.bare, same]⟩

/-! ### expressions of more than one operand -/

/-- The target of an increment behind it is written in parentheses, so the increment is taken for
its own. -/
theorem after_readable {direction : Direction} (h : Readable input number true target)
    (withOperators : Bool) :
    Readable input number withOperators (.adjust location .after target direction) := by
  intro fuel state allowed t k rest stop here enough
  obtain ⟨fuel, rfl⟩ := Nat.exists_eq_add_one.2 (Nat.zero_lt_of_lt enough)
  obtain ⟨-, noOperator⟩ := Bool.or_eq_false_iff.1 (TokenKind.extendsName_eq_false.1 stop).1
  rw [Node.unparse, List.append_assoc] at here
  refine meets_then (operand_enclosed h here (by omega)) ?_
  rintro found state₁ ⟨here₁, same⟩
  refine meets_then (adjusted_takes here₁) ?_
  rintro _ state₂ ⟨rfl, here₂⟩
  have whole : Found input number allowed t (k :: rest) (.adjust location .after target direction)
      (.adjust found.location .after found direction) state₂ :=
    ⟨here₂, by simp [Node.bare, same]⟩
  cases withOperators with
  | true =>
      refine (operators_declines noOperator here₂).imp ?_
      rintro _ _ ⟨rfl, rfl⟩
      exact whole
  | false => exact whole

/-- Both sides of a binary operator are written in parentheses, so there is nothing to climb. -/
theorem binary_readable {op : BinaryOperator} (first : Readable input number true left)
    (second : Readable input number true right) :
    Readable input number true (.binary location op left right) := by
  intro fuel state allowed t k rest stop here enough
  obtain ⟨fuel, rfl⟩ := Nat.exists_eq_add_one.2 (Nat.zero_lt_of_lt enough)
  have closed := (TokenKind.extendsName_eq_false.1 stop).1
  rw [Node.unparse, List.append_assoc] at here
  -- the right side is read without operators, which is enough for what stands in parentheses
  have behind (state' : State)
      (there : input.At state' allowed t (enclosed right.unparse ++ k :: rest)) :
      Meets Never (expressionAt fuel false input) state'
        (Found input number allowed t (k :: rest) right) := by
    have less := here.left_lt there (by simp only [List.length_append, List.length_cons]; omega)
    exact expressionAt_enclosed second false closed there (by omega)
  refine meets_then (operand_enclosed first here (by omega)) ?_
  rintro found state₁ ⟨here₁, same₁⟩
  refine meets_then (adjusted_declines rfl here₁) ?_
  rintro _ _ ⟨rfl, rfl⟩
  refine (operators_takes (Bool.or_eq_false_iff.1 closed).2 here₁ behind).imp ?_
  rintro _ state₂ ⟨found', rfl, here₂, same₂⟩
  exact ⟨here₂, by simp [Precedence.join, Node.bare, same₁, same₂]⟩

/-! ### calls -/

/-- Arguments are read back one by one, by induction on their list. -/
theorem argumentsFrom_found {opening : Location} {limit : Nat}
    (all : ∀ n ∈ node :: nodes, Readable input number true n)
    (here : input.At state allowed t
      (List.intercalate [.comma] (unparseEach (node :: nodes)) ++ .parenClose :: kinds))
    (enough : input.left state < fuel) (limited : input.left state < limit) :
    Meets Never (argumentsFrom (expressionAt fuel) opening limit input) state fun found state' =>
      input.At state' allowed t kinds ∧ bareAll id found = bareAll number (node :: nodes) := by
  obtain ⟨first, others⟩ := List.forall_mem_cons.1 all
  induction nodes generalizing node state limit with
  | nil =>
      obtain ⟨limit, rfl⟩ := Nat.exists_eq_add_one.2 (Nat.zero_lt_of_lt limited)
      rw [unparseEach, unparseEach, List.intercalate_singleton] at here
      refine meets_then (expressionAt_enclosed first true rfl here enough) ?_
      rintro found state₁ ⟨here₁, same⟩
      refine meets_next_at here₁ fun token state₂ kind here₂ => ?_
      rw [kind]
      exact ⟨here₂, by simp [bareAll, same]⟩
  | cons second nodes ih =>
      obtain ⟨limit, rfl⟩ := Nat.exists_eq_add_one.2 (Nat.zero_lt_of_lt limited)
      rw [unparseEach, unparseEach, List.intercalate_cons_cons, List.append_assoc,
        List.append_assoc, List.singleton_append] at here
      refine meets_then (expressionAt_enclosed first true rfl here enough) ?_
      rintro found state₁ ⟨here₁, same⟩
      refine meets_next_at here₁ fun token state₂ kind here₂ => ?_
      rw [kind]
      obtain ⟨next, others'⟩ := List.forall_mem_cons.1 others
      have less := here.left_lt here₂ (by simp only [List.length_append, List.length_cons]; omega)
      refine meets_then (ih others here₂ (by omega) (by omega) next others') ?_
      rintro found' state₃ ⟨here₃, same₃⟩
      exact ⟨here₃, by rw [bareAll, same, same₃, ← bareAll]⟩

/-- The arguments of a call are read back. -/
theorem arguments_found (all : ∀ n ∈ nodes, Readable input number true n)
    (here : input.At state allowed t (listed (unparseEach nodes) ++ kinds))
    (enough : input.left state ≤ fuel) :
    Meets Never (arguments (expressionAt fuel) input) state fun found state' =>
      input.At state' allowed t kinds ∧ bareAll id found = bareAll number nodes := by
  rw [listed_append] at here
  refine meets_expect_at here fun opening state₁ here₁ => ?_
  have less := here.left_lt here₁ (by simp)
  cases nodes with
  | nil =>
      exact meets_accept_at here₁ fun state₂ here₂ => ⟨here₂, rfl⟩
  | cons node nodes =>
      have kind : (input.token state₁).kind = .parenOpen := by
        cases nodes with
        | nil => exact here₁.kind
        | cons => exact here₁.kind
      rw [meets_accept, if_neg (by simp [kind])]
      exact meets_remaining.2 (argumentsFrom_found all here₁ (by omega) (Nat.lt_succ_self _))

/-! ### chains -/

/-- The reader finds the start of a chain and comes to where the chain may go on. -/
def ReadableHead (input : Input) (number : Nat → Nat) (node : Node) : Prop :=
  ∀ ⦃fuel : Nat⦄ ⦃state : State⦄ ⦃allowed : Allowed⦄ ⦃t : FunctionTable⦄ ⦃k : TokenKind⦄
    ⦃rest : List TokenKind⦄ ⦃post : Node → State → Prop⦄,
    k ≠ .parenOpen → (k = .period → Grammar.Head input.environment node) →
    input.At state allowed t (node.unparse ++ k :: rest) → input.left state ≤ fuel →
    (∀ location found state', Found input number allowed t (k :: rest) node found state' →
      Meets Never (continueChain (expressionAt fuel) location found input) state' post) →
    Meets Never (operand (expressionAt fuel) input) state post

/-- A name at the start of a chain is read back. -/
theorem identifier_head {name : String} :
    ReadableHead input number (.identifier location name) := by
  intro fuel state allowed t k rest post noCall starts here _ goesOn
  refine meets_next_at here fun token state₁ kind here₁ => ?_
  rw [kind]
  have alone := goesOn token.location (.identifier token.location name) state₁ ⟨here₁, rfl⟩
  unfold identifierExpression
  rw [meets_environment, meets_current, meets_peek, here₁.kind]
  cases k with
  | parenOpen => exact absurd rfl noCall
  | period =>
      -- behind the name of a template this would be a static call
      rw [show input.environment.template? name = none from starts rfl]
      exact alone
  | _ => exact alone

/-- A call at the start of a chain is read back. -/
theorem call_head {name : String} (all : ∀ n ∈ nodes, Readable input number true n) :
    ReadableHead input number (.call location name nodes) := by
  intro fuel state allowed t k rest post _ _ here enough goesOn
  rw [Node.unparse, List.cons_append] at here
  refine meets_next_at here fun token state₁ kind here₁ => ?_
  rw [kind]
  unfold identifierExpression
  have less := here.left_lt here₁ (by simp)
  have opening := here₁
  rw [listed_append] at opening
  rw [meets_environment, meets_current, meets_peek, opening.kind]
  refine meets_then (arguments_found all here₁ (by omega)) ?_
  rintro found state₂ ⟨here₂, same⟩
  exact goesOn _ _ _ ⟨here₂, by simp [Node.bare, same]⟩

/-- The arguments of a constructor that the template has. -/
theorem construction_found {owner : Template} {template name : String} {post : Node → State → Prop}
    (there : (owner.staticFunction? name nodes.length).isSome)
    (all : ∀ n ∈ nodes, Readable input number true n)
    (here : input.At state allowed t (listed (unparseEach nodes) ++ kinds))
    (enough : input.left state ≤ fuel)
    (goesOn : ∀ found state', input.At state' allowed t kinds →
      bareAll id found = bareAll number nodes →
      Meets Never (continueChain (expressionAt fuel) location
        (.staticCall location template name found) input) state' post) :
    Meets Never ((do
      let arguments ← arguments (expressionAt fuel)
      match owner.staticFunction? name arguments.length with
      | none => fail location (.noConstructor template name arguments.length)
      | some _ =>
        continueChain (expressionAt fuel) location
          (.staticCall location template name arguments) : Parse Node) input) state post := by
  refine meets_then (arguments_found all here enough) ?_
  rintro found state₁ ⟨here₁, same⟩
  have count : found.length = nodes.length := by
    rw [← length_bareAll id found, same, length_bareAll]
  obtain ⟨signature, known⟩ := Option.isSome_iff_exists.1 there
  rw [count, known]
  exact goesOn found state₁ here₁ same

/-- A constructor is called with `new`, any other static function behind its template. -/
theorem staticCall_head {template name : String}
    (known : Grammar.StaticCall input.environment template name nodes.length)
    (all : ∀ n ∈ nodes, Readable input number true n) :
    ReadableHead input number (.staticCall location template name nodes) := by
  intro fuel state allowed t k rest post _ _ here enough goesOn
  obtain ⟨owner, found, constructor⟩ := known
  by_cases new : name = Template.constructor
  · rw [Node.unparse, if_pos new] at here
    simp only [List.cons_append, List.nil_append] at here
    refine meets_next_at here fun token state₁ kind here₁ => ?_
    rw [kind]
    refine meets_next_at here₁ fun token₁ state₂ kind₁ here₂ => ?_
    rw [kind₁]
    have less := here.left_lt here₂ (by simp only [List.length_cons]; omega)
    have opening := here₂
    rw [listed_append] at opening
    rw [meets_environment, found]
    refine meets_decline_at opening (by simp) ?_
    refine construction_found (new ▸ constructor new) all here₂ (by omega)
      fun arguments state₃ here₃ same => goesOn _ _ _ ⟨here₃, ?_⟩
    simp [Node.bare, same, new]
  · rw [Node.unparse, if_neg new] at here
    simp only [List.cons_append, List.nil_append] at here
    refine meets_next_at here fun token state₁ kind here₁ => ?_
    rw [kind]
    unfold identifierExpression
    have less := here.left_lt here₁.advanced.advanced (by simp only [List.length_cons]; omega)
    rw [meets_environment, meets_current, meets_peek, here₁.kind, here₁.kind_at (i := 1) rfl, found,
      meets_advance, meets_advance]
    refine meets_then (arguments_found all here₁.advanced.advanced (by omega)) ?_
    rintro arguments state₂ ⟨here₂, same⟩
    exact goesOn _ _ _ ⟨here₂, by simp [Node.bare, same]⟩

/-- Without a point behind it the start of a chain stands alone. -/
theorem ReadableHead.operand (h : ReadableHead input number node) :
    ReadableOperand input number node := by
  intro fuel state allowed t k rest stop here enough
  obtain ⟨-, noPoint, noCall⟩ := TokenKind.extendsName_eq_false.1 stop
  refine h noCall (absurd · noPoint) here enough fun location found state₁ good => ?_
  exact meets_decline_at good.here noPoint good

/-- What the reader of links does behind a link. -/
def continueLinks (nested : Bool → Parse Node) (fuel : Nat) (location : Location) (link : Node) :
    Parse Node := do
  if ← accept .period then return .chain location link (← chainLinks nested fuel)
  else return link

/-- The reader of links finds one and comes to where the chain may go on. -/
def ReadableLink (input : Input) (number : Nat → Nat) (node : Node) : Prop :=
  ∀ ⦃fuel limit : Nat⦄ ⦃state : State⦄ ⦃allowed : Allowed⦄ ⦃t : FunctionTable⦄ ⦃k : TokenKind⦄
    ⦃rest : List TokenKind⦄ ⦃post : Node → State → Prop⦄,
    k ≠ .parenOpen → input.At state allowed t (node.unparse ++ k :: rest) →
    input.left state ≤ fuel →
    (∀ location found state', Found input number allowed t (k :: rest) node found state' →
      Meets Never (continueLinks (expressionAt fuel) limit location found input) state' post) →
    Meets Never (chainLinks (expressionAt fuel) (limit + 1) input) state post

/-- The reader of links finds all links that are written. -/
def ReadableLinks (input : Input) (number : Nat → Nat) (node : Node) : Prop :=
  ∀ ⦃fuel limit : Nat⦄ ⦃state : State⦄ ⦃allowed : Allowed⦄ ⦃t : FunctionTable⦄ ⦃k : TokenKind⦄
    ⦃rest : List TokenKind⦄,
    k.extendsName = false → input.At state allowed t (node.unparse ++ k :: rest) →
    input.left state ≤ fuel → input.left state < limit →
    Meets Never (chainLinks (expressionAt fuel) limit input) state
      (Found input number allowed t (k :: rest) node)

/-- A field is read back as a link. -/
theorem identifier_link {name : String} :
    ReadableLink input number (.identifier location name) := by
  intro fuel limit state allowed t k rest post noCall here _ goesOn
  refine meets_next_at here fun token state₁ kind here₁ => ?_
  rw [kind]
  rw [meets_current, here₁.kind, if_neg noCall]
  exact goesOn _ _ _ ⟨here₁, rfl⟩

/-- A call is read back as a link. -/
theorem call_link {name : String} (all : ∀ n ∈ nodes, Readable input number true n) :
    ReadableLink input number (.call location name nodes) := by
  intro fuel limit state allowed t k rest post _ here enough goesOn
  rw [Node.unparse, List.cons_append] at here
  refine meets_next_at here fun token state₁ kind here₁ => ?_
  rw [kind]
  have less := here.left_lt here₁ (by simp)
  have opening := here₁
  rw [listed_append] at opening
  rw [meets_current, opening.kind, if_pos rfl]
  refine meets_then (arguments_found all here₁ (by omega)) ?_
  rintro found state₂ ⟨here₂, same⟩
  exact goesOn _ _ _ ⟨here₂, by simp [Node.bare, same]⟩

/-- The last link. -/
theorem ReadableLink.links (h : ReadableLink input number node) :
    ReadableLinks input number node := by
  intro fuel limit state allowed t k rest stop here enough limited
  obtain ⟨limit, rfl⟩ := Nat.exists_eq_add_one.2 (Nat.zero_lt_of_lt limited)
  obtain ⟨-, noPoint, noCall⟩ := TokenKind.extendsName_eq_false.1 stop
  refine h noCall here enough fun location found state₁ good => ?_
  exact meets_decline_at good.here noPoint good

/-- A link and those behind it are read back. -/
theorem chain_links {current remaining : Node} (first : ReadableLink input number current)
    (others : ReadableLinks input number remaining) :
    ReadableLinks input number (.chain location current remaining) := by
  intro fuel limit state allowed t k rest stop here enough limited
  obtain ⟨limit, rfl⟩ := Nat.exists_eq_add_one.2 (Nat.zero_lt_of_lt limited)
  rw [Node.unparse, List.append_assoc, List.cons_append] at here
  refine first (by simp) here enough fun location found state₁ good => ?_
  refine meets_accept_at good.here fun state₂ here₂ => ?_
  have less := here.left_lt here₂ (by simp only [List.length_append, List.length_cons]; omega)
  refine meets_then (others stop here₂ (by omega) (by omega)) ?_
  rintro found' state₃ ⟨here₃, same⟩
  exact ⟨here₃, by simp [Node.bare, good.same, same]⟩

/-- A chain is read back from its start and its links. -/
theorem chain_readable {current remaining : Node} (first : ReadableHead input number current)
    (starts : Grammar.Head input.environment current)
    (others : ReadableLinks input number remaining) :
    ReadableOperand input number (.chain location current remaining) := by
  intro fuel state allowed t k rest stop here enough
  rw [Node.unparse, List.append_assoc, List.cons_append] at here
  refine first (by simp) (fun _ => starts) here enough fun location found state₁ good => ?_
  refine meets_accept_at good.here fun state₂ here₂ => ?_
  have less := here.left_lt here₂ (by simp only [List.length_append, List.length_cons]; omega)
  refine meets_remaining.2 (meets_then (others stop here₂ (by omega) (Nat.lt_succ_self _)) ?_)
  rintro found' state₃ ⟨here₃, same⟩
  exact ⟨here₃, by simp [Node.bare, good.same, same]⟩

end expressions

/-! ### all expressions -/

mutual

/-- What is written as an expression is read as that expression. -/
theorem expression_readable : (node : Node) → Grammar.Expression input.environment node →
    Readable input number true node
  | .null _, _ => null_readable.readable true
  | .number .., _ => number_readable.readable true
  | .string .., _ => string_readable.readable true
  | .identifier .., _ => identifier_head.operand.readable true
  | .chain _ current remaining, h =>
    (chain_readable (head_readable current h.1 h.2.1) h.1
      (links_readable remaining h.2.2)).readable true
  | .call _ _ arguments, h => (call_head (expressions_readable arguments h)).operand.readable true
  | .staticCall _ _ _ arguments, h =>
    (staticCall_head h.1 (expressions_readable arguments h.2)).operand.readable true
  | .unary _ _ operand, h => (unary_readable (expression_readable operand h)).readable true
  | .binary _ _ left right, h =>
    binary_readable (expression_readable left h.1) (expression_readable right h.2)
  | .adjust _ .before target _, h =>
    (before_readable (expression_readable target h.2)).readable true
  | .adjust _ .after target _, h => after_readable (expression_readable target h.2) true
  | .adjust _ .statement _ _, h => absurd rfl h.1

/-- All expressions of a list can be read back. -/
theorem expressions_readable : (nodes : List Node) →
    Grammar.Expressions input.environment nodes → ∀ node ∈ nodes, Readable input number true node
  | [], _ => by simp
  | node :: nodes, h =>
    List.forall_mem_cons.2 ⟨expression_readable node h.1, expressions_readable nodes h.2⟩

/-- Whatever starts a chain can be read back there. -/
theorem head_readable : (node : Node) → Grammar.Head input.environment node →
    Grammar.Expression input.environment node → ReadableHead input number node
  | .identifier .., _, _ => identifier_head
  | .call _ _ arguments, _, h => call_head (expressions_readable arguments h)
  | .staticCall _ _ _ arguments, _, h => staticCall_head h.1 (expressions_readable arguments h.2)

/-- Every link can be read back. -/
theorem link_readable : (node : Node) → Grammar.Link input.environment node →
    ReadableLink input number node
  | .identifier .., _ => identifier_link
  | .call _ _ arguments, h => call_link (expressions_readable arguments h)

/-- All links of a chain can be read back. -/
theorem links_readable : (node : Node) → Grammar.Links input.environment node →
    ReadableLinks input number node
  | .chain _ current remaining, h =>
    chain_links (link_readable current h.1) (links_readable remaining h.2)
  | .identifier .., _ => identifier_link.links
  | .call _ _ arguments, h => (call_link (expressions_readable arguments h)).links

end

end Parse

end HostScript
