import HostScript.Proofs.Rereading.Expressions

/-!
# HostScript.Proofs.Rereading.Statements

Reading the statements that `Node.unparse` has written.  The reader finds a statement where it is
written, takes the semicolon behind it, and registers the functions that are defined in it one after
the other; so it matters in which order they are written, and that their names are free.
-/

namespace HostScript

/-! ## registering functions in the order in which they are written -/

/-- The table when the functions `ds` are registered one after the other. -/
def FunctionTable.registerAll (t : FunctionTable) (ds : List Definition) : FunctionTable :=
  ds.foldl (fun t d => t.register d.name d.parameters) t

/-- The functions `ds` can be registered one after the other, and `number` says which id each of
them gets. -/
def Admits (env : Environment) (number : Nat → Nat) : FunctionTable → List Definition → Prop
  | _, [] => True
  | t, d :: ds =>
    Parse.rival? env t d.name d.parameters.length = none ∧ number d.id = t.size ∧
      Admits env number (t.register d.name d.parameters) ds

/-- What stands in the middle of a list without repetitions does not stand before. -/
theorem not_mem_of_nodup_append_cons {α : Type} {a : α} {as bs : List α}
    (distinct : (as ++ a :: bs).Nodup) : a ∉ as := fun before =>
  (List.nodup_append.1 distinct).2.2 a before a List.mem_cons_self rfl

section admits

variable {env : Environment} {number : Nat → Nat} {t : FunctionTable} {ds es : List Definition}

/-- Definitions are registered one list after the other. -/
theorem FunctionTable.registerAll_append :
    t.registerAll (ds ++ es) = (t.registerAll ds).registerAll es :=
  List.foldl_append

/-- A list of definitions is admitted if its first part is, and then its second. -/
theorem admits_append :
    Admits env number t (ds ++ es) ↔
      Admits env number t ds ∧ Admits env number (t.registerAll ds) es := by
  induction ds generalizing t with
  | nil => exact (and_iff_right trivial).symm
  | cons d ds ih => simp only [List.cons_append, Admits, ih, and_assoc, FunctionTable.registerAll,
      List.foldl_cons]

/-- Functions can be registered when the host does not use their names and no two of them answer to
the same calls. -/
theorem admits_of_nodup (free : ∀ d ∈ ds, Parse.rival? env {} d.name d.parameters.length = none)
    (distinct : (t.signatures ++ ds.map (·.signature)).Nodup)
    (numbers : ds.map (fun d => number d.id) = List.range' t.size ds.length) :
    Admits env number t ds := by
  induction ds generalizing t with
  | nil => trivial
  | cons d ds ih =>
      obtain ⟨first, others⟩ := List.forall_mem_cons.1 free
      rw [List.length_cons, List.range'_succ, List.map_cons, List.cons.injEq] at numbers
      rw [List.map_cons] at distinct
      have new := not_mem_of_nodup_append_cons distinct
      refine ⟨Parse.rival?_eq_none_iff.2 ⟨new, first⟩, numbers.1, ih others ?_ ?_⟩
      · rw [FunctionTable.signatures_register, List.append_assoc]
        exact distinct
      · rw [FunctionTable.size_register]
        exact numbers.2

end admits

/-- What begins a statement does not go on with an operand. -/
theorem TokenKind.extendsOperand_of_begins {k : TokenKind} (h : k.begins = true) :
    k.extendsOperand = false := by
  cases k with
  | operator | adjust => cases h
  | _ => rfl

namespace Parse

variable {input : Input} {state : State} {allowed : Allowed} {t : FunctionTable} {k : TokenKind}
  {kinds rest : List TokenKind} {number : Nat → Nat} {failed : CompileError → Prop}

/-! ## expressions in statements -/

section expressions

variable {node : Node} {withOperators : Bool}

/-- An expression of a statement is read back, unless the token behind it goes on with a name. -/
theorem expression_found (h : Readable input number withOperators node)
    (stop : k.extendsName = false) (here : input.At state allowed t (node.unparse ++ k :: rest)) :
    Meets Never (expression withOperators input) state
      (Found input number allowed t (k :: rest) node) :=
  meets_remaining.2 (h stop here (Nat.lt_succ_self _))

/-- An expression in parentheses is read back, unless the token behind it goes on with an
operand. -/
theorem enclosed_found (h : Readable input number true node) (stop : k.extendsOperand = false)
    (here : input.At state allowed t (enclosed node.unparse ++ k :: rest)) :
    Meets Never (expression withOperators input) state
      (Found input number allowed t (k :: rest) node) :=
  meets_remaining.2 (expressionAt_enclosed h withOperators stop here (Nat.lt_succ_self _))

/-- A condition, with a statement behind it. -/
theorem condition_found (h : Readable input number true node) (begins : Begins kinds)
    (here : input.At state allowed t (enclosed node.unparse ++ kinds)) :
    Meets Never (expression true input) state (Found input number allowed t kinds node) := by
  obtain ⟨k, rest, rfl, first⟩ := begins
  exact enclosed_found h (TokenKind.extendsOperand_of_begins first) here

end expressions

/-! ## statements -/

/-- The reader `x` finds a statement where it is written, and takes the semicolon behind it. -/
def Recovers (input : Input) (number : Nat → Nat) (allowed : Allowed) (bound : Nat)
    (x : Parse Node) (node : Node) : Prop :=
  ∀ ⦃state : State⦄ ⦃t : FunctionTable⦄ ⦃rest : List TokenKind⦄,
    input.At state allowed t (node.unparse ++ .semicolon :: rest) → input.left state < bound →
    Admits input.environment number t node.definitions →
    Meets Never (x input) state
      (Found input number allowed (t.registerAll node.definitions) rest node)

/-- A statement that is found where it is written, with whatever fuel there is for it. -/
structure ReadableStatement (input : Input) (number : Nat → Nat) (allowed : Allowed)
    (node : Node) : Prop where
  begins : Begins node.unparse
  reads (fuel : Nat) : Recovers input number allowed fuel (statementAt fuel) node

section statements

variable {location : Location} {node condition body value target : Node}
  {nodes : List Node} {fuel : Nat}

/-- A statement that is known by its first token. -/
theorem ReadableStatement.of_token (written : node.unparse = k :: kinds)
    (begins : k.begins = true)
    (reads : ∀ fuel token state t rest, token.kind = k →
      input.At state allowed t (kinds ++ .semicolon :: rest) → input.left state < fuel →
      Admits input.environment number t node.definitions →
      Meets Never (statementFrom (statementAt fuel) token input) state
        (Found input number allowed (t.registerAll node.definitions) (.semicolon :: rest) node)) :
    ReadableStatement input number allowed node where
  begins := ⟨k, kinds, written, begins⟩
  reads fuel state t rest here enough admits := by
    obtain ⟨fuel, rfl⟩ := Nat.exists_eq_add_one.2 (Nat.zero_lt_of_lt enough)
    rw [written, List.cons_append] at here
    refine meets_next_at here fun token state₁ kind here₁ => ?_
    have less := here.left_lt here₁ (by simp)
    refine meets_then (reads fuel token state₁ t rest kind here₁ (by omega) admits) ?_
    rintro found state₂ ⟨here₂, same⟩
    exact meets_accept_at here₂ fun state₃ here₃ => ⟨here₃, same⟩

/-- A part of a statement is found where the part says what is allowed, and behind it the same is
allowed as before. -/
theorem ReadableStatement.within {inner : Allowed} (h : ReadableStatement input number inner node)
    (here : input.At state allowed t (node.unparse ++ .semicolon :: rest))
    (enough : input.left state < fuel)
    (admits : Admits input.environment number t node.definitions) :
    Meets Never (within inner (statementAt fuel) input) state
      (Found input number allowed (t.registerAll node.definitions) rest node) := by
  have inside : input.At { state with allowed := inner } inner t
      (node.unparse ++ .semicolon :: rest) := ⟨rfl, here.functions, here.kinds⟩
  refine bracket_meets ((h.reads fuel inside enough admits).imp ?_)
  exact fun found state' ⟨there, same⟩ => ⟨⟨here.allowed, there.functions, there.kinds⟩, same⟩

/-- Moving back undoes a move onward. -/
theorem Input.At.retreated (here : input.At state allowed t (k :: kinds)) :
    { input.advanced state with cursor := (input.advanced state).cursor - 1 } = state := by
  rw [Input.advanced, if_pos here.cursor_lt]
  rfl

/-- A statement that starts like an expression: the reader goes back to its first token. -/
theorem ReadableStatement.of_expression (written : node.unparse = k :: kinds)
    (starts : k = .parenOpen ∨ (∃ name, k = .identifier name) ∨ k = .keyword .newKw)
    (simple : node.definitions = [])
    (reads : ∀ location state t rest,
      input.At state allowed t (node.unparse ++ .semicolon :: rest) →
      Meets Never (expressionStatement location input) state
        (Found input number allowed t (.semicolon :: rest) node)) :
    ReadableStatement input number allowed node where
  begins := ⟨k, kinds, written, by rcases starts with rfl | ⟨name, rfl⟩ | rfl <;> rfl⟩
  reads fuel state t rest here enough _ := by
    obtain ⟨fuel, rfl⟩ := Nat.exists_eq_add_one.2 (Nat.zero_lt_of_lt enough)
    have first := here
    rw [written, List.cons_append] at first
    have back : Meets Never ((do retreat; expressionStatement (input.token state).location :
        Parse Node) input) (input.advanced state)
        (Found input number allowed t (.semicolon :: rest) node) := by
      rw [meets_retreat, first.retreated]
      exact reads _ state t rest here
    have whole : Meets Never
        (statementFrom (statementAt fuel) (input.token state) input) (input.advanced state)
        (Found input number allowed t (.semicolon :: rest) node) := by
      unfold statementFrom
      rw [first.kind]
      rcases starts with rfl | ⟨name, rfl⟩ | rfl <;> exact back
    rw [simple]
    refine meets_next.2 (meets_then whole ?_)
    rintro found state₁ ⟨here₁, same⟩
    exact meets_accept_at here₁ fun state₂ here₂ => ⟨here₂, same⟩

/-! ### assignments and calls -/

/-- An assignment is read back from its two sides. -/
theorem assign_readable {op : Option BinaryOperator} (first : Readable input number true target)
    (second : Readable input number true value) :
    ReadableStatement input number allowed (.assign location op target value) := by
  refine .of_expression (enclosed_append _ _) (.inl rfl) rfl fun location state t rest here => ?_
  rw [Node.unparse, List.append_assoc] at here
  refine meets_then (enclosed_found first rfl here) ?_
  rintro found state₁ ⟨here₁, same₁⟩
  rw [meets_current, here₁.kind]
  refine meets_advance.2 (meets_then (expression_found second rfl here₁.advanced) ?_)
  rintro found' state₂ ⟨here₂, same₂⟩
  exact ⟨here₂, by simp [Node.bare, same₁, same₂]⟩

/-- A step that stands alone yields nothing. -/
theorem adjust_readable {direction : Direction} (h : Readable input number true target) :
    ReadableStatement input number allowed (.adjust location .statement target direction) := by
  refine .of_expression (enclosed_append _ _) (.inl rfl) rfl fun location state t rest here => ?_
  have step : Readable input number false (.adjust location .after target direction) :=
    after_readable h false
  refine meets_then (expression_found step rfl here) ?_
  rintro found state₁ ⟨here₁, same⟩
  rw [meets_current, here₁.kind]
  -- what was found is only known up to locations, but that is enough to see its constructor
  cases found with
  | adjust _ kind inner found =>
      simp only [Node.bare, Node.adjust.injEq, true_and] at same
      obtain ⟨-, same, rfl⟩ := same
      exact ⟨here₁, by simp [Node.bare, same]⟩
  | _ => cases same

/-- A call is read back as a statement. -/
theorem discard_readable (effect : Grammar.Effect value) (h : ReadableOperand input number value)
    (begins : ∃ k kinds, value.unparse = k :: kinds ∧
      ((∃ name, k = .identifier name) ∨ k = .keyword .newKw)) :
    ReadableStatement input number allowed (.discard location value) := by
  obtain ⟨k, kinds, written, starts⟩ := begins
  refine .of_expression written (.inr starts) rfl fun start state t rest here => ?_
  refine meets_then (expression_found (h.readable false) rfl here) ?_
  rintro found state₁ ⟨here₁, same⟩
  rw [meets_current, here₁.kind]
  have whole : Found input number allowed t (.semicolon :: rest) (.discard location value)
      (.discard start found) state₁ := ⟨here₁, by simp [Node.bare, same]⟩
  cases value with
  | call | staticCall | chain =>
      cases found with
      | call | staticCall | chain => exact whole
      | _ => cases same
  | _ => cases effect

/-! ### simple statements -/

/-- A return statement without a value ends before its semicolon. -/
theorem returns_none_readable :
    ReadableStatement input number allowed (.returns location none) := by
  refine .of_token rfl rfl fun fuel token state t rest kind here _ _ => ?_
  unfold statementFrom
  rw [kind]
  have nothing : Meets Never (returnValue input) state fun found state' =>
      found = none ∧ state' = state := by
    unfold returnValue
    rw [meets_current, Input.At.kind here]
    exact ⟨rfl, rfl⟩
  refine meets_then nothing ?_
  rintro _ _ ⟨rfl, rfl⟩
  exact ⟨here, rfl⟩

/-- A break is read back where it is allowed. -/
theorem leave_readable (may : allowed.leave = true) :
    ReadableStatement input number allowed (.leave location) := by
  refine .of_token rfl rfl fun fuel token state t rest kind here _ _ => ?_
  unfold statementFrom
  rw [kind]
  dsimp only
  rw [meets_allowed, here.allowed, if_pos may]
  exact ⟨here, rfl⟩

/-- A continue is read back where it is allowed. -/
theorem proceed_readable (may : allowed.proceed = true) :
    ReadableStatement input number allowed (.proceed location) := by
  refine .of_token rfl rfl fun fuel token state t rest kind here _ _ => ?_
  unfold statementFrom
  rw [kind]
  dsimp only
  rw [meets_allowed, here.allowed, if_pos may]
  exact ⟨here, rfl⟩

theorem back_readable : ReadableStatement input number allowed (.back location) := by
  refine .of_token rfl rfl fun fuel token state t rest kind here _ _ => ?_
  unfold statementFrom
  rw [kind]
  exact ⟨here, rfl⟩

/-- The name of a label is written as a string. -/
theorem labelName_found {name : String} (here : input.At state allowed t (.string name :: kinds)) :
    Meets failed (labelName input) state fun found state' =>
      found = name ∧ input.At state' allowed t kinds := by
  refine meets_next_at here fun token state₁ kind here₁ => ?_
  rw [kind]
  exact ⟨rfl, here₁⟩

theorem jump_readable {name : String} :
    ReadableStatement input number allowed (.jump location name) := by
  refine .of_token rfl rfl fun fuel token state t rest kind here _ _ => ?_
  unfold statementFrom
  rw [kind]
  refine meets_then (labelName_found here) ?_
  rintro _ state₁ ⟨rfl, here₁⟩
  exact ⟨here₁, rfl⟩

theorem callLabel_readable {name : String} :
    ReadableStatement input number allowed (.callLabel location name) := by
  refine .of_token rfl rfl fun fuel token state t rest kind here _ _ => ?_
  unfold statementFrom
  rw [kind]
  refine meets_then (labelName_found here) ?_
  rintro _ state₁ ⟨rfl, here₁⟩
  exact ⟨here₁, rfl⟩

/-- The value of a return statement begins with a token that opens an expression. -/
theorem returnValue_found (h : Readable input number true value)
    (opens : ∃ k kinds, value.unparse = k :: kinds ∧ k.opens = true)
    (here : input.At state allowed t (value.unparse ++ .semicolon :: rest)) :
    Meets Never (returnValue input) state fun found state' =>
      ∃ node, found = some node ∧
        Found input number allowed t (.semicolon :: rest) value node state' := by
  have read : Meets Never ((do return some (← expression true) : Parse (Option Node)) input) state
      fun found state' => ∃ node, found = some node ∧
        Found input number allowed t (.semicolon :: rest) value node state' :=
    meets_then (expression_found h rfl here) fun node state₁ good => ⟨node, rfl, good⟩
  obtain ⟨k, kinds, written, first⟩ := opens
  rw [written, List.cons_append] at here
  unfold returnValue
  rw [meets_current, here.kind]
  cases k with
  | semicolon | braceClose | eof => cases first
  | _ => exact read

/-- A return statement with a value is read back. -/
theorem returns_some_readable (h : Readable input number true value)
    (opens : ∃ k kinds, value.unparse = k :: kinds ∧ k.opens = true) :
    ReadableStatement input number allowed (.returns location (some value)) := by
  refine .of_token rfl rfl fun fuel token state t rest kind here _ _ => ?_
  unfold statementFrom
  rw [kind]
  refine meets_then (returnValue_found h opens here) ?_
  rintro _ state₁ ⟨found, rfl, here₁, same⟩
  exact ⟨here₁, by simp [Node.bare, bareOptional, same]⟩

/-- The rest of a directive whose name has been read. -/
theorem directiveRule_found {x : Parse Node} {start : Location} {name : String} {token : Token}
    (host : input.environment.hostDirectives = [])
    (known : ∃ rule, input.environment.directive? name = some rule)
    (here : input.At state allowed t kinds) :
    Meets Never ((do
      match (← environment).directive? name with
      | none => fail token.location (.invalidDirective name)
      | some rule =>
        let (code, statements) ← directiveBody x token rule
        record (.directive name start)
        return .directive start name code statements : Parse Node) input) state
      (Found input number allowed t kinds (.directive location name [] [])) := by
  have marker := Environment.directive?_of_plain host name
  rw [meets_environment]
  split at marker
  · rw [marker]
    exact ⟨⟨here.allowed, here.functions, here.kinds⟩, rfl⟩
  · obtain ⟨rule, found⟩ := known
    rw [marker] at found
    cases found

/-- Without rules of the host, a directive is nothing but its name. -/
theorem directive_readable {name : String} (host : input.environment.hostDirectives = [])
    (known : ∃ rule, input.environment.directive? name = some rule) :
    ReadableStatement input number allowed (.directive location name [] []) := by
  refine .of_token rfl rfl fun fuel token state t rest kind here _ _ => ?_
  unfold statementFrom
  rw [kind]
  refine meets_next_at here fun token₁ state₁ kind₁ here₁ => ?_
  unfold TokenKind.ofWord at kind₁
  split at kind₁
  next word found =>
    obtain rfl : word.text = name := by simpa using List.find?_some found
    rw [kind₁]
    exact directiveRule_found host known here₁
  next =>
    rw [kind₁]
    exact directiveRule_found host known here₁

/-! ### conditions and loops -/

/-- The other branch is not there, since a block ends the statement before it. -/
theorem branch_none_readable {accepted : Node} (test : Readable input number true condition)
    (first : ReadableStatement input number allowed accepted) :
    ReadableStatement input number allowed (.branch location condition accepted none) := by
  refine .of_token rfl rfl fun fuel token state t rest kind here enough admits => ?_
  unfold statementFrom
  rw [kind]
  simp only [unparseElse, List.append_assoc, List.cons_append, List.nil_append] at here
  simp only [Node.definitions, definitionsOfOptional, List.append_nil] at admits
  refine meets_then (condition_found test (first.begins.append _) here) ?_
  rintro condition' state₁ ⟨here₁, same₁⟩
  have less := here.left_lt here₁ (by
    simp only [List.length_append, List.length_cons, length_enclosed]; omega)
  refine meets_then (first.reads fuel here₁ (by omega) admits) ?_
  rintro accepted' state₂ ⟨here₂, same₂⟩
  refine meets_decline_at here₂ (by simp) ⟨?_, by simp [Node.bare, bareOptional, same₁, same₂]⟩
  simpa [Node.definitions, definitionsOfOptional] using here₂

/-- Both branches are read back, each in its own block. -/
theorem branch_some_readable {accepted otherwise : Node}
    (test : Readable input number true condition)
    (first : ReadableStatement input number allowed accepted)
    (second : ReadableStatement input number allowed otherwise) :
    ReadableStatement input number allowed
      (.branch location condition accepted (some otherwise)) := by
  refine .of_token rfl rfl fun fuel token state t rest kind here enough admits => ?_
  unfold statementFrom
  rw [kind]
  simp only [unparseElse, List.append_assoc, List.cons_append, List.nil_append] at here
  obtain ⟨admits₁, admits₂⟩ := admits_append.1 admits
  refine meets_then (condition_found test (first.begins.append _) here) ?_
  rintro condition' state₁ ⟨here₁, same₁⟩
  have less₁ := here.left_lt here₁ (by
    simp only [List.length_append, List.length_cons, length_enclosed]; omega)
  refine meets_then (first.reads fuel here₁ (by omega) admits₁) ?_
  rintro accepted' state₂ ⟨here₂, same₂⟩
  refine meets_accept_at here₂ fun state₃ here₃ => ?_
  have less₃ := here.left_lt here₃ (by simp only [List.length_append, List.length_cons]; omega)
  refine meets_then (second.reads fuel here₃ (by omega) admits₂) ?_
  rintro otherwise' state₄ ⟨here₄, same₄⟩
  refine ⟨?_, by simp [Node.bare, bareOptional, same₁, same₂, same₄]⟩
  rwa [← FunctionTable.registerAll_append] at here₄

/-- A while loop is read back if its body is, as one of a loop. -/
theorem whileLoop_readable (test : Readable input number true condition)
    (first : ReadableStatement input number .loopBody body) :
    ReadableStatement input number allowed (.whileLoop location condition body) := by
  refine .of_token rfl rfl fun fuel token state t rest kind here enough admits => ?_
  unfold statementFrom
  rw [kind]
  simp only [List.append_assoc, List.cons_append, List.nil_append] at here
  refine meets_then (condition_found test (first.begins.append _) here) ?_
  rintro condition' state₁ ⟨here₁, same₁⟩
  have less := here.left_lt here₁ (by
    simp only [List.length_append, List.length_cons, length_enclosed]; omega)
  refine meets_then (first.within here₁ (by omega) admits) ?_
  rintro body' state₂ ⟨here₂, same₂⟩
  exact ⟨here₂, by simp [Node.bare, same₁, same₂]⟩

/-- A do loop is read back if its body is, as one of a loop. -/
theorem doLoop_readable (first : ReadableStatement input number .loopBody body)
    (test : Readable input number true condition) :
    ReadableStatement input number allowed (.doLoop location body condition) := by
  refine .of_token rfl rfl fun fuel token state t rest kind here enough admits => ?_
  unfold statementFrom
  rw [kind]
  simp only [List.append_assoc, List.cons_append] at here
  refine meets_then (first.within here enough admits) ?_
  rintro body' state₁ ⟨here₁, same₁⟩
  refine meets_expect_at here₁ fun _ state₂ here₂ => ?_
  refine meets_then (enclosed_found test rfl here₂) ?_
  rintro condition' state₃ ⟨here₃, same₃⟩
  exact ⟨here₃, by simp [Node.bare, same₁, same₃]⟩

/-- A for loop is read back if its parts are: the body as one of a loop, the last part as one where
only breaks are allowed. -/
theorem forLoop_readable {init post : Node} (before : ReadableStatement input number allowed init)
    (test : Readable input number true condition)
    (step : ReadableStatement input number .loopPost post)
    (first : ReadableStatement input number .loopBody body) :
    ReadableStatement input number allowed (.forLoop location init condition post body) := by
  refine .of_token rfl rfl fun fuel token state t rest kind here enough admits => ?_
  unfold statementFrom
  rw [kind]
  simp only [List.append_assoc, List.cons_append, List.nil_append] at here
  obtain ⟨admits, admits₃⟩ := admits_append.1 admits
  obtain ⟨admits₁, admits₂⟩ := admits_append.1 admits
  rw [FunctionTable.registerAll_append] at admits₃
  refine meets_accept_at here fun state₁ here₁ => ?_
  have less₁ := here.left_lt here₁ (by simp)
  refine meets_then (before.reads fuel here₁ (by omega) admits₁) ?_
  rintro init' state₂ ⟨here₂, same₂⟩
  refine meets_then (enclosed_found test rfl here₂) ?_
  rintro condition' state₃ ⟨here₃, same₃⟩
  refine meets_accept_at here₃ fun state₄ here₄ => ?_
  have less₄ := here.left_lt here₄ (by simp only [List.length_append, List.length_cons]; omega)
  refine meets_then (step.within here₄ (by omega) admits₂) ?_
  rintro post' state₅ ⟨here₅, same₅⟩
  refine meets_expect_at here₅ fun _ state₆ here₆ => ?_
  have less₆ := here.left_lt here₆ (by simp only [List.length_append, List.length_cons]; omega)
  refine meets_then (first.within here₆ (by omega) admits₃) ?_
  rintro body' state₇ ⟨here₇, same₇⟩
  rw [← FunctionTable.registerAll_append, ← FunctionTable.registerAll_append,
    ← List.append_assoc] at here₇
  exact ⟨here₇, by simp [Node.bare, same₂, same₃, same₅, same₇]⟩

/-- A label never stands before nothing when it is written. -/
theorem label_readable {name : String} (first : ReadableStatement input number allowed node) :
    ReadableStatement input number allowed (.label location name node) := by
  refine .of_token rfl rfl fun fuel token state t rest kind here enough admits => ?_
  unfold statementFrom
  rw [kind]
  simp only [List.append_assoc, List.cons_append, List.nil_append] at here
  refine meets_then (labelName_found here) ?_
  rintro name' state₁ ⟨rfl, here₁⟩
  refine meets_accept_at here₁ fun state₂ here₂ => ?_
  have less := here.left_lt here₂ (by simp only [List.length_append, List.length_cons]; omega)
  have read : Meets Never ((do return .label token.location name' (← statementAt fuel) :
      Parse Node) input) state₂ (Found input number allowed (t.registerAll node.definitions)
        (.semicolon :: rest) (.label location name' node)) :=
    meets_then (first.reads fuel here₂ (by omega) admits) fun found state₃ good =>
      ⟨good.here, by simp [Node.bare, good.same]⟩
  -- only before the end of a block or of the script does the reader make up a statement
  obtain ⟨k, kinds, written, begins⟩ := first.begins
  rw [written, List.cons_append] at here₂
  rw [meets_current, here₂.kind]
  cases k with
  | braceClose | eof => cases begins
  | _ => exact read

/-! ### blocks -/

/-- Statements one after the other, each found by `x`, up to what makes `item` stop. -/
theorem collect_found {item : Parse (Option Node)} {x : Parse Node} {bound : Nat}
    (more : ∀ ⦃state post⦄, (input.token state).kind.begins = true →
      Meets Never ((do return some (← x) : Parse (Option Node)) input) state post →
      Meets Never (item input) state post)
    (last : ∀ ⦃state t⦄, input.At state allowed t kinds →
      Meets Never (item input) state fun found state' =>
        found = none ∧ input.At state' allowed t rest)
    (all : ∀ node ∈ nodes, Begins node.unparse ∧ Recovers input number allowed bound x node)
    (here : input.At state allowed t (unparseAll nodes ++ kinds))
    (enough : input.left state < bound)
    (limited : input.left state < fuel)
    (admits : Admits input.environment number t (definitionsOf nodes)) :
    Meets Never (collect item fuel input) state fun found state' =>
      input.At state' allowed (t.registerAll (definitionsOf nodes)) rest ∧
        bareAll id found = bareAll number nodes := by
  -- the table of functions grows with every statement, so it is generalized with the state
  induction nodes generalizing state t fuel with
  | nil =>
      obtain ⟨fuel, rfl⟩ := Nat.exists_eq_add_one.2 (Nat.zero_lt_of_lt limited)
      refine meets_then (last here) ?_
      rintro _ state₁ ⟨rfl, here₁⟩
      exact ⟨here₁, rfl⟩
  | cons node nodes ih =>
      obtain ⟨fuel, rfl⟩ := Nat.exists_eq_add_one.2 (Nat.zero_lt_of_lt limited)
      obtain ⟨⟨⟨k, kinds', written, begins⟩, reads⟩, others⟩ := List.forall_mem_cons.1 all
      obtain ⟨admits₁, admits₂⟩ := admits_append.1 admits
      rw [unparseAll, List.append_assoc, List.cons_append] at here
      have first := here
      rw [written, List.cons_append] at first
      have one : Meets Never (item input) state fun found state' => ∃ found', found = some found' ∧
          Found input number allowed (t.registerAll node.definitions) (unparseAll nodes ++ kinds)
            node found' state' :=
        more (by rw [first.kind, begins]) (meets_then (reads here enough admits₁)
          fun found state₁ good => ⟨found, rfl, good⟩)
      refine meets_then one ?_
      rintro _ state₁ ⟨found, rfl, here₁, same₁⟩
      have less := here.left_lt here₁ (by simp only [List.length_append, List.length_cons]; omega)
      refine meets_then (ih others here₁ (by omega) (by omega) admits₂) ?_
      rintro found' state₂ ⟨here₂, same₂⟩
      rw [← FunctionTable.registerAll_append] at here₂
      exact ⟨here₂, by rw [bareAll, bareAll, same₁, same₂]⟩

/-- What the reader of nested statements makes of readable ones. -/
theorem recovers_of_readable (all : ∀ node ∈ nodes, ReadableStatement input number allowed node)
    (fuel : Nat) :
    ∀ node ∈ nodes, Begins node.unparse ∧
      Recovers input number allowed fuel (statementAt fuel) node :=
  fun node member => ⟨(all node member).begins, (all node member).reads fuel⟩

/-- A block goes on with a token that begins a statement. -/
theorem blockItem_more {x : Parse Node} {opening : Location}
    {post : Option Node → State → Prop} (begins : (input.token state).kind.begins = true)
    (h : Meets failed ((do return some (← x) : Parse (Option Node)) input) state post) :
    Meets failed (blockItem x opening input) state post := by
  unfold blockItem
  rw [meets_current]
  cases kind : (input.token state).kind with
  | braceClose | eof => simp [kind, TokenKind.begins] at begins
  | _ => exact h

/-- A block is read back statement by statement. -/
theorem block_readable (all : ∀ node ∈ nodes, ReadableStatement input number allowed node) :
    ReadableStatement input number allowed (.block location nodes) := by
  refine .of_token rfl rfl fun fuel token state t rest kind here enough admits => ?_
  unfold statementFrom
  rw [kind]
  rw [List.append_assoc] at here
  have last ⦃state' t'⦄ (there : input.At state' allowed t' ([.braceClose] ++ .semicolon :: rest)) :
      Meets Never (blockItem (statementAt fuel) token.location input) state'
        fun found state'' => found = none ∧ input.At state'' allowed t' (.semicolon :: rest) := by
    unfold blockItem
    rw [meets_current, Input.At.kind there]
    exact ⟨rfl, there.advanced⟩
  refine meets_then (meets_remaining.2 (collect_found (fun _ _ => blockItem_more) last
    (recovers_of_readable all fuel) here enough (Nat.lt_succ_self _) admits)) ?_
  rintro found state₁ ⟨here₁, same⟩
  exact ⟨here₁, by simp [Node.bare, same]⟩

/-! ### switches -/

/-- Whether a token ends the body of a case. -/
def endsCase : TokenKind → Bool
  | .keyword .caseKw | .keyword .defaultKw | .braceClose => true
  | _ => false

/-- The body of a case: a block whose statements can be read. -/
def ReadableBody (input : Input) (number : Nat → Nat) (allowed : Allowed) (body : Node) : Prop :=
  ∃ location nodes, body = .block location nodes ∧
    ∀ node ∈ nodes, ReadableStatement input number allowed node

/-- A case goes on with a token that begins a statement. -/
theorem caseItem_more {x : Parse Node} {switch : Location}
    {post : Option Node → State → Prop} (begins : (input.token state).kind.begins = true)
    (h : Meets failed ((do return some (← x) : Parse (Option Node)) input) state post) :
    Meets failed (caseItem x switch input) state post := by
  unfold caseItem
  rw [meets_current]
  cases kind : (input.token state).kind with
  | braceClose | eof => simp [kind, TokenKind.begins] at begins
  | keyword word =>
      cases word with
      | caseKw | defaultKw => simp [kind, TokenKind.begins] at begins
      | _ => exact h
  | _ => exact h

/-- A case ends before the next one or the end of the switch. -/
theorem caseItem_last {x : Parse Node} {switch : Location} (ends : endsCase k = true)
    (here : input.At state allowed t (k :: rest)) :
    Meets failed (caseItem x switch input) state fun found state' =>
      found = none ∧ input.At state' allowed t (k :: rest) := by
  unfold caseItem
  rw [meets_current, here.kind]
  cases k with
  | braceClose => exact ⟨rfl, here⟩
  | keyword word =>
      cases word with
      | caseKw | defaultKw => exact ⟨rfl, here⟩
      | _ => cases ends
  | _ => cases ends

/-- The body of a case is read back statement by statement. -/
theorem caseBody_found {switch start : Location} (first : ReadableBody input number allowed body)
    (ends : ∃ k rest, kinds = k :: rest ∧ endsCase k = true)
    (here : input.At state allowed t (body.unparseBody ++ kinds)) (enough : input.left state < fuel)
    (admits : Admits input.environment number t body.definitions) :
    Meets Never (caseBody (statementAt fuel) switch start input) state
      (Found input number allowed (t.registerAll body.definitions) kinds body) := by
  obtain ⟨location, nodes, rfl, all⟩ := first
  obtain ⟨k, rest, rfl, last⟩ := ends
  refine meets_then (meets_remaining.2 (collect_found (fun _ _ => caseItem_more)
    (fun _ _ => caseItem_last last) (recovers_of_readable all fuel) here enough
    (Nat.lt_succ_self _) admits)) ?_
  rintro found state₁ ⟨here₁, same⟩
  exact ⟨here₁, by simp [Node.bare, same]⟩

/-- What follows the body of a case ends it. -/
theorem cases_end (cases : List SwitchCase) (fallback : Option Node) (rest : List TokenKind) :
    ∃ k kinds, unparseCases cases ++ (unparseFallback fallback ++ .braceClose :: rest) =
      k :: kinds ∧ endsCase k = true := by
  cases cases with
  | cons c cases =>
      obtain ⟨value, body⟩ := c
      exact ⟨_, _, rfl, rfl⟩
  | nil =>
      cases fallback with
      | none => exact ⟨_, _, rfl, rfl⟩
      | some body => exact ⟨_, _, rfl, rfl⟩

/-- The cases end with a brace. -/
theorem casesFrom_end {switch : Location} {fallback : Option Node} (enough : 0 < fuel)
    {x : Parse Node} (here : input.At state allowed t (.braceClose :: rest)) :
    Meets failed (casesFrom x switch fuel fallback input) state fun found state' =>
      found = ([], fallback) ∧ input.At state' allowed t rest := by
  obtain ⟨fuel, rfl⟩ := Nat.exists_eq_add_one.2 (Nat.zero_lt_of_lt enough)
  refine meets_next_at here fun token state₁ kind here₁ => ?_
  rw [kind]
  exact ⟨rfl, here₁⟩

/-- The cases and the default behind them.  Before the default is read no other is known. -/
theorem casesFrom_found {switch : Location} {cases : List SwitchCase} {fallback : Option Node}
    {limit : Nat}
    (all : ∀ c ∈ cases, Readable input number true c.value ∧
      ReadableBody input number allowed c.body)
    (last : ∀ body ∈ fallback, ReadableBody input number allowed body)
    (here : input.At state allowed t
      (unparseCases cases ++ (unparseFallback fallback ++ .braceClose :: rest)))
    (enough : input.left state < fuel) (limited : input.left state < limit)
    (admits : Admits input.environment number t
      (definitionsOfCases cases ++ definitionsOfOptional fallback)) :
    Meets Never (casesFrom (statementAt fuel) switch limit none input) state
      fun found state' =>
        input.At state' allowed
          (t.registerAll (definitionsOfCases cases ++ definitionsOfOptional fallback)) rest ∧
        bareCases id found.1 = bareCases number cases ∧
        bareOptional id found.2 = bareOptional number fallback := by
  induction cases generalizing state t limit with
  | nil =>
      cases fallback with
      | none =>
          refine (casesFrom_end (by omega) here).imp ?_
          rintro _ state₁ ⟨rfl, here₁⟩
          exact ⟨here₁, rfl, rfl⟩
      | some body =>
          obtain ⟨limit, rfl⟩ := Nat.exists_eq_add_one.2 (Nat.zero_lt_of_lt limited)
          simp only [unparseCases, unparseFallback, List.cons_append, List.nil_append] at here
          refine meets_next_at here fun token state₁ kind here₁ => ?_
          rw [kind]
          refine meets_expect_at here₁ fun _ state₂ here₂ => ?_
          have less₂ := here.left_lt here₂ (by simp only [List.length_cons]; omega)
          refine meets_then (caseBody_found (last body rfl) ⟨_, _, rfl, rfl⟩ here₂ (by omega)
            admits) ?_
          rintro found state₃ ⟨here₃, same₃⟩
          refine (casesFrom_end (by omega) here₃).imp ?_
          rintro _ state₄ ⟨rfl, here₄⟩
          exact ⟨here₄, rfl, by simp [bareOptional, same₃]⟩
  | cons c cases ih =>
      obtain ⟨value, body⟩ := c
      obtain ⟨⟨first, block⟩, others⟩ := List.forall_mem_cons.1 all
      obtain ⟨limit, rfl⟩ := Nat.exists_eq_add_one.2 (Nat.zero_lt_of_lt limited)
      rw [definitionsOfCases, List.append_assoc] at admits ⊢
      obtain ⟨admits₁, admits₂⟩ := admits_append.1 admits
      simp only [unparseCases, List.cons_append, List.append_assoc] at here
      refine meets_next_at here fun token state₁ kind here₁ => ?_
      rw [kind]
      refine meets_then (enclosed_found first rfl here₁) ?_
      rintro value' state₂ ⟨here₂, same₂⟩
      refine meets_expect_at here₂ fun _ state₃ here₃ => ?_
      have less₃ := here.left_lt here₃ (by simp only [List.length_append, List.length_cons]; omega)
      refine meets_then (caseBody_found block (cases_end _ _ _) here₃ (by omega) admits₁) ?_
      rintro body' state₄ ⟨here₄, same₄⟩
      have less₄ := here.left_lt here₄ (by simp only [List.length_append, List.length_cons]; omega)
      refine meets_then (ih others here₄ (by omega) (by omega) admits₂) ?_
      rintro ⟨cases', fallback'⟩ state₅ ⟨here₅, same₅, same₆⟩
      rw [← FunctionTable.registerAll_append] at here₅
      exact ⟨here₅, by simp only [bareCases, same₂, same₄, same₅, SwitchCase.value,
        SwitchCase.body], same₆⟩

/-- The cases are found where they say whether a break is allowed, which is put back behind them. -/
theorem inCases_found {switch : Location} {kind : SwitchKind} {cases : List SwitchCase}
    {fallback : Option Node} {limit : Nat}
    (all : ∀ c ∈ cases, Readable input number true c.value ∧
      ReadableBody input number (allowed.cases kind) c.body)
    (last : ∀ body ∈ fallback, ReadableBody input number (allowed.cases kind) body)
    (here : input.At state allowed t
      (unparseCases cases ++ (unparseFallback fallback ++ .braceClose :: rest)))
    (enough : input.left state < fuel) (limited : input.left state < limit)
    (admits : Admits input.environment number t
      (definitionsOfCases cases ++ definitionsOfOptional fallback)) :
    Meets Never (inCases kind (casesFrom (statementAt fuel) switch limit none) input) state
      fun found state' =>
        input.At state' allowed
          (t.registerAll (definitionsOfCases cases ++ definitionsOfOptional fallback)) rest ∧
        bareCases id found.1 = bareCases number cases ∧
        bareOptional id found.2 = bareOptional number fallback := by
  have inside : input.At { state with allowed := state.allowed.cases kind } (allowed.cases kind) t
      (unparseCases cases ++ (unparseFallback fallback ++ .braceClose :: rest)) :=
    ⟨by rw [here.allowed], here.functions, here.kinds⟩
  refine bracket_meets ((casesFrom_found all last inside enough limited admits).imp ?_)
  rintro found state' ⟨there, same⟩
  have back : { state'.allowed with leave := state.allowed.leave } = allowed := by
    rw [there.allowed, here.allowed]
    rfl
  exact ⟨⟨back, there.functions, there.kinds⟩, same⟩

/-- A switch is read back if its bodies are, where breaks are as its kind says. -/
theorem switch_readable {kind : SwitchKind} {cases : List SwitchCase} {fallback : Option Node}
    (subject : Readable input number true value)
    (all : ∀ c ∈ cases, Readable input number true c.value ∧
      ReadableBody input number (allowed.cases kind) c.body)
    (last : ∀ body ∈ fallback, ReadableBody input number (allowed.cases kind) body) :
    ReadableStatement input number allowed (.switch location kind value cases fallback) := by
  have found (fuel : Nat) (start : Location) (state : State) (t : FunctionTable)
      (rest : List TokenKind)
      (here : input.At state allowed t (value.unparse ++ .braceOpen ::
        (unparseCases cases ++ unparseFallback fallback ++ [.braceClose]) ++ .semicolon :: rest))
      (enough : input.left state < fuel)
      (admits : Admits input.environment number t
        (definitionsOfCases cases ++ definitionsOfOptional fallback)) :
      Meets Never (switch (statementAt fuel) start kind input) state
        (Found input number allowed
          (t.registerAll (definitionsOfCases cases ++ definitionsOfOptional fallback))
          (.semicolon :: rest) (.switch location kind value cases fallback)) := by
    simp only [List.append_assoc, List.cons_append, List.nil_append] at here
    refine meets_then (expression_found subject rfl here) ?_
    rintro value' state₁ ⟨here₁, same₁⟩
    refine meets_expect_at here₁ fun _ state₂ here₂ => ?_
    have less := here.left_lt here₂ (by simp only [List.length_append, List.length_cons]; omega)
    refine meets_remaining.2 (meets_then (inCases_found all last here₂ (by omega)
      (Nat.lt_succ_self _) admits) ?_)
    rintro ⟨cases', fallback'⟩ state₃ ⟨here₃, same₃, same₄⟩
    exact ⟨here₃, by simp only [Node.bare, same₁, same₃, same₄]⟩
  refine .of_token rfl (by cases kind <;> rfl)
    fun fuel token state t rest first here enough admits => ?_
  unfold statementFrom
  rw [first]
  cases kind with
  | switch => exact found fuel _ state t rest here enough admits
  | select => exact found fuel _ state t rest here enough admits

/-! ### functions -/

/-- Parameters are read back one by one, since they are distinct. -/
theorem parametersFrom_found {function parameter : String} {before parameters : List String}
    {limit : Nat} (distinct : (before ++ parameter :: parameters).Nodup)
    (here : input.At state allowed t (List.intercalate [.comma]
      ((parameter :: parameters).map ([.identifier ·])) ++ .parenClose :: kinds))
    (limited : input.left state < limit) :
    Meets failed (parametersFrom function limit before input) state fun found state' =>
      found = before ++ parameter :: parameters ∧ input.At state' allowed t kinds := by
  induction parameters generalizing before parameter state limit with
  | nil =>
      obtain ⟨limit, rfl⟩ := Nat.exists_eq_add_one.2 (Nat.zero_lt_of_lt limited)
      refine meets_next_at here fun token state₁ kind here₁ => ?_
      rw [kind]
      dsimp only
      rw [if_neg (not_mem_of_nodup_append_cons distinct)]
      refine meets_next_at here₁ fun token₁ state₂ kind₁ here₂ => ?_
      rw [kind₁]
      exact ⟨rfl, here₂⟩
  | cons second parameters ih =>
      obtain ⟨limit, rfl⟩ := Nat.exists_eq_add_one.2 (Nat.zero_lt_of_lt limited)
      rw [List.map_cons, List.map_cons, List.intercalate_cons_cons, List.append_assoc,
        List.append_assoc] at here
      refine meets_next_at here fun token state₁ kind here₁ => ?_
      rw [kind]
      dsimp only
      rw [if_neg (not_mem_of_nodup_append_cons distinct)]
      refine meets_next_at here₁ fun token₁ state₂ kind₁ here₂ => ?_
      rw [kind₁]
      have less := here.left_lt here₂ (by simp)
      rw [List.append_cons] at distinct
      refine (ih distinct here₂ (by omega)).imp ?_
      rintro _ state₃ ⟨rfl, here₃⟩
      exact ⟨(List.append_cons ..).symm, here₃⟩

/-- The parameters of a function are read back. -/
theorem parameters_found {function : String} {parameters : List String}
    (distinct : parameters.Nodup)
    (here : input.At state allowed t (listed (parameters.map ([.identifier ·])) ++ kinds)) :
    Meets failed (Parse.parameters function input) state fun found state' =>
      found = parameters ∧ input.At state' allowed t kinds := by
  rw [listed_append] at here
  refine meets_expect_at here fun _ state₁ here₁ => ?_
  cases parameters with
  | nil => exact meets_accept_at here₁ fun state₂ here₂ => ⟨rfl, here₂⟩
  | cons parameter parameters =>
      have kind : (input.token state₁).kind = .identifier parameter := by
        cases parameters with
        | nil => exact here₁.kind
        | cons => exact here₁.kind
      rw [meets_accept, if_neg (by simp [kind])]
      exact meets_remaining.2 (parametersFrom_found distinct here₁ (Nat.lt_succ_self _))

/-- A function whose name is free is registered with the next id. -/
theorem register_found {name : String} {parameters : List String} {start : Location}
    (free : rival? input.environment t name parameters.length = none)
    (here : input.At state allowed t kinds) :
    Meets failed (register name parameters start input) state fun id state' =>
      id = t.size ∧ input.At state' allowed (t.register name parameters) kinds := by
  obtain ⟨allowed, rfl, kinds⟩ := here
  unfold register
  rw [meets_get, meets_environment, free]
  exact ⟨rfl, allowed, rfl, kinds⟩

/-- A function is registered behind its body, under the next id. -/
theorem function_readable {id : Nat} {name : String} {parameters : List String}
    (distinct : parameters.Nodup) (block : Grammar.Block body)
    (first : ReadableStatement input number .nowhere body) :
    ReadableStatement input number allowed (.function location id name parameters body) := by
  refine .of_token rfl rfl fun fuel token state t rest kind here enough admits => ?_
  unfold statementFrom
  rw [kind]
  simp only [List.append_assoc, List.cons_append, List.nil_append] at here
  obtain ⟨admits₁, free, numbered, -⟩ := admits_append.1 admits
  refine meets_next_at here fun token₁ state₁ kind₁ here₁ => ?_
  rw [kind₁]
  refine meets_then (parameters_found distinct here₁) ?_
  rintro _ state₂ ⟨rfl, here₂⟩
  have opening : (input.token state₂).kind = .braceOpen := by
    cases body with
    | block => exact here₂.kind
    | _ => cases block
  rw [meets_current]
  dsimp only
  rw [if_neg (by simp [opening])]
  have less := here.left_lt here₂ (by simp only [List.length_append, List.length_cons]; omega)
  refine meets_then (first.within here₂ (by omega) admits₁) ?_
  rintro body' state₃ ⟨here₃, same⟩
  refine meets_then (register_found free here₃) ?_
  rintro _ state₄ ⟨rfl, here₄⟩
  refine ⟨?_, by simp [Node.bare, same, numbered]⟩
  rw [Node.definitions, FunctionTable.registerAll_append]
  exact here₄

end statements

/-! ### all statements -/

/-- Calls and chains are read as one operand. -/
theorem effect_readable : (node : Node) → Grammar.Effect node →
    Grammar.Expression input.environment node → ReadableOperand input number node
  | .call _ _ arguments, _, h => (call_head (expressions_readable arguments h)).operand
  | .staticCall _ _ _ arguments, _, h =>
    (staticCall_head h.1 (expressions_readable arguments h.2)).operand
  | .chain _ current remaining, _, h =>
    chain_readable (head_readable current h.1 h.2.1) h.1 (links_readable remaining h.2.2)

mutual

/-- What is written as a statement is read as that statement. -/
theorem statement_readable (host : input.environment.hostDirectives = []) :
    (node : Node) → (allowed : Allowed) → Grammar.Statement input.environment allowed node →
    ReadableStatement input number allowed node
  | .block _ statements, allowed, h =>
    block_readable (statements_readable host statements allowed h)
  | .returns _ none, _, _ => returns_none_readable
  | .returns _ (some value), _, h =>
    returns_some_readable (expression_readable value h) (Grammar.Expression.opens h)
  | .discard _ value, _, h => discard_readable h.1 (effect_readable value h.1 h.2) (h.1.begins h.2)
  | .branch _ condition accepted none, allowed, h =>
    branch_none_readable (expression_readable condition h.1)
      (statement_readable host accepted allowed h.2.1)
  | .branch _ condition accepted (some otherwise), allowed, h =>
    branch_some_readable (expression_readable condition h.1)
      (statement_readable host accepted allowed h.2.1)
      (statement_readable host otherwise allowed h.2.2)
  | .switch _ kind value cases none, allowed, h =>
    switch_readable (expression_readable value h.1)
      (cases_readable host cases (allowed.cases kind) h.2.1) (by simp)
  | .switch _ kind value cases (some body), allowed, h =>
    switch_readable (expression_readable value h.1)
      (cases_readable host cases (allowed.cases kind) h.2.1)
      (by simpa using body_readable host body (allowed.cases kind) (h.2.2.1 body rfl) h.2.2.2)
  | .assign _ _ target value, _, h =>
    assign_readable (expression_readable target h.1) (expression_readable value h.2)
  | .adjust _ .statement target _, _, h => adjust_readable (expression_readable target h.2)
  | .whileLoop _ condition body, _, h =>
    whileLoop_readable (expression_readable condition h.1)
      (statement_readable host body .loopBody h.2)
  | .doLoop _ body condition, _, h =>
    doLoop_readable (statement_readable host body .loopBody h.1)
      (expression_readable condition h.2)
  | .forLoop _ init condition post body, allowed, h =>
    forLoop_readable (statement_readable host init allowed h.1)
      (expression_readable condition h.2.1) (statement_readable host post .loopPost h.2.2.1)
      (statement_readable host body .loopBody h.2.2.2)
  | .leave _, _, h => leave_readable h
  | .proceed _, _, h => proceed_readable h
  | .label _ _ statement, allowed, h =>
    label_readable (statement_readable host statement allowed h)
  | .jump .., _, _ => jump_readable
  | .callLabel .., _, _ => callLabel_readable
  | .back _, _, _ => back_readable
  | .directive _ _ _ _, _, ⟨known, rfl, rfl⟩ => directive_readable host known
  | .function _ _ _ _ body, _, h =>
    function_readable h.1 h.2.1 (statement_readable host body .nowhere h.2.2)

/-- All statements of a list can be read back. -/
theorem statements_readable (host : input.environment.hostDirectives = []) :
    (nodes : List Node) → (allowed : Allowed) →
    Grammar.Statements input.environment allowed nodes →
    ∀ node ∈ nodes, ReadableStatement input number allowed node
  | [], _, _ => by simp
  | node :: nodes, allowed, h =>
    List.forall_mem_cons.2
      ⟨statement_readable host node allowed h.1, statements_readable host nodes allowed h.2⟩

/-- All cases of a switch can be read back. -/
theorem cases_readable (host : input.environment.hostDirectives = []) :
    (cases : List SwitchCase) → (allowed : Allowed) →
    Grammar.Cases input.environment allowed cases →
    ∀ c ∈ cases, Readable input number true c.value ∧ ReadableBody input number allowed c.body
  | [], _, _ => by simp
  | .mk value body :: cases, allowed, h =>
    List.forall_mem_cons.2
      ⟨⟨expression_readable value h.1, body_readable host body allowed h.2.1 h.2.2.1⟩,
        cases_readable host cases allowed h.2.2.2⟩

/-- Every block can be read back as the body of a case. -/
theorem body_readable (host : input.environment.hostDirectives = []) :
    (body : Node) → (allowed : Allowed) → Grammar.Block body →
    Grammar.Statement input.environment allowed body → ReadableBody input number allowed body
  | .block location statements, allowed, _, h =>
    ⟨location, statements, rfl, statements_readable host statements allowed h⟩

end

/-! ## scripts -/

/-- A script goes on with a token that begins a statement. -/
theorem scriptItem_more {post : Option Node → State → Prop}
    (begins : (input.token state).kind.begins = true)
    (h : Meets failed ((do return some (← statement) : Parse (Option Node)) input) state post) :
    Meets failed (scriptItem input) state post := by
  unfold scriptItem
  rw [meets_current]
  cases kind : (input.token state).kind with
  | eof => simp [kind, TokenKind.begins] at begins
  | _ => exact h

/-- A script is found where it is written. -/
theorem script_found {body : Node} (first : ReadableBody input number .nowhere body)
    (here : input.At state allowed t (body.unparseBody ++ [.eof]))
    (admits : Admits input.environment number t body.definitions) :
    Meets Never (script input) state fun found _ => found.bare id = body.bare number := by
  obtain ⟨location, nodes, rfl, all⟩ := first
  have recovers : ∀ node ∈ nodes, Begins node.unparse ∧
      Recovers input number .nowhere (input.left state + 1) statement node := by
    intro node member
    refine ⟨(all node member).begins, fun state' t' rest there _ admits' => ?_⟩
    exact meets_remaining.2 ((all node member).reads _ there (Nat.lt_succ_self _) admits')
  have last ⦃state' t'⦄ (there : input.At state' .nowhere t' [.eof]) :
      Meets Never (scriptItem input) state' fun found state'' =>
        found = none ∧ input.At state'' .nowhere t' [.eof] := by
    unfold scriptItem
    rw [meets_current, there.kind]
    exact ⟨rfl, there⟩
  have outside : input.At { state with allowed := .nowhere } .nowhere t
      (unparseAll nodes ++ [.eof]) := ⟨rfl, here.functions, here.kinds⟩
  unfold script
  rw [meets_modify, meets_current]
  refine meets_then (meets_remaining.2 (collect_found (fun _ _ => scriptItem_more) last recovers
    outside (Nat.lt_succ_self _) (Nat.lt_succ_self _) admits)) ?_
  rintro found state₁ ⟨-, same⟩
  show (Node.block _ found).bare id = _
  simp [Node.bare, same]

end Parse

end HostScript
