import HostScript.Proofs.Definitions
import HostScript.Proofs.Precedence
import HostScript.Proofs.Reading

/-!
# HostScript.Proofs.Grammar

What the trees look like that come of reading a script.  `Grammar.Expression` and
`Grammar.Statement` follow the rules of the readers more closely than `IsExpression` and
`IsStatement` do: what a chain can start with, which static calls can be written, where a block has
to stand.  They speak of the environment, since templates and directives are known by name.

Every successful run of a reader gives such a tree, and registers the functions that the tree
defines.
-/

namespace HostScript

namespace Grammar

/-! ## the grammar -/

/-- A static call that can be written: its template is known, and if it is the one that `new` stands
for, the template has a constructor with as many parameters. -/
def StaticCall (env : Environment) (template name : String) (argc : Nat) : Prop :=
  ∃ t, env.template? template = some t ∧
    (name = Template.constructor → (t.staticFunction? name argc).isSome)

/-- What a chain starts with.  Behind the name of a template a point would make a static call. -/
def Head (env : Environment) : Node → Prop
  | .identifier _ name => env.template? name = none
  | .call .. | .staticCall .. => True
  | _ => False

/-- An expression that is a statement when a semicolon follows. -/
def Effect : Node → Prop
  | .call .. | .staticCall .. | .chain .. => True
  | _ => False

mutual

def Expression (env : Environment) : Node → Prop
  | .null _ | .number .. | .string .. | .identifier .. => True
  | .chain _ current remaining => Head env current ∧ Expression env current ∧ Links env remaining
  | .call _ _ arguments => Expressions env arguments
  | .staticCall _ template name arguments =>
    StaticCall env template name arguments.length ∧ Expressions env arguments
  | .unary _ _ operand => Expression env operand
  | .binary _ _ left right => Expression env left ∧ Expression env right
  | .adjust _ kind target _ => kind ≠ .statement ∧ Expression env target
  | _ => False

def Expressions (env : Environment) : List Node → Prop
  | [] => True
  | node :: nodes => Expression env node ∧ Expressions env nodes

/-- A field or an instance call. -/
def Link (env : Environment) : Node → Prop
  | .identifier .. => True
  | .call _ _ arguments => Expressions env arguments
  | _ => False

/-- The links of a chain behind its first point. -/
def Links (env : Environment) : Node → Prop
  | .chain _ current remaining => Link env current ∧ Links env remaining
  | .identifier .. => True
  | .call _ _ arguments => Expressions env arguments
  | _ => False

end

/-- The bodies of functions and cases are blocks. -/
def Block : Node → Prop
  | .block .. => True
  | _ => False

mutual

/-- A statement at a place where `allowed` says what it may do. -/
def Statement (env : Environment) (allowed : Allowed) : Node → Prop
  | .block _ statements => Statements env allowed statements
  | .returns _ none => True
  | .returns _ (some value) => Expression env value
  | .discard _ value => Effect value ∧ Expression env value
  | .branch _ condition accepted otherwise =>
    Expression env condition ∧ Statement env allowed accepted ∧ Otherwise env allowed otherwise
  | .switch _ kind value cases fallback =>
    Expression env value ∧ Cases env (allowed.cases kind) cases ∧
      (∀ body ∈ fallback, Block body) ∧ Otherwise env (allowed.cases kind) fallback
  | .assign _ _ target value => Expression env target ∧ Expression env value
  | .adjust _ kind target _ => kind = .statement ∧ Expression env target
  | .whileLoop _ condition body => Expression env condition ∧ Statement env .loopBody body
  | .doLoop _ body condition => Statement env .loopBody body ∧ Expression env condition
  | .forLoop _ init condition post body =>
    Statement env allowed init ∧ Expression env condition ∧ Statement env .loopPost post ∧
      Statement env .loopBody body
  | .leave _ => allowed.leave = true
  | .proceed _ => allowed.proceed = true
  | .label _ _ statement => Statement env allowed statement
  | .jump .. | .callLabel .. | .back _ => True
  | .directive _ name code statements =>
    (∃ rule, env.directive? name = some rule) ∧ code = [] ∧ statements = []
  | .function _ _ _ parameters body =>
    parameters.Nodup ∧ Block body ∧ Statement env .nowhere body
  | _ => False

def Statements (env : Environment) (allowed : Allowed) : List Node → Prop
  | [] => True
  | node :: nodes => Statement env allowed node ∧ Statements env allowed nodes

def Otherwise (env : Environment) (allowed : Allowed) : Option Node → Prop
  | none => True
  | some node => Statement env allowed node

def Cases (env : Environment) (allowed : Allowed) : List SwitchCase → Prop
  | [] => True
  | .mk value body :: cases =>
    Expression env value ∧ Block body ∧ Statement env allowed body ∧ Cases env allowed cases

end

end Grammar

/-- Without rules of the host, all directives are nothing but their names. -/
theorem Environment.directive?_of_plain {env : Environment} (host : env.hostDirectives = [])
    (name : String) :
    env.directive? name = if name ∈ env.directives then some .marker else none := by
  unfold Environment.directive?
  rw [host]
  rfl

namespace Parse

variable {α β : Type} {input : Input} {state : State} {failed : CompileError → Prop}

/-- One state has the functions of the other, and allows the same. -/
structure State.Same (state' state : State) : Prop where
  functions : state'.functions = state.functions
  allowed : state'.allowed = state.allowed

theorem State.Same.refl (state : State) : state.Same state := ⟨rfl, rfl⟩

theorem State.Same.trans {state state₁ state₂ : State} (second : state₂.Same state₁)
    (first : state₁.Same state) : state₂.Same state :=
  ⟨second.functions.trans first.functions, second.allowed.trans first.allowed⟩

/-- Moving on leaves the table and the flags. -/
theorem Input.same_advanced (input : Input) (state : State) : (input.advanced state).Same state :=
  ⟨input.functions_advanced state, input.allowed_advanced state⟩

/-! ## running readers -/

section running

variable {x : Parse α} {f : α → Parse β} {post : β → State → Prop} {post' : α → State → Prop}

/-- A sequence of readers, with a condition between them. -/
theorem meets_then (first : Meets failed (x input) state post')
    (rest : ∀ a state', post' a state' → Meets failed (f a input) state' post) :
    Meets failed ((x >>= f) input) state post :=
  Meets.bind first rest

/-- As for runs without faults, what stands before the rest of a reader can be carried out. -/
theorem meets_current {f : Token → Parse β} :
    Meets failed ((current >>= f) input) state post ↔
      Meets failed (f (input.token state) input) state post := Iff.rfl

theorem meets_peek {offset : Nat} {f : Token → Parse β} :
    Meets failed ((peek offset >>= f) input) state post ↔
      Meets failed (f (input.tokens[state.cursor + offset]?.getD input.eof) input) state post :=
  Iff.rfl

/-- The rest goes on behind the current token. -/
theorem meets_advance {f : Unit → Parse β} :
    Meets failed ((advance >>= f) input) state post ↔
      Meets failed (f ⟨⟩ input) (input.advanced state) post := Iff.rfl

theorem meets_retreat {f : Unit → Parse β} :
    Meets failed ((retreat >>= f) input) state post ↔
      Meets failed (f ⟨⟩ input) { state with cursor := state.cursor - 1 } post := Iff.rfl

/-- The rest gets the current token and goes on behind it. -/
theorem meets_next {f : Token → Parse β} :
    Meets failed ((next >>= f) input) state post ↔
      Meets failed (f (input.token state) input) (input.advanced state) post := Iff.rfl

/-- The rest gets the number of tokens that are left. -/
theorem meets_remaining {f : Nat → Parse β} :
    Meets failed ((remaining >>= f) input) state post ↔
      Meets failed (f (input.left state) input) state post := Iff.rfl

theorem meets_get {f : State → Parse β} :
    Meets failed ((get >>= f) input) state post ↔
      Meets failed (f state input) state post := Iff.rfl

/-- The rest goes on in the changed state. -/
theorem meets_modify {g : State → State} {f : PUnit → Parse β} :
    Meets failed ((modify g >>= f) input) state post ↔
      Meets failed (f ⟨⟩ input) (g state) post := Iff.rfl

theorem meets_environment {f : Environment → Parse β} :
    Meets failed ((environment >>= f) input) state post ↔
      Meets failed (f input.environment input) state post := Iff.rfl

/-- The rest gets the flags of the state. -/
theorem meets_allowed {f : Allowed → Parse β} :
    Meets failed ((allowed >>= f) input) state post ↔
      Meets failed (f state.allowed input) state post := Iff.rfl

/-- A token that may be missing decides between two ways to go on. -/
theorem meets_accept {kind : TokenKind} {f : Bool → Parse β} :
    Meets failed ((accept kind >>= f) input) state post ↔
      if (input.token state).kind = kind then
        Meets failed (f true input) (input.advanced state) post
      else Meets failed (f false input) state post := by
  rw [show (accept kind >>= f) input = accept kind input >>= fun a => f a input from rfl,
    Meets.bind_iff]
  have run : accept kind input state =
      (if (input.token state).kind = kind then do advance; return true
        else return false : Parse Bool) input state := rfl
  by_cases same : (input.token state).kind = kind
  · rw [if_pos same] at run ⊢
    exact Meets.iff_of_ok run
  · rw [if_neg same] at run ⊢
    exact Meets.iff_of_ok run

end running

/-! ## expressions -/

/-- Of a token that has to be there only the success counts. -/
theorem expect_meets {kind : TokenKind} {f : Token → Parse β} {post : β → State → Prop}
    (yes : (input.token state).kind = kind →
      Meets Freely (f (input.token state) input) (input.advanced state) post) :
    Meets Freely ((expect kind >>= f) input) state post := by
  have first : Meets Freely (expect kind input) state fun token state' =>
      token = input.token state ∧ (input.token state).kind = kind ∧
        state' = input.advanced state := by
    show Meets Freely ((if (input.token state).kind = kind then _ else _ : Parse Token) input)
      (input.advanced state) _
    split
    next same => exact ⟨rfl, same, rfl⟩
    next => trivial
  refine meets_then first ?_
  rintro _ _ ⟨rfl, same, rfl⟩
  exact yes same

/-- A token that may be there or not. -/
theorem skip_meets {kind : TokenKind} {f : Bool → Parse β} {post : β → State → Prop}
    (rest : ∀ taken state', state'.Same state →
      Meets Freely (f taken input) state' post) :
    Meets Freely ((accept kind >>= f) input) state post := by
  rw [meets_accept]
  split
  · exact rest true _ (input.same_advanced state)
  · exact rest false state (.refl state)

/-- If `x` succeeds it finds what `P` says, registers no function and leaves it as it is what is
allowed. -/
def Finds (input : Input) (P : α → Prop) (x : Parse α) : Prop :=
  ∀ state, Meets Freely (x input) state fun a state' => state'.Same state ∧ P a

/-- A repeated reader, from what one item and what comes behind it make together. -/
theorem collect_meets {item : Parse (Option α)} (rel : State → List α → State → Prop)
    (items : ∀ state, Meets Freely (item input) state fun found state' =>
      (found = none → rel state [] state') ∧
        ∀ a, found = some a → ∀ as state'', rel state' as state'' → rel state (a :: as) state'')
    (fuel : Nat) (state : State) : Meets Freely (collect item fuel input) state (rel state) := by
  induction fuel generalizing state with
  | zero => trivial
  | succ fuel ih =>
      unfold collect
      refine meets_then (items state) ?_
      rintro found state₁ ⟨last, more⟩
      cases found with
      | none => exact last rfl
      | some a => exact meets_then (ih state₁) fun as state₂ rest => more a rfl as state₂ rest

/-- A relation between the states around a list of items follows from that of each item and the
rest. -/
theorem many_meets {item : Parse (Option α)} (rel : State → List α → State → Prop)
    (items : ∀ state, Meets Freely (item input) state fun found state' =>
      (found = none → rel state [] state') ∧
        ∀ a, found = some a → ∀ as state'', rel state' as state'' → rel state (a :: as) state'')
    (state : State) : Meets Freely (many item input) state (rel state) := by
  unfold many
  rw [meets_remaining]
  exact collect_meets rel items _ state

/-- No identifier is written like the name of the constructor, which is a keyword. -/
def Input.NoConstructor (input : Input) : Prop :=
  ∀ token ∈ input.tokens, token.kind ≠ .identifier Template.constructor

/-- With no constructor among the tokens there is none at any place, be it behind their end. -/
theorem Input.NoConstructor.kind_ne (plain : input.NoConstructor) (ends : input.Ends) (k : Nat) :
    (input.tokens[k]?.getD input.eof).kind ≠ .identifier Template.constructor := by
  cases found : input.tokens[k]? with
  | none => simp [show input.eof.kind = .eof from ends]
  | some token => exact plain token (Array.mem_of_getElem? found)

/-- What stands behind the next token, unless that is the end. -/
theorem Input.token_advanced (ends : input.Ends) (h : (input.token state).kind ≠ .eof) :
    input.token (input.advanced state) = input.tokens[state.cursor + 1]?.getD input.eof := by
  have inside := input.left_pos ends h
  unfold Input.token Input.advanced
  rw [if_pos (by unfold Input.left at inside; omega)]

section expressions

variable {nested : Bool → Parse Node}

/-- What readers are told about the reader for nested expressions. -/
abbrev FindsExpressions (input : Input) (nested : Bool → Parse Node) : Prop :=
  ∀ withOperators, Finds input (Grammar.Expression input.environment) (nested withOperators)

/-- Arguments are expressions of the grammar. -/
theorem argumentsFrom_finds (inner : FindsExpressions input nested) (opening : Location)
    (fuel : Nat) :
    Finds input (Grammar.Expressions input.environment) (argumentsFrom nested opening fuel) := by
  induction fuel with
  | zero => exact fun _ => trivial
  | succ fuel ih =>
      intro state
      unfold argumentsFrom
      refine meets_then (inner true state) ?_
      rintro argument state₁ ⟨same, good⟩
      rw [meets_next]
      have same₁ := (input.same_advanced state₁).trans same
      cases (input.token state₁).kind with
      | comma =>
          refine meets_then (ih _) ?_
          rintro rest state₂ ⟨same₂, others⟩
          exact ⟨same₂.trans same₁, good, others⟩
      | parenClose => exact ⟨same₁, good, trivial⟩
      | _ => trivial

/-- The arguments of a call are expressions of the grammar. -/
theorem arguments_finds (inner : FindsExpressions input nested) :
    Finds input (Grammar.Expressions input.environment) (arguments nested) := by
  intro state
  unfold arguments
  refine expect_meets fun _ => ?_
  have same := input.same_advanced state
  rw [meets_accept]
  split
  · exact ⟨(input.same_advanced _).trans same, trivial⟩
  · refine (argumentsFrom_finds inner _ _ _).imp fun _ _ ⟨same₁, good⟩ => ?_
    exact ⟨same₁.trans same, good⟩

/-- The links of a chain are those of the grammar. -/
theorem chainLinks_finds (inner : FindsExpressions input nested) (fuel : Nat) :
    Finds input (Grammar.Links input.environment) (chainLinks nested fuel) := by
  induction fuel with
  | zero => exact fun _ => trivial
  | succ fuel ih =>
      intro state
      unfold chainLinks
      rw [meets_next]
      have same := input.same_advanced state
      cases (input.token state).kind with
      | identifier name =>
          rw [meets_current]
          have rest (link : Node) (state₁ : State) (same₁ : state₁.Same state)
              (good : Grammar.Link input.environment link)
              (last : Grammar.Links input.environment link) :
              Meets Freely ((do
                if ← accept .period then
                  return .chain (input.token state).location link (← chainLinks nested fuel)
                else return link : Parse Node) input) state₁ fun links state' =>
                  state'.Same state ∧
                    Grammar.Links input.environment links := by
            rw [meets_accept]
            split
            · refine meets_then (ih _) ?_
              rintro links state₂ ⟨same₂, others⟩
              exact ⟨same₂.trans ((input.same_advanced state₁).trans same₁), good, others⟩
            · exact ⟨same₁, last⟩
          split
          · refine meets_then (arguments_finds inner _) ?_
            rintro arguments state₁ ⟨same₁, good⟩
            exact rest _ state₁ (same₁.trans same) good good
          · exact rest _ _ same trivial trivial
      | _ => trivial

/-- If a point follows the start of a chain, it is one that a chain can start with. -/
theorem continueChain_finds (inner : FindsExpressions input nested) (location : Location)
    {base : Node} (good : Grammar.Expression input.environment base) (state : State)
    (starts : (input.token state).kind = .period →
      (input.token (input.advanced state)).kind.identifier?.isSome →
        Grammar.Head input.environment base) :
    Meets Freely (continueChain nested location base input) state fun node state' =>
      state'.Same state ∧ Grammar.Expression input.environment node := by
  unfold continueChain
  rw [meets_accept]
  split
  next period =>
    rw [if_pos rfl, meets_remaining]
    have same := input.same_advanced state
    cases named : (input.token (input.advanced state)).kind with
    | identifier name =>
        have head := starts period (by simp [named, TokenKind.identifier?])
        refine meets_then (chainLinks_finds inner _ _) fun links state₁ ⟨same₁, others⟩ => ?_
        exact ⟨same₁.trans same, head, good, others⟩
    | _ =>
        -- Nothing but a name can follow the point.
        have never (fuel : Nat) : Meets Freely (chainLinks nested (fuel + 1) input)
            (input.advanced state) fun _ _ => False := by
          unfold chainLinks
          rw [meets_next, named]
          trivial
        exact meets_then (never _) fun _ _ => False.elim
  next => exact ⟨.refl state, good⟩

/-- Whatever a name is taken for, it is an expression of the grammar, which has no static call of a
constructor by its name. -/
theorem identifierExpression_finds (ends : input.Ends) (plain : input.NoConstructor)
    (inner : FindsExpressions input nested) (location : Location) (name : String) :
    Finds input (Grammar.Expression input.environment)
      (identifierExpression nested location name) := by
  intro state
  unfold identifierExpression
  rw [meets_environment, meets_current, meets_peek]
  -- The arguments of a call, and what is chained to its result.
  have arguments_then (state₁ : State) (same : state₁.Same state)
      (make : List Node → Node)
      (makes : ∀ nodes, Grammar.Expressions input.environment nodes →
        Grammar.Expression input.environment (make nodes))
      (starts : ∀ nodes, Grammar.Head input.environment (make nodes)) :
      Meets Freely ((do
        let base ← pure (make (← arguments nested))
        continueChain nested location base : Parse Node) input) state₁ fun node state' =>
          state'.Same state ∧ Grammar.Expression input.environment node := by
    refine meets_then (arguments_finds inner state₁) fun nodes state₂ ⟨same₂, good⟩ => ?_
    refine (continueChain_finds inner location (makes nodes good) state₂
      fun _ _ => starts nodes).imp fun _ _ ⟨same₃, whole⟩ => ?_
    exact ⟨same₃.trans (same₂.trans same), whole⟩
  have alone := continueChain_finds inner location
    (show Grammar.Expression input.environment (.identifier location name) from trivial) state
  cases kind : (input.token state).kind with
  | parenOpen =>
      exact arguments_then state (.refl state) (.call location name) (fun _ good => good)
        fun _ => trivial
  | period =>
      have behind := Input.token_advanced ends (by simp [kind] : (input.token state).kind ≠ .eof)
      cases known : input.environment.template? name with
      | none => exact alone fun _ _ => known
      | some template =>
          cases second : (input.tokens[state.cursor + 1]?.getD input.eof).kind with
          | identifier function =>
              have other : function ≠ Template.constructor := by
                rintro rfl
                exact plain.kind_ne ends _ second
              rw [meets_advance, meets_advance]
              exact arguments_then _ ((input.same_advanced _).trans
                (input.same_advanced state)) (.staticCall location name function)
                  (fun nodes good => ⟨⟨template, known, (absurd · other)⟩, good⟩) fun _ => trivial
          | _ => exact alone (by simp [behind, second, TokenKind.identifier?])
  | _ => exact alone (by simp [kind])

/-- The arguments of a constructor and what is chained to its result. -/
theorem construction_finds (inner : FindsExpressions input nested) (location : Location)
    {template : Template} {name : String} (known : input.environment.template? name = some template)
    (function : String) :
    Finds input (Grammar.Expression input.environment) (do
      let arguments ← arguments nested
      match template.staticFunction? function arguments.length with
      | none => fail location (.noConstructor name function arguments.length)
      | some _ =>
        continueChain nested location (.staticCall location name function arguments)) := by
  intro state
  refine meets_then (arguments_finds inner state) fun nodes state₁ ⟨same, good⟩ => ?_
  cases found : template.staticFunction? function nodes.length with
  | none => trivial
  | some signature =>
      have call : Grammar.Expression input.environment
          (.staticCall location name function nodes) :=
        ⟨⟨template, known, fun _ => by simp [found]⟩, good⟩
      refine (continueChain_finds inner location call state₁ fun _ _ => trivial).imp ?_
      exact fun _ _ ⟨same₁, whole⟩ => ⟨same₁.trans same, whole⟩

/-- A constructor call is one that the host knows. -/
theorem newExpression_finds (inner : FindsExpressions input nested) (location : Location) :
    Finds input (Grammar.Expression input.environment) (newExpression nested location) := by
  intro state
  unfold newExpression
  rw [meets_next]
  have same := input.same_advanced state
  cases (input.token state).kind with
  | identifier name =>
      rw [meets_environment]
      cases known : input.environment.template? name with
      | none => trivial
      | some template =>
          have rest (function : String) {state₁ : State}
              (same₁ : state₁.Same state) :=
            (construction_finds inner location known function state₁).imp
              fun _ _ finds => And.intro (finds.1.trans same₁) finds.2
          rw [meets_accept]
          split
          · rw [if_pos rfl, meets_next]
            cases (input.token (input.advanced (input.advanced state))).kind with
            | identifier function =>
                exact rest function ((input.same_advanced _).trans
                  ((input.same_advanced _).trans same))
            | _ => trivial
          · exact rest _ same
  | _ => trivial

/-- An operand by its first token. -/
theorem operand_finds (ends : input.Ends) (plain : input.NoConstructor)
    (inner : FindsExpressions input nested) :
    Finds input (Grammar.Expression input.environment) (operand nested) := by
  intro state
  unfold operand
  rw [meets_next]
  have same := input.same_advanced state
  cases (input.token state).kind with
  | number value | string value => exact ⟨same, trivial⟩
  | identifier name =>
      refine (identifierExpression_finds ends plain inner _ name _).imp ?_
      exact fun _ _ ⟨same₁, good⟩ => ⟨same₁.trans same, good⟩
  | parenOpen =>
      refine meets_then (inner true _) fun node state₁ ⟨same₁, good⟩ => ?_
      refine expect_meets fun _ => ?_
      exact ⟨(input.same_advanced state₁).trans (same₁.trans same), good⟩
  | operator op =>
      cases op with
      | sub =>
          refine meets_then (inner false _) fun node state₁ ⟨same₁, good⟩ => ?_
          exact ⟨same₁.trans same, good⟩
      | _ => trivial
  | unary op =>
      refine meets_then (inner false _) fun node state₁ ⟨same₁, good⟩ => ?_
      exact ⟨same₁.trans same, good⟩
  | adjust direction =>
      refine meets_then (inner false _) fun node state₁ ⟨same₁, good⟩ => ?_
      exact ⟨same₁.trans same, nofun, good⟩
  | keyword word =>
      cases word with
      | nullKw => exact ⟨same, trivial⟩
      | newKw =>
          refine (newExpression_finds inner _ _).imp ?_
          exact fun _ _ ⟨same₁, good⟩ => ⟨same₁.trans same, good⟩
      | _ => trivial
  | _ => trivial

/-- An increment stands behind an expression of the grammar. -/
theorem adjusted_finds {node : Node} (good : Grammar.Expression input.environment node) :
    Finds input (Grammar.Expression input.environment) (adjusted node) := by
  intro state
  unfold adjusted
  rw [meets_current]
  cases (input.token state).kind with
  | adjust direction => exact ⟨input.same_advanced state, nofun, good⟩
  | _ => exact ⟨.refl state, good⟩

/-- Climbing leaves operators and operands as they were, so the tree is one of the grammar. -/
theorem operators_finds (inner : FindsExpressions input nested) {first : Node}
    (good : Grammar.Expression input.environment first) :
    Finds input (Grammar.Expression input.environment) (operators nested first) := by
  intro state
  unfold operators
  have items (state : State) : Meets Freely (many (operatorAndOperand nested) input) state
      fun found state' => state'.Same state ∧
        ∀ item ∈ found, Grammar.Expression input.environment item.2 := by
    refine many_meets (fun state (found : List (BinaryOperator × Node)) state' =>
      state'.Same state ∧
        ∀ item ∈ found, Grammar.Expression input.environment item.2) (fun state => ?_) state
    unfold operatorAndOperand
    rw [meets_current]
    cases (input.token state).kind with
    | operator op =>
        rw [meets_advance]
        refine meets_then (inner false _) fun node state₁ ⟨same, operand⟩ => ?_
        refine ⟨nofun, fun item found items state₂ ⟨same₂, others⟩ => ?_⟩
        cases found
        exact ⟨same₂.trans (same.trans (input.same_advanced state)),
          List.forall_mem_cons.2 ⟨operand, others⟩⟩
    | _ => exact ⟨fun _ => ⟨.refl state, nofun⟩, nofun⟩
  refine meets_then (items state) fun rest state₁ ⟨same, others⟩ => ?_
  have folds : (Precedence.fold? Precedence.join (first, rest)).isSome := Precedence.fold?_isSome _
  obtain ⟨tree, folded⟩ := Option.isSome_iff_exists.1 folds
  rw [folded]
  exact ⟨same,
    Precedence.fold?_operands (fun _ _ _ left right => ⟨left, right⟩) good others folded⟩

/-- If nested expressions are those of the grammar, so are all. -/
theorem expressionStep_finds (ends : input.Ends) (plain : input.NoConstructor)
    (inner : FindsExpressions input nested) : FindsExpressions input (expressionStep nested) := by
  intro withOperators state
  unfold expressionStep
  refine meets_then (operand_finds ends plain inner state) fun node state₁ ⟨same, good⟩ => ?_
  refine meets_then (adjusted_finds good state₁) fun node state₂ ⟨same₁, good⟩ => ?_
  cases withOperators with
  | true =>
      refine (operators_finds inner good state₂).imp fun _ _ ⟨same₂, whole⟩ => ?_
      exact ⟨same₂.trans (same₁.trans same), whole⟩
  | false => exact ⟨same₁.trans same, good⟩

/-- Expressions are those of the grammar, by induction on the fuel. -/
theorem expressionAt_finds (ends : input.Ends) (plain : input.NoConstructor) (fuel : Nat) :
    FindsExpressions input (expressionAt fuel) := by
  induction fuel with
  | zero => exact fun _ _ => trivial
  | succ fuel ih => exact expressionStep_finds ends plain ih

/-- What the reader takes for an expression is one of the grammar. -/
theorem expression_finds (ends : input.Ends) (plain : input.NoConstructor) :
    FindsExpressions input expression := fun withOperators state => by
  unfold expression
  rw [meets_remaining]
  exact expressionAt_finds ends plain _ withOperators state

end expressions

/-! ## statements -/

/-- What happened between two states: functions were registered, and the same is allowed again. -/
structure Registers (input : Input) (state state' : State) (definitions : List Definition) :
    Prop where
  enrolled : Enrolled input.environment state.functions state'.functions definitions
  allowed : state'.allowed = state.allowed

namespace Registers

variable {state₁ state₂ : State} {ds es : List Definition}

/-- Nothing is registered while the table stays the same. -/
theorem of_same (same : state₁.Same state) : Registers input state state₁ [] :=
  ⟨same.functions ▸ .refl _, same.allowed⟩

/-- Functions are registered in the order in which they are found. -/
theorem trans (first : Registers input state state₁ ds)
    (second : Registers input state₁ state₂ es) : Registers input state state₂ (ds ++ es) :=
  ⟨first.enrolled.trans second.enrolled, second.allowed.trans first.allowed⟩

/-- Nothing happens to the table before. -/
theorem before (same : state₁.Same state) (h : Registers input state₁ state₂ ds) :
    Registers input state state₂ ds :=
  (of_same same).trans h

/-- Nothing happens to the table behind. -/
theorem behind (h : Registers input state state₁ ds) (same : state₂.Same state₁) :
    Registers input state state₂ ds :=
  List.append_nil ds ▸ h.trans (of_same same)

/-- The order of the definitions does not matter. -/
theorem perm (h : Registers input state state₁ ds) (same : ds.Perm es) :
    Registers input state state₁ es :=
  ⟨h.enrolled.perm same, h.allowed⟩

/-- What is allowed in a part of a statement is forgotten behind it. -/
theorem restore {inner : Allowed}
    (h : Registers input { state with allowed := inner } state₁ ds) :
    Registers input state { state₁ with allowed := state.allowed } ds :=
  ⟨h.enrolled, rfl⟩

end Registers

/-- What was found between two states is a statement where `allowed` says what it may do, and the
functions that are defined in it are registered. -/
structure Built (input : Input) (allowed : Allowed) (state : State) (node : Node) (state' : State) :
    Prop where
  registers : Registers input state state' node.definitions
  statement : Grammar.Statement input.environment allowed node

/-- If `x` succeeds it finds a statement that may stand where it is. -/
def Builds (input : Input) (x : Parse Node) : Prop :=
  ∀ state, Meets Freely (x input) state (Built input state.allowed state)

section statements

variable {nested : Parse Node}

/-- A part of a statement, which says itself what is allowed in it. -/
theorem within_builds (h : Builds input nested) (inner : Allowed) (state : State) :
    Meets Freely (within inner nested input) state (Built input inner state) := by
  refine bracket_meets ((h { state with allowed := inner }).imp ?_)
  exact fun node state' ⟨registers, good⟩ => ⟨registers.restore, good⟩

/-- The statements of a block, whatever ends it. -/
theorem items_build {item : Parse (Option Node)}
    (items : ∀ state, Meets Freely (item input) state fun found state' =>
      (found = none → state'.Same state) ∧
        ∀ node, found = some node → Built input state.allowed state node state')
    (state : State) :
    Meets Freely (many item input) state fun nodes state' =>
      Registers input state state' (definitionsOf nodes) ∧
        Grammar.Statements input.environment state.allowed nodes := by
  refine many_meets (fun state nodes state' => Registers input state state' (definitionsOf nodes) ∧
    Grammar.Statements input.environment state.allowed nodes) (fun state => ?_) state
  refine (items state).imp fun found state₁ ⟨last, more⟩ => ?_
  refine ⟨fun none => ⟨.of_same (last none), trivial⟩, fun node some nodes state₂ rest => ?_⟩
  obtain ⟨first, good⟩ := more node some
  exact ⟨first.trans rest.1, good, first.allowed ▸ rest.2⟩

/-- One more statement of a block. -/
theorem item_builds (h : Builds input nested) (state : State) :
    Meets Freely ((do return some (← nested) : Parse (Option Node)) input) state
      fun found state' => (found = none → state'.Same state) ∧
        ∀ node, found = some node → Built input state.allowed state node state' := by
  refine meets_then (h state) fun node state₁ found => ⟨nofun, fun _ same => ?_⟩
  cases same
  exact found

/-- The functions of a block are those of its statements. -/
theorem block_builds (h : Builds input nested) (opening : Location) :
    Builds input (block nested opening) := by
  intro state
  refine meets_then (items_build (fun state => ?_) state)
    fun nodes state₁ ⟨registers, good⟩ => ⟨registers, good⟩
  unfold blockItem
  rw [meets_current]
  cases (input.token state).kind with
  | braceClose => exact ⟨fun _ => input.same_advanced state, nofun⟩
  | eof => trivial
  | _ => exact item_builds h state

/-- The body of a case is a block, and its functions are those of its statements. -/
theorem caseBody_builds (h : Builds input nested) (switch location : Location) (state : State) :
    Meets Freely (caseBody nested switch location input) state fun node state' =>
      Grammar.Block node ∧ Built input state.allowed state node state' := by
  refine meets_then (items_build (fun state => ?_) state)
    fun nodes state₁ ⟨registers, good⟩ => ⟨trivial, registers, good⟩
  unfold caseItem
  rw [meets_current]
  cases (input.token state).kind with
  | braceClose => exact ⟨fun _ => .refl state, nofun⟩
  | keyword word =>
      cases word with
      | caseKw | defaultKw => exact ⟨fun _ => .refl state, nofun⟩
      | _ => exact item_builds h state
  | eof => trivial
  | _ => exact item_builds h state

/-- The cases of a switch.  The default may stand anywhere among them, but only once. -/
theorem casesFrom_builds (ends : input.Ends) (plain : input.NoConstructor)
    (h : Builds input nested) (switch : Location) (fuel : Nat) (fallback : Option Node)
    (state : State) :
    Meets Freely (casesFrom nested switch fuel fallback input) state
      fun found state' => ∃ new, found.2 = fallback.or new ∧ (fallback.isSome → new = none) ∧
        Registers input state state' (definitionsOfCases found.1 ++ definitionsOfOptional new) ∧
        Grammar.Cases input.environment state.allowed found.1 ∧
        (∀ body ∈ new, Grammar.Block body) ∧
        Grammar.Otherwise input.environment state.allowed new := by
  induction fuel generalizing fallback state with
  | zero => trivial
  | succ fuel ih =>
      unfold casesFrom
      rw [meets_next]
      have same := input.same_advanced state
      cases (input.token state).kind with
      | keyword word =>
          cases word with
          | caseKw =>
              refine meets_then (expression_finds ends plain true _) ?_
              rintro value state₁ ⟨same₁, good⟩
              refine expect_meets fun _ => ?_
              have same₂ := (input.same_advanced state₁).trans (same₁.trans same)
              refine meets_then (caseBody_builds h _ _ _) ?_
              rintro body state₂ ⟨block, registers, statement⟩
              have before := registers.before same₂
              refine meets_then (ih fallback state₂) ?_
              rintro found state₃ ⟨new, last, once, rest, cases, blocks, others⟩
              rw [before.allowed] at cases others
              rw [same₂.allowed] at statement
              refine ⟨new, last, once, ?_, ⟨good, block, statement, cases⟩, blocks, others⟩
              have all := before.trans rest
              rwa [← List.append_assoc] at all
          | defaultKw =>
              cases fallback with
              | some body => trivial
              | none =>
                  refine expect_meets fun _ => ?_
                  have same₁ := (input.same_advanced (input.advanced state)).trans same
                  refine meets_then (caseBody_builds h _ _ _) ?_
                  rintro body state₁ ⟨block, registers, statement⟩
                  have before := registers.before same₁
                  refine (ih (some body) state₁).imp ?_
                  rintro found state₂ ⟨new, last, once, rest, cases, others⟩
                  obtain rfl := once rfl
                  rw [definitionsOfOptional, List.append_nil] at rest
                  rw [before.allowed] at cases
                  rw [same₁.allowed] at statement
                  refine ⟨some body, by simpa using last, by simp,
                    (before.trans rest).perm List.perm_append_comm, cases, ?_, statement⟩
                  rintro _ ⟨⟩
                  exact block
          | _ => trivial
      | braceClose =>
          exact ⟨none, by simp, fun _ => rfl, .of_same same, trivial, by simp, trivial⟩
      | _ => trivial

/-- The cases say whether a break is allowed in them, which is put back behind them. -/
theorem inCases_builds (ends : input.Ends) (plain : input.NoConstructor) (h : Builds input nested)
    (switch : Location) (kind : SwitchKind) (fuel : Nat) (state : State) :
    Meets Freely (inCases kind (casesFrom nested switch fuel none) input) state
      fun found state' =>
        Registers input state state' (definitionsOfCases found.1 ++ definitionsOfOptional found.2) ∧
        Grammar.Cases input.environment (state.allowed.cases kind) found.1 ∧
        (∀ body ∈ found.2, Grammar.Block body) ∧
        Grammar.Otherwise input.environment (state.allowed.cases kind) found.2 := by
  refine bracket_meets ((casesFrom_builds ends plain h switch fuel none
    { state with allowed := state.allowed.cases kind }).imp ?_)
  rintro found state' ⟨new, last, _, registers, cases, blocks, others⟩
  rw [Option.none_or] at last
  subst last
  have back : { state'.allowed with leave := state.allowed.leave } = state.allowed := by
    rw [registers.allowed]
    rfl
  rw [back]
  exact ⟨registers.restore, cases, blocks, others⟩

/-- The functions of a switch are those of its cases and its default. -/
theorem switch_builds (ends : input.Ends) (plain : input.NoConstructor)
    (inner : Builds input nested) (location : Location) (kind : SwitchKind) :
    Builds input (switch nested location kind) := by
  intro state
  unfold switch
  refine meets_then (expression_finds ends plain true state) fun value state₁ ⟨same, good⟩ => ?_
  refine expect_meets fun _ => ?_
  rw [meets_remaining]
  have same₁ := (input.same_advanced state₁).trans same
  refine meets_then (inCases_builds ends plain inner location kind _ _) ?_
  rintro ⟨_, _⟩ state₂ ⟨registers, cases, blocks, fallback⟩
  rw [same₁.allowed] at cases fallback
  exact ⟨registers.before same₁, good, cases, blocks, fallback⟩

/-- The functions of a for loop are found in the order of its text, which is not that of its
code. -/
theorem forLoop_builds (ends : input.Ends) (plain : input.NoConstructor)
    (inner : Builds input nested) (location : Location) :
    Builds input (forLoop nested location) := by
  intro state
  unfold forLoop
  have rest (parenthesized : Bool) (state₁ : State) (same : state₁.Same state) :
      Meets Freely ((do
        let init ← nested
        let condition ← expression true
        let _ ← accept .semicolon
        let post ← within .loopPost nested
        if parenthesized then
          let _ ← expect .parenClose
        let body ← within .loopBody nested
        return .forLoop location init condition post body : Parse Node) input) state₁
        (Built input state.allowed state) := by
    refine meets_then (inner state₁) fun init state₂ ⟨registers, goodInit⟩ => ?_
    refine meets_then (expression_finds ends plain true state₂)
      fun condition state₃ ⟨same₃, goodCondition⟩ => ?_
    rw [same.allowed] at goodInit
    refine skip_meets fun _ state₄ same₄ => ?_
    refine meets_then (within_builds inner .loopPost state₄)
      fun post state₅ ⟨registers₅, goodPost⟩ => ?_
    have before := (registers.before same).trans (registers₅.before (same₄.trans same₃))
    have body (state₆ : State) (same₆ : state₆.Same state₅) :
        Meets Freely ((do
          let body ← within .loopBody nested
          return .forLoop location init condition post body : Parse Node) input) state₆
          (Built input state.allowed state) := by
      refine meets_then (within_builds inner .loopBody state₆)
        fun body state₇ ⟨registers₇, goodBody⟩ => ?_
      exact ⟨before.trans (registers₇.before same₆), goodInit, goodCondition, goodPost, goodBody⟩
    cases parenthesized with
    | true => exact expect_meets fun _ => body _ (input.same_advanced state₅)
    | false => exact body state₅ (.refl state₅)
  exact skip_meets rest

/-- Any name or string can be that of a label. -/
theorem labelName_finds : Finds input (fun _ => True) labelName := by
  intro state
  unfold labelName
  rw [meets_next]
  cases (input.token state).kind with
  | identifier name | string name => exact ⟨input.same_advanced state, trivial⟩
  | _ => trivial

/-- The functions of a label are those of its statement. -/
theorem label_builds (h : Builds input nested) (location : Location) :
    Builds input (label nested location) := by
  intro state
  unfold label
  refine meets_then (labelName_finds state) fun name state₁ ⟨same, _⟩ => ?_
  refine skip_meets fun _ state₂ same₂ => ?_
  rw [meets_current]
  have same₂ := same₂.trans same
  have before : Meets Freely ((do return .label location name (← nested) : Parse Node) input) state₂
      (Built input state.allowed state) := by
    refine meets_then (h state₂) fun statement state₃ ⟨registers, good⟩ => ?_
    exact ⟨registers.before same₂, same₂.allowed ▸ good⟩
  cases (input.token state₂).kind with
  | braceClose | eof => exact ⟨.of_same same₂, trivial⟩
  | _ => exact before

/-- The rest of a directive whose name has been read. -/
theorem directiveRule_builds (nested : Parse Node) (host : input.environment.hostDirectives = [])
    (location : Location) (name : String) (token : Token) :
    Builds input (do
      match (← environment).directive? name with
      | none => fail token.location (.invalidDirective name)
      | some rule =>
        let (code, statements) ← directiveBody nested token rule
        record (.directive name location)
        return .directive location name code statements) := by
  intro state
  rw [meets_environment]
  have marker := Environment.directive?_of_plain host name
  split at marker
  · rw [marker]
    exact ⟨.of_same ⟨rfl, rfl⟩, ⟨.marker, marker⟩, rfl, rfl⟩
  · rw [marker]
    trivial

/-- Without rules of the host, a directive is nothing but its name. -/
theorem directive_builds (host : input.environment.hostDirectives = []) (location : Location) :
    Builds input (directive nested location) := by
  intro state
  unfold directive
  rw [meets_next]
  have same := input.same_advanced state
  have rule (name : String) := (directiveRule_builds nested host location name
    (input.token state) (input.advanced state)).imp fun node state' built =>
      show Built input state.allowed state node state' from
        ⟨built.1.before same, same.allowed ▸ built.2⟩
  cases kind : (input.token state).kind with
  | identifier name => exact rule name
  | keyword word => exact rule word.text
  | _ => trivial

/-- Parameters are distinct: a second one of the same name is an error. -/
theorem parametersFrom_finds (function : String) (fuel : Nat) {parameters : List String}
    (distinct : parameters.Nodup) :
    Finds input List.Nodup (parametersFrom function fuel parameters) := by
  induction fuel generalizing parameters with
  | zero => exact fun _ => trivial
  | succ fuel ih =>
      intro state
      unfold parametersFrom
      rw [meets_next]
      cases (input.token state).kind with
      | identifier parameter =>
          dsimp only
          split
          · trivial
          next new =>
            have more : (parameters ++ [parameter]).Nodup := by
              rw [List.nodup_append]
              refine ⟨distinct, by simp, fun a old b same => ?_⟩
              rintro rfl
              exact new (List.mem_singleton.1 same ▸ old)
            have same := (input.same_advanced (input.advanced state)).trans
              (input.same_advanced state)
            rw [meets_next]
            cases (input.token (input.advanced state)).kind with
            | comma =>
                refine (ih more _).imp ?_
                rintro _ _ ⟨same₁, good⟩
                exact ⟨same₁.trans same, good⟩
            | parenClose => exact ⟨same, more⟩
            | _ => trivial
      | _ => trivial

/-- The parameters of a function are distinct. -/
theorem parameters_finds (function : String) :
    Finds input List.Nodup (parameters function) := by
  intro state
  unfold parameters
  refine expect_meets fun _ => ?_
  have same := input.same_advanced state
  rw [meets_accept]
  split
  · exact ⟨(input.same_advanced _).trans same, List.nodup_nil⟩
  · refine (parametersFrom_finds function _ List.nodup_nil _).imp ?_
    exact fun _ _ ⟨same₁, good⟩ => ⟨same₁.trans same, good⟩

/-- A function is registered only under a name that is free. -/
theorem register_meets (name : String) (parameters : List String) (location : Location)
    (state : State) :
    Meets Freely (register name parameters location input) state fun id state' =>
      id = state.functions.size ∧
        rival? input.environment state.functions name parameters.length = none ∧
        state'.functions = state.functions.register name parameters ∧
        state'.allowed = state.allowed := by
  unfold register
  rw [meets_get, meets_environment]
  cases free : rival? input.environment state.functions name parameters.length with
  | some rival => trivial
  | none => exact ⟨rfl, rfl, rfl, rfl⟩

/-- A statement that starts with a brace is a block. -/
abbrev Blocks (input : Input) (x : Parse Node) : Prop :=
  ∀ state, (input.token state).kind = .braceOpen →
    Meets Freely (x input) state fun node _ => Grammar.Block node

/-- A function is registered behind those in its body, which has to be a block. -/
theorem function_builds (inner : Builds input nested) (blocks : Blocks input nested)
    (location : Location) : Builds input (function nested location) := by
  intro state
  unfold function
  rw [meets_next]
  have same := input.same_advanced state
  cases (input.token state).kind with
  | identifier name =>
      refine meets_then (parameters_finds name _) fun parameters state₁ ⟨same₁, distinct⟩ => ?_
      rw [meets_current]
      dsimp only
      split
      · trivial
      next opening =>
        have block : Meets Freely (within .nowhere nested input) state₁
            fun node _ => Grammar.Block node :=
          bracket_meets (blocks { state₁ with allowed := .nowhere } (Decidable.not_not.1 opening))
        refine meets_then ((within_builds inner .nowhere state₁).and block)
          fun body state₂ ⟨⟨registers, good⟩, block⟩ => ?_
        refine meets_then (register_meets name parameters _ state₂)
          fun id state₃ ⟨next, free, registered, allowed⟩ => ?_
        subst next
        let definition : Definition := ⟨location, state₂.functions.size, name, parameters, body⟩
        have new : Registers input state₂ state₃ [definition] :=
          ⟨registered ▸ .register (d := definition) state₂.functions rfl free, allowed⟩
        exact ⟨(registers.before (same₁.trans same)).trans new, distinct, block, good⟩
  | _ => trivial

/-- An expression that stands alone has to have an effect. -/
theorem effect_builds (allowed : Allowed) (location : Location) (node : Node) (state : State) :
    Grammar.Expression input.environment node →
    Meets Freely ((match node with
      | .adjust location _ target direction =>
        return .adjust location .statement target direction
      | .call .. | .staticCall .. | .chain .. => return .discard location node
      | other => fail other.location (.notAStatement other.kindName) : Parse Node) input) state
      fun statement state' => state'.Same state ∧ statement.definitions = [] ∧
        Grammar.Statement input.environment allowed statement := by
  intro good
  cases node with
  | adjust => exact ⟨.refl state, rfl, rfl, good.2⟩
  | call | staticCall | chain => exact ⟨.refl state, rfl, trivial, good⟩
  | _ => trivial

/-- A statement that starts like an expression is one of the grammar and has no functions. -/
theorem expressionStatement_builds (ends : input.Ends) (plain : input.NoConstructor)
    (location : Location) : Builds input (expressionStatement location) := by
  intro state
  unfold expressionStatement
  refine meets_then (expression_finds ends plain false state) fun node state₁ ⟨same, good⟩ => ?_
  rw [meets_current]
  have alone := (effect_builds state.allowed location node state₁ good).imp
    fun statement state₂ ⟨same₂, simple, whole⟩ =>
      show Built input state.allowed state statement state₂ from
        ⟨simple ▸ .of_same (same₂.trans same), whole⟩
  cases (input.token state₁).kind with
  | set op =>
      rw [meets_advance]
      refine meets_then (expression_finds ends plain true _) fun value state₂ ⟨same₂, value⟩ => ?_
      exact ⟨.of_same (same₂.trans ((input.same_advanced state₁).trans same)), good, value⟩
  | _ => exact alone

/-- What a return statement returns is an expression of the grammar. -/
theorem returnValue_meets (ends : input.Ends) (plain : input.NoConstructor) (state : State) :
    Meets Freely (returnValue input) state fun value state' =>
      state'.Same state ∧
        ∀ node, value = some node → Grammar.Expression input.environment node := by
  unfold returnValue
  rw [meets_current]
  have value : Meets Freely ((do return some (← expression true) : Parse (Option Node)) input) state
      fun value state' => state'.Same state ∧
        ∀ node, value = some node → Grammar.Expression input.environment node :=
    meets_then (expression_finds ends plain true state) fun node state₁ ⟨same, good⟩ =>
      ⟨same, fun _ found => Option.some.inj found ▸ good⟩
  cases (input.token state).kind with
  | semicolon | braceClose | eof => exact ⟨.refl state, nofun⟩
  | _ => exact value

/-- The rest of a statement behind its first token, at which the cursor stands again if the token
is the start of an expression. -/
theorem statementFrom_builds (ends : input.Ends) (plain : input.NoConstructor)
    (host : input.environment.hostDirectives = []) (inner : Builds input nested)
    (blocks : Blocks input nested) (token : Token) :
    Builds input (statementFrom nested token) := by
  intro state
  unfold statementFrom
  have lone : Meets Freely ((do retreat; expressionStatement token.location : Parse Node) input)
      state (Built input state.allowed state) := by
    rw [meets_retreat]
    refine (expressionStatement_builds ends plain token.location _).imp ?_
    exact fun node state' ⟨registers, good⟩ => ⟨⟨registers.enrolled, registers.allowed⟩, good⟩
  cases token.kind with
  | keyword word =>
      cases word with
      | returnKw =>
          refine meets_then (returnValue_meets ends plain state) fun value state₁ ⟨same, good⟩ => ?_
          cases value with
          | none => exact ⟨.of_same same, trivial⟩
          | some node => exact ⟨.of_same same, good node rfl⟩
      | ifKw =>
          refine meets_then (expression_finds ends plain true state)
            fun condition state₁ ⟨same, test⟩ => ?_
          refine meets_then (inner state₁) fun accepted state₂ ⟨first, good⟩ => ?_
          rw [same.allowed] at good
          have before := first.before same
          rw [meets_accept]
          split
          · rw [if_pos rfl]
            refine meets_then (inner _) fun otherwise state₃ ⟨second, other⟩ => ?_
            have same₂ := input.same_advanced state₂
            rw [same₂.allowed, before.allowed] at other
            exact ⟨before.trans (second.before same₂), test, good, other⟩
          · exact ⟨before.trans (.of_same (.refl state₂)), test, good, trivial⟩
      | switchKw => exact switch_builds ends plain inner _ _ state
      | selectKw => exact switch_builds ends plain inner _ _ state
      | whileKw =>
          refine meets_then (expression_finds ends plain true state)
            fun condition state₁ ⟨same, test⟩ => ?_
          refine meets_then (within_builds inner .loopBody state₁)
            fun body state₂ ⟨first, good⟩ => ?_
          exact ⟨first.before same, test, good⟩
      | doKw =>
          refine meets_then (within_builds inner .loopBody state)
            fun body state₁ ⟨first, good⟩ => ?_
          refine expect_meets fun _ => ?_
          refine meets_then (expression_finds ends plain true _)
            fun condition state₂ ⟨same, test⟩ => ?_
          exact ⟨first.behind (same.trans (input.same_advanced state₁)), good, test⟩
      | forKw => exact forLoop_builds ends plain inner _ state
      | breakKw =>
          rw [meets_allowed]
          cases leave : state.allowed.leave with
          | true => exact ⟨.of_same (.refl state), leave⟩
          | false => trivial
      | continueKw =>
          rw [meets_allowed]
          cases proceed : state.allowed.proceed with
          | true => exact ⟨.of_same (.refl state), proceed⟩
          | false => trivial
      | labelKw => exact label_builds inner _ state
      | jumpKw | callKw =>
          refine meets_then (labelName_finds state) fun name state₁ ⟨same, _⟩ => ?_
          exact ⟨.of_same same, trivial⟩
      | backKw => exact ⟨.of_same (.refl state), trivial⟩
      | functionKw => exact function_builds inner blocks _ state
      | _ => exact lone
  | braceOpen => exact block_builds inner _ state
  | pound => exact directive_builds host _ state
  | _ => exact lone

/-- What starts with a brace is a block. -/
theorem statementStep_blocks : Blocks input (statementStep nested) := by
  intro state opening
  unfold statementStep
  rw [meets_next]
  unfold statementFrom
  rw [opening]
  dsimp only
  have block : Meets Freely (block nested (input.token state).location input)
      (input.advanced state) fun node _ => Grammar.Block node :=
    meets_then Meets.freely fun _ _ _ => trivial
  exact meets_then block fun node state₁ good => skip_meets fun _ _ _ => good

/-- If nested statements are those of the grammar, so are all. -/
theorem statementStep_builds (ends : input.Ends) (plain : input.NoConstructor)
    (host : input.environment.hostDirectives = []) (inner : Builds input nested)
    (blocks : Blocks input nested) : Builds input (statementStep nested) := by
  intro state
  unfold statementStep
  rw [meets_next]
  have same := input.same_advanced state
  refine meets_then (statementFrom_builds ends plain host inner blocks _ _)
    fun node state₁ ⟨registers, good⟩ => skip_meets fun _ state₂ same₂ => ?_
  exact ⟨(registers.before same).behind same₂, same.allowed ▸ good⟩

end statements

/-- Statements are those of the grammar, by induction on the fuel. -/
theorem statementAt_builds (ends : input.Ends) (plain : input.NoConstructor)
    (host : input.environment.hostDirectives = []) (fuel : Nat) :
    Builds input (statementAt fuel) ∧ Blocks input (statementAt fuel) := by
  induction fuel with
  | zero => exact ⟨fun _ => trivial, fun _ _ => trivial⟩
  | succ fuel ih => exact ⟨statementStep_builds ends plain host ih.1 ih.2, statementStep_blocks⟩

/-- Reading a script gives a block of statements and registers the functions defined in it. -/
theorem script_builds (ends : input.Ends) (plain : input.NoConstructor)
    (host : input.environment.hostDirectives = []) (state : State) :
    Meets Freely (script input) state fun root state' =>
      Enrolled input.environment state.functions state'.functions root.definitions ∧
        Grammar.Block root ∧ Grammar.Statement input.environment .nowhere root := by
  unfold script
  rw [meets_modify, meets_current]
  refine meets_then (items_build (fun state => ?_) _)
    fun nodes state₁ ⟨registers, good⟩ => ⟨registers.enrolled, trivial, good⟩
  unfold scriptItem
  rw [meets_current]
  have one : Builds input statement := fun state =>
    (statementAt_builds ends plain host _).1 state
  cases (input.token state).kind with
  | eof => exact ⟨fun _ => .refl state, nofun⟩
  | _ => exact item_builds one state

end Parse

end HostScript
